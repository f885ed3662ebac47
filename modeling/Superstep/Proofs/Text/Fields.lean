import Mathlib.Data.List.Basic
import Mathlib.Data.List.TakeWhile
import Superstep.Text.Fields

/-!
# Pieces, blanks and fields

Cutting at separators takes a concatenation apart: at a separator the pieces of both sides stand
next to each other (`pieces_append_cons`), and without one the first piece of the right side grows
(`pieces_append`). What is known of lines and of fields follows from these two.

Results: `trim_eq_nil_iff`, what is trimmed to nothing; `trim_of_ends`, a text without blanks at its
ends is not changed; `fields_trim`, trimming does not change the fields; `fields_append_cons`, the
fields on the two sides of a blank; `fields_of_not_blank`, a text without blanks is its own only
field.
-/

namespace Superstep.Text

/-! ## Pieces -/

section Pieces

variable {α : Type} {sep : α → Bool}

theorem pieces_append {cs : List α} (h : ∀ c ∈ cs, sep c = false) {rest p : List α}
    {ps : List (List α)} (hrest : pieces sep rest = p :: ps) :
    pieces sep (cs ++ rest) = (cs ++ p) :: ps := by
  induction cs with
  | nil => exact hrest
  | cons c cs ih =>
    rw [List.forall_mem_cons] at h
    rw [List.cons_append, pieces_cons, ih h.2]
    simp [cut, h.1]

theorem pieces_append_cons {c : α} (hc : sep c) (cs rest : List α) :
    pieces sep (cs ++ c :: rest) = pieces sep cs ++ pieces sep rest := by
  induction cs with
  | nil => simp [cut, hc]
  | cons d cs ih =>
    obtain ⟨p, ps, hps⟩ := List.exists_cons_of_ne_nil (pieces_ne_nil sep cs)
    rw [List.cons_append, pieces_cons, ih, pieces_cons, hps]
    unfold cut
    split <;> rfl

end Pieces

/-! ## Lines -/

theorem lines_append_cons (cs rest : List Char) :
    lines (cs ++ '\n' :: rest) = lines cs ++ lines rest :=
  pieces_append_cons (by rfl) cs rest

theorem lines_of_not_mem {cs : List Char} (h : '\n' ∉ cs) : lines cs = [cs] :=
  pieces_of_not_any _ cs fun _ hc => beq_false_of_ne fun he => h (he ▸ hc)

/-! ## Trimming -/

section Trim

variable {text : List Char}

theorem exists_trim (text : List Char) :
    ∃ lead trail, text = lead ++ trim text ++ trail ∧ (∀ c ∈ lead, isBlank c) ∧
      ∀ c ∈ trail, isBlank c := by
  refine ⟨text.takeWhile isBlank, ((text.dropWhile isBlank).reverse.takeWhile isBlank).reverse, ?_,
    fun _ hc => List.mem_takeWhile_imp hc,
    fun _ hc => List.mem_takeWhile_imp (List.mem_reverse.1 hc)⟩
  rw [trim, List.append_assoc, ← List.reverse_append, List.takeWhile_append_dropWhile,
    List.reverse_reverse, List.takeWhile_append_dropWhile]

theorem trim_eq_nil_iff : trim text = [] ↔ ∀ c ∈ text, isBlank c := by
  constructor
  · intro h c hc
    obtain ⟨lead, trail, htext, hlead, htrail⟩ := exists_trim text
    rw [htext, h, List.append_nil, List.mem_append] at hc
    exact hc.elim (hlead c) (htrail c)
  · intro h
    rw [trim, List.dropWhile_eq_nil_iff.2 h]
    rfl

theorem trim_cons_of_blank {c : Char} (hc : isBlank c) : trim (c :: text) = trim text := by
  rw [trim, List.dropWhile_cons_of_pos hc, trim]

/-- A visible character at the start stays there. -/
theorem head?_trim {c : Char} (hc : isBlank c = false) : (trim (c :: text)).head? = some c := by
  obtain ⟨lead, trail, htext, hlead, htrail⟩ := exists_trim (c :: text)
  cases lead with
  | cons d lead =>
    obtain rfl := (List.cons.inj htext).1
    simp [hc] at hlead
  | nil =>
    rw [List.nil_append] at htext
    cases htrim : trim (c :: text) with
    | nil => simp [trim_eq_nil_iff.1 htrim c List.mem_cons_self] at hc
    | cons d cs =>
      rw [htrim] at htext
      obtain rfl := (List.cons.inj htext).1
      rfl

theorem trim_of_ends (hhead : ∀ c ∈ text.head?, isBlank c = false)
    (hlast : ∀ c ∈ text.getLast?, isBlank c = false) : trim text = text := by
  have keep : ∀ cs : List Char, (∀ c ∈ cs.head?, isBlank c = false) → cs.dropWhile isBlank = cs
    | [], _ => rfl
    | c :: cs, h => List.dropWhile_cons_of_neg (by simp [h c rfl])
  rw [trim, keep _ hhead, keep _ (by rwa [List.head?_reverse]), List.reverse_reverse]

theorem trim_of_not_blank (h : ∀ c ∈ text, isBlank c = false) : trim text = text :=
  trim_of_ends (fun c hc => h c (List.mem_of_mem_head? hc)) fun c hc =>
    h c (List.mem_of_mem_getLast? hc)

theorem trim_cons_append {c : Char} {back : List Char} (hc : isBlank c = false) (hne : back ≠ [])
    (hback : ∀ d ∈ back, isBlank d = false) (middle : List Char) :
    trim (c :: (middle ++ back)) = c :: (middle ++ back) := by
  refine trim_of_ends (fun d hd => ?_) fun d hd => ?_
  · obtain rfl := Option.some.inj hd
    exact hc
  · rw [← List.cons_append, List.getLast?_append_of_ne_nil _ hne] at hd
    exact hback d (List.mem_of_mem_getLast? hd)

end Trim

/-! ## Fields -/

section Fields

variable {text field rest : List Char} {c : Char}

theorem fields_append_cons (hc : isBlank c) (text rest : List Char) :
    fields (text ++ c :: rest) = fields text ++ fields rest := by
  rw [fields, pieces_append_cons hc, List.filter_append, fields, fields]

theorem fields_cons (hc : isBlank c) (rest : List Char) : fields (c :: rest) = fields rest :=
  fields_append_cons hc [] rest

theorem fields_of_not_blank (hne : field ≠ []) (h : ∀ c ∈ field, isBlank c = false) :
    fields field = [field] := by
  rw [fields, pieces_of_not_any _ _ h, List.filter_cons_of_pos (by simp [hne]), List.filter_nil]

theorem fields_of_blanks (h : ∀ c ∈ text, isBlank c) : fields text = [] := by
  induction text with
  | nil => rfl
  | cons c text ih =>
    rw [List.forall_mem_cons] at h
    rw [fields_cons h.1, ih h.2]

/-- Blanks at the two ends do not change the fields. -/
theorem fields_trim (text : List Char) : fields (trim text) = fields text := by
  obtain ⟨lead, trail, htext, hlead, htrail⟩ := exists_trim text
  have hright : ∀ cs, fields (cs ++ trail) = fields cs := fun cs => by
    cases trail with
    | nil => rw [List.append_nil]
    | cons c trail =>
      rw [List.forall_mem_cons] at htrail
      rw [fields_append_cons htrail.1, fields_of_blanks htrail.2, List.append_nil]
  have hleft : ∀ lead : List Char, (∀ c ∈ lead, isBlank c) →
      fields (lead ++ trim text) = fields (trim text) := by
    intro lead hlead
    induction lead with
    | nil => rfl
    | cons c lead ih =>
      rw [List.forall_mem_cons] at hlead
      rw [List.cons_append, fields_cons hlead.1, ih hlead.2]
  rw [← hleft lead hlead, ← hright (lead ++ trim text), ← htext]

end Fields

/-! ## Prefixes -/

theorem after?_eq_some_iff {start text rest : List Char} :
    after? start text = some rest ↔ text = start ++ rest := by
  unfold after?
  constructor
  · intro h
    split at h
    · next hpre =>
      obtain ⟨tail, rfl⟩ := List.isPrefixOf_iff_prefix.1 hpre
      simpa [eq_comm] using h
    · cases h
  · rintro rfl
    simp

theorem after?_eq_none_iff {start text : List Char} :
    after? start text = none ↔ ¬ start <+: text := by
  simp [after?]

end Superstep.Text
