/-!
# Lines and fields of a text

Plain-text formats are read line by line, and a line field by field. A text is a list of
characters here, so that every function is a recursion on it.

* `pieces` cuts a list at its separators, and keeps empty pieces: lines are the pieces between
  line feeds (`lines`, and `byteLines` for raw bytes).
* `isBlank` is the Unicode property White_Space. `trim` drops blanks at both ends and `fields`
  lists the maximal runs of characters that are not blank.

Main statements: `pieces_ne_nil`, every text has a piece; `pieces_of_not_any`, a text without a
separator is its own only piece; `fields_nil`; `mem_fields_ne_nil`, no field is empty.
-/

namespace Superstep.Text

/-! ## Cutting at separators -/

/-- Puts an element in front of the pieces of what follows it. -/
def cut {α : Type} (sep : α → Bool) (c : α) (ps : List (List α)) : List (List α) :=
  if sep c then [] :: ps
  else
    match ps with
    | [] => [[c]]
    | p :: ps => (c :: p) :: ps

/-- The stretches of a list between the elements that `sep` marks, empty ones included. -/
def pieces {α : Type} (sep : α → Bool) (cs : List α) : List (List α) := cs.foldr (cut sep) [[]]

@[simp] theorem pieces_nil {α : Type} (sep : α → Bool) : pieces sep [] = [[]] := rfl

@[simp] theorem pieces_cons {α : Type} (sep : α → Bool) (c : α) (cs : List α) :
    pieces sep (c :: cs) = cut sep c (pieces sep cs) := rfl

theorem pieces_ne_nil {α : Type} (sep : α → Bool) (cs : List α) : pieces sep cs ≠ [] := by
  cases cs with
  | nil => simp
  | cons c cs =>
    rw [pieces_cons]
    unfold cut
    split
    · simp
    · split <;> simp

/-- A list without a separator is one piece. -/
theorem pieces_of_not_any {α : Type} (sep : α → Bool) (cs : List α)
    (h : ∀ c ∈ cs, sep c = false) : pieces sep cs = [cs] := by
  induction cs with
  | nil => rfl
  | cons c cs ih =>
    have hc := h c (by simp)
    have hcs := ih (fun d hd => h d (by simp [hd]))
    simp [cut, hc, hcs]

/-! ## Lines -/

/-- The lines of a text. What follows the last line feed is a line too, so that a text which ends
    in a line feed ends in an empty line. -/
def lines (text : List Char) : List (List Char) := pieces (· == '\n') text

/-- The characters of one line of bytes, if they are well-formed UTF-8. -/
def decodeLine (bytes : List UInt8) : Option (List Char) :=
  (String.fromUTF8? ⟨bytes.toArray⟩).map String.toList

/-- The lines of a byte sequence, each decoded on its own: `none` marks a line that is not
    well-formed UTF-8. -/
def byteLines (bytes : List UInt8) : List (Option (List Char)) :=
  (pieces (· == 10) bytes).map decodeLine

/-! ## Blanks and fields -/

/-- The characters with the Unicode property White_Space, as ranges of code points. -/
def blankRanges : List (Nat × Nat) :=
  [(0x09, 0x0d), (0x20, 0x20), (0x85, 0x85), (0xa0, 0xa0), (0x1680, 0x1680), (0x2000, 0x200a),
    (0x2028, 0x2029), (0x202f, 0x202f), (0x205f, 0x205f), (0x3000, 0x3000)]

/-- Whether a character is white space. -/
def isBlank (c : Char) : Bool :=
  blankRanges.any fun range => range.1 ≤ c.toNat && c.toNat ≤ range.2

/-- A text without the blanks at its start and at its end. -/
def trim (text : List Char) : List Char :=
  ((text.dropWhile isBlank).reverse.dropWhile isBlank).reverse

/-- The maximal runs of characters that are not blank. -/
def fields (text : List Char) : List (List Char) :=
  (pieces isBlank text).filter fun piece => !piece.isEmpty

@[simp] theorem fields_nil : fields [] = [] := rfl

/-- A field is never empty. -/
theorem mem_fields_ne_nil {text field : List Char} (h : field ∈ fields text) : field ≠ [] := by
  have := (List.mem_filter.1 h).2
  intro hnil
  simp [hnil] at this

/-- What follows `start` in `text`, if `text` begins with it. -/
def after? (start text : List Char) : Option (List Char) :=
  if start.isPrefixOf text then some (text.drop start.length) else none

end Superstep.Text
