import Mathlib.Tactic.SplitIfs
import Superstep.Proofs.Text.Fields

/-!
# Lines of bytes and lines of characters

A reader of bytes looks for line feeds before it decodes. In UTF-8 the byte of a line feed is part
of no other character, so that the lines of the bytes of a text are the bytes of its lines.

Results:
* `byteLines_utf8`: a text that is read from its bytes has the lines of the text.
* `toUTF8_ofList`: the bytes of a string are those of its characters.
-/

namespace Superstep.Text

/-- The bytes of a text. -/
def utf8 (text : List Char) : List UInt8 := text.flatMap String.utf8EncodeChar

theorem eq_of_mem_utf8EncodeChar {c : Char} (h : 10 ∈ String.utf8EncodeChar c) : c = '\n' := by
  unfold String.utf8EncodeChar at h
  dsimp only at h
  split_ifs at h
  all_goals
    simp only [List.mem_cons, List.not_mem_nil, or_false, ← UInt8.toNat_inj, UInt8.toNat_ofNat',
      UInt8.reduceToNat] at h
  · have hval : c.val.toNat = 10 := by omega
    exact Char.ext (UInt32.toNat_inj.1 hval)
  -- the bytes of longer encodings are at least 128
  all_goals omega

theorem utf8EncodeChar_lineFeed : String.utf8EncodeChar '\n' = [10] := by decide

theorem pieces_utf8 (text : List Char) :
    pieces (· == 10) (utf8 text) = (lines text).map utf8 := by
  induction text with
  | nil => rfl
  | cons c text ih =>
    obtain ⟨line, rest, hlines⟩ := List.exists_cons_of_ne_nil (pieces_ne_nil (· == '\n') text)
    rw [lines, hlines, List.map_cons] at ih
    rw [utf8, List.flatMap_cons, ← utf8, lines, pieces_cons, hlines]
    by_cases hc : c = '\n'
    · subst hc
      rw [utf8EncodeChar_lineFeed, List.singleton_append, pieces_cons, ih]
      rfl
    · have hno : ∀ b ∈ String.utf8EncodeChar c, (b == 10) = false := fun b hb =>
        beq_false_of_ne fun he => hc (eq_of_mem_utf8EncodeChar (he ▸ hb))
      rw [pieces_append hno ih]
      simp [cut, hc, utf8]

theorem decodeLine_utf8 (line : List Char) : decodeLine (utf8 line) = some line := by
  have hbytes : (⟨(utf8 line).toArray⟩ : ByteArray) = line.utf8Encode := by
    ext1
    rw [List.utf8Encode, List.data_toByteArray, utf8]
  have hvalid : line.utf8Encode.IsValidUTF8 := ByteArray.isValidUTF8_utf8Encode
  have hdecoded : String.fromUTF8 line.utf8Encode hvalid = String.ofList line := by
    rw [← String.toByteArray_inj, String.toByteArray_ofList]
    rfl
  rw [decodeLine, hbytes, String.fromUTF8?, dif_pos hvalid, hdecoded]
  simp

theorem byteLines_utf8 (text : List Char) : byteLines (utf8 text) = (lines text).map some := by
  rw [byteLines, pieces_utf8, List.map_map]
  exact List.map_congr_left fun line _ => decodeLine_utf8 line

theorem toList_loop (bytes : ByteArray) (i : Nat) (rest : List UInt8) :
    ByteArray.toList.loop bytes i rest = rest.reverse ++ bytes.data.toList.drop i := by
  fun_induction ByteArray.toList.loop bytes i rest with
  | case1 i rest h ih =>
    have hi : i < bytes.data.toList.length := h
    have hget : bytes.get! i = bytes.data.toList[i] := by
      rw [ByteArray.get!, Array.getElem_toList, getElem!_pos]
    rw [ih, hget, List.reverse_cons, List.append_assoc, List.singleton_append,
      List.drop_eq_getElem_cons hi]
  | case2 i rest h =>
    have hi : bytes.data.toList.length ≤ i := Nat.le_of_not_lt h
    rw [List.drop_of_length_le hi, List.append_nil]

theorem toUTF8_ofList (text : List Char) : (String.ofList text).toUTF8.toList = utf8 text := by
  rw [String.toUTF8, String.toByteArray_ofList, ByteArray.toList, toList_loop, List.utf8Encode,
    List.data_toByteArray]
  rfl

end Superstep.Text
