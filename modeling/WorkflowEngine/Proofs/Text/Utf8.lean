import Mathlib.Data.List.Basic
import WorkflowEngine.Text.Utf8

/-!
# Texts and their bytes

The bytes of a text determine it, and the byte of a line end stands in them only where the text has a
line end. The lossy reading of other bytes is not covered.
-/
namespace WorkflowEngine

namespace Bytes

theorem toList_loop (array : ByteArray) (place : Nat) (seen : List UInt8) :
    ByteArray.toList.loop array place seen = seen.reverse ++ array.data.toList.drop place := by
  fun_induction ByteArray.toList.loop array place seen with
  | case1 place seen inside ih =>
    have bound : place < array.data.toList.length := by simpa using inside
    rw [ih, List.drop_eq_getElem_cons bound]
    simp [ByteArray.get!, getElem!_pos array.data place (by simpa using bound)]
  | case2 place seen outside =>
    have bound : array.data.toList.length ≤ place := by simpa using outside
    rw [List.drop_of_length_le bound, List.append_nil]

theorem toList_eq (array : ByteArray) : array.toList = array.data.toList := by
  simpa [ByteArray.toList] using toList_loop array 0 []

theorem toByteArray_toList (array : ByteArray) : array.toList.toByteArray = array := by
  apply ByteArray.ext
  apply Array.ext'
  rw [List.toList_data_toByteArray, toList_eq]

theorem text?_ofText (text : String) : text? (ofText text) = some text := by
  unfold text? ofText String.fromUTF8?
  rw [toByteArray_toList, String.toUTF8_eq_toByteArray, dif_pos text.isValidUTF8]
  rfl

/-- The bytes of a text, character by character. -/
theorem ofText_ofList (cs : List Char) :
    ofText (String.ofList cs) = cs.flatMap String.utf8EncodeChar := by
  rw [ofText, String.toUTF8_eq_toByteArray, toList_eq, String.toByteArray_ofList, List.utf8Encode,
    List.toList_data_toByteArray]

/-- A byte below 128 is a character by itself. -/
theorem mem_utf8EncodeChar {c : Char} {b : UInt8} (mem : b ∈ String.utf8EncodeChar c)
    (small : b.toNat < 128) : c.toNat = b.toNat := by
  have same : c.toNat = c.val.toNat := rfl
  rw [String.utf8EncodeChar.eq_1] at mem
  split at mem
  case isTrue =>
    simp only [List.mem_singleton] at mem
    subst mem
    simp
    omega
  -- every byte of a longer row is 128 or above
  all_goals
    repeat' split at mem
    all_goals
      simp only [List.mem_cons, List.not_mem_nil, or_false] at mem
      rcases mem with rfl | rfl | rfl | rfl <;> simp at small <;> omega

/-- The byte of a line end comes from a line end. -/
theorem newline_mem_ofText {cs : List Char} (mem : 10 ∈ ofText (String.ofList cs)) : '\n' ∈ cs := by
  rw [ofText_ofList, List.mem_flatMap] at mem
  obtain ⟨c, there, mem⟩ := mem
  have same : c.toNat = 10 := mem_utf8EncodeChar mem (by decide)
  have : c = '\n' := Char.toNat_inj.mp same
  exact this ▸ there

theorem ofText_ne_nil {c : Char} {cs : List Char} : ofText (String.ofList (c :: cs)) ≠ [] := by
  rw [ofText_ofList, List.flatMap_cons]
  simp [String.utf8EncodeChar_ne_nil]

end Bytes

end WorkflowEngine
