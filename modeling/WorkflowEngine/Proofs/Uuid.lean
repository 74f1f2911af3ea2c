import Mathlib.Data.List.Basic
import WorkflowEngine.Proofs.Text.Digits
import WorkflowEngine.Uuid

/-!
# Identifiers and their texts

An identifier is read back from its text, so that different executions have different directories. The
other forms that are read are not covered.
-/
namespace WorkflowEngine

namespace Uuid

theorem ofDigitChars?_digitChars (id : Uuid) : ofDigitChars? id.digitChars = some id := by
  have back (ds : List (Fin 16)) :
      (ds.map fun d => Hex.digit d.val).mapM (fun c => (Hex.value? c).map (Fin.ofNat 16)) =
        some ds := by
    induction ds with
    | nil => rfl
    | cons d ds ih =>
      have digit : Fin.ofNat 16 (d.val % 16) = d := Fin.ext (by simp)
      rw [List.map_cons, List.mapM_cons, ih, Hex.value?_digit, Option.map_some, digit]
      rfl
  simp [ofDigitChars?, digitChars, back, id.length_eq]

theorem length_digitChars (id : Uuid) : id.digitChars.length = 32 := by
  rw [digitChars, List.length_map, id.length_eq]

/-- The hyphens are taken out again. -/
theorem ofHyphenated?_groups {a b c d e : List Char} (length_a : a.length = 8)
    (length_b : b.length = 4) (length_c : c.length = 4) (length_d : d.length = 4)
    (length_e : e.length = 12) :
    ofHyphenated? (a ++ '-' :: b ++ '-' :: c ++ '-' :: d ++ '-' :: e) =
      ofDigitChars? (a ++ b ++ c ++ d ++ e) := by
  have hyphens : [8, 13, 18, 23].all (fun place =>
      (a ++ '-' :: b ++ '-' :: c ++ '-' :: d ++ '-' :: e)[place]? == some '-') = true := by
    simp [List.getElem?_append, length_a, length_b, length_c, length_d]
  have whole : (a ++ '-' :: b ++ '-' :: c ++ '-' :: d ++ '-' :: e).length = 36 := by
    simp [length_a, length_b, length_c, length_d, length_e]
  rw [ofHyphenated?, if_pos (by rw [whole, hyphens]; rfl)]
  simp (disch := omega) [List.drop_append, List.drop_of_length_le, length_a,
    length_b, length_c, length_d]

theorem ofHyphenated?_chars (id : Uuid) : ofHyphenated? id.chars = some id := by
  have length := id.length_digitChars
  have whole : id.digitChars.take 8 ++ (id.digitChars.drop 8).take 4 ++
      (id.digitChars.drop 12).take 4 ++ (id.digitChars.drop 16).take 4 ++ id.digitChars.drop 20 =
        id.digitChars := by
    simp only [← List.take_add, List.take_append_drop]
  rw [chars, ofHyphenated?_groups, whole, ofDigitChars?_digitChars] <;> simp [length]

theorem parse?_toText (id : Uuid) : parse? id.toText = some id := by
  have length : id.chars.length = 36 := by
    simp [chars, id.length_digitChars]
  rw [parse?, toText, String.toList_ofList, ofChars?, if_neg (by omega), if_pos length,
    ofHyphenated?_chars]

theorem toText_inj {a b : Uuid} (same : a.toText = b.toText) : a = b := by
  have back := a.parse?_toText
  rw [same, parse?_toText] at back
  exact (Option.some.inj back).symm

theorem decode_toJson (id : Uuid) : decode id.toJson = .ok id := by
  simp [decode, toJson, parse?_toText]

end Uuid

end WorkflowEngine
