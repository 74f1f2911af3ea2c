import Mathlib.Data.String.Basic

/-!
# Texts split at a character

The parts of a text between the occurrences of one character are those of the list of its characters.
-/
namespace WorkflowEngine

namespace Text

private theorem nil_append_eq_id : (fun part : List Char => [] ++ part) = id := rfl

/-- The parts found so far, and those of a part that is begun and what is left of the text. -/
theorem splitOnAux_eq (mark : Char) (before part rest : List Char) (parts : List String) :
    String.splitOnAux (String.ofList (before ++ part ++ rest)) (String.ofList [mark])
        ⟨String.utf8Len before⟩ ⟨String.utf8Len (before ++ part)⟩ 0 parts =
      parts.reverse ++ ((rest.splitOn mark).modifyHead (part ++ ·)).map String.ofList := by
  induction rest generalizing before part parts with
  | nil =>
    have ends : String.Pos.Raw.atEnd (String.ofList (before ++ part ++ []))
        ⟨String.utf8Len (before ++ part)⟩ = true := (String.atEnd_of_valid _ _).mpr rfl
    have cut := String.extract_of_valid before part []
    rw [← String.utf8Len_append] at cut
    rw [String.splitOnAux.eq_def, if_pos ends, cut]
    simp
  | cons c rest ih =>
    have goes : ¬String.Pos.Raw.atEnd (String.ofList (before ++ part ++ c :: rest))
        ⟨String.utf8Len (before ++ part)⟩ = true := by
      rw [String.atEnd_of_valid]
      exact List.cons_ne_nil c rest
    have here : String.Pos.Raw.get (String.ofList (before ++ part ++ c :: rest))
        ⟨String.utf8Len (before ++ part)⟩ = c := String.get_of_valid _ _
    have sought : String.Pos.Raw.get (String.ofList [mark]) 0 = mark :=
      String.get_of_valid [] [mark]
    have next : String.Pos.Raw.next (String.ofList (before ++ part ++ c :: rest))
        ⟨String.utf8Len (before ++ part)⟩ = ⟨String.utf8Len (before ++ part ++ [c])⟩ := by
      rw [String.next_of_valid, String.utf8Len_append (before ++ part)]
      simp
    have text : before ++ part ++ c :: rest = before ++ part ++ [c] ++ rest := by simp
    rw [String.splitOnAux.eq_def, if_neg goes, here, sought, next,
      List.splitOn_eq_splitOnP, List.splitOnP_cons_eq_if_modifyHead, ← List.splitOn_eq_splitOnP]
    by_cases same : c = mark
    · subst same
      have past : String.Pos.Raw.next (String.ofList [c]) 0 = ⟨c.utf8Size⟩ := by
        simpa using String.next_of_valid [] c []
      have ended : String.Pos.Raw.atEnd (String.ofList [c]) ⟨c.utf8Size⟩ = true := by
        simpa using String.atEnd_of_valid [c] []
      have back : String.Pos.Raw.unoffsetBy ⟨String.utf8Len (before ++ part ++ [c])⟩ ⟨c.utf8Size⟩ =
          ⟨String.utf8Len (before ++ part)⟩ := by
        simp only [String.Pos.Raw.unoffsetBy, String.utf8Len_append, String.utf8Len_cons,
          String.utf8Len_nil]
        congr 1
        omega
      have cut := String.extract_of_valid before part (c :: rest)
      rw [← String.utf8Len_append] at cut
      have others := ih (before ++ part ++ [c]) [] (String.ofList part :: parts)
      rw [List.append_nil, ← text] at others
      simp only [beq_self_eq_true, if_true, past, ended, back, cut]
      rw [others, nil_append_eq_id, List.modifyHead_id]
      simp
    · have stays : String.Pos.Raw.unoffsetBy ⟨String.utf8Len (before ++ part)⟩ 0 =
          ⟨String.utf8Len (before ++ part)⟩ := rfl
      have others := ih before (part ++ [c]) parts
      rw [← List.append_assoc, ← text] at others
      have unlike : (c == mark) = false := by simpa using same
      simp only [unlike, Bool.false_eq_true, if_false, stays, next, others]
      simp [List.modifyHead_modifyHead, Function.comp_def]

/-- A text is split at a character as the list of its characters is. -/
theorem splitOn_eq (text : String) (mark : Char) :
    text.splitOn (String.ofList [mark]) = (text.toList.splitOn mark).map String.ofList := by
  have solid : (String.ofList [mark] == "") = false := by
    rw [beq_eq_false_iff_ne]
    intro same
    simpa using congrArg String.toList same
  have whole := splitOnAux_eq mark [] [] text.toList []
  rw [nil_append_eq_id, List.modifyHead_id] at whole
  rw [String.splitOn, solid, if_neg (by simp)]
  simpa using whole

end Text

end WorkflowEngine
