import WorkflowEngine.Json.Printer
import WorkflowEngine.Json.Reader
import WorkflowEngine.Proofs.Text.Digits

/-!
# Quoted texts

Every text is read back from between its quotes, and no quoted text holds a line end: what a line of a
log is made of cannot be cut by what its texts say. Escapes that are read but never written are not
covered.
-/
namespace WorkflowEngine

namespace Json

/-- The piece one written character is read as. -/
def pieceOf (c : Char) : Piece :=
  match escapeChar c with
  | '\\' :: 'u' :: _ => .unit c.toNat
  | _ => .char c

/-- The three ways in which a character stands between quotes: as a letter after a backslash, as a
code unit, or as itself. -/
theorem escapeChar_cases (c : Char) :
    (∃ letter, escapeChar c = ['\\', letter] ∧ letter ≠ 'u' ∧ simpleEscape? letter = some c) ∨
    (c.toNat < 0x20 ∧ escapeChar c = '\\' :: 'u' :: Hex.digits 4 c.toNat) ∨
    (0x20 ≤ c.toNat ∧ c ≠ '"' ∧ c ≠ '\\' ∧ escapeChar c = [c]) := by
  fun_cases escapeChar c with
  | case8 c quote slash _ _ _ _ _ control => exact .inr (.inl ⟨control, rfl⟩)
  | case9 c quote slash _ _ _ _ _ plain =>
    exact .inr (.inr ⟨Nat.le_of_not_lt plain, quote, slash, rfl⟩)
  | _ => exact .inl ⟨_, rfl, by decide, by decide⟩

theorem readPieces_letter {letter c : Char} (plain : letter ≠ 'u')
    (escape : simpleEscape? letter = some c) (tail : List Char) :
    readPieces ('\\' :: letter :: tail) =
      (readPieces tail).map fun read => (.char c :: read.1, read.2) := by
  rw [readPieces]
  · simp only [escape]
    cases readPieces tail <;> rfl
  · intro _ _ _ _ _ same
    exact absurd same plain

theorem readPieces_unit {n : Nat} (small : n < 0x10000) (tail : List Char) :
    readPieces ('\\' :: 'u' :: (Hex.digits 4 n ++ tail)) =
      (readPieces tail).map fun read => (.unit n :: read.1, read.2) := by
  have value : Hex.read? (Hex.digits 4 n) = some n := by
    rw [Hex.read?_digits, Nat.mod_eq_of_lt (Nat.lt_of_lt_of_le small (by decide))]
  simp only [Hex.digits, List.nil_append, List.cons_append] at value ⊢
  rw [readPieces]
  simp only [value]
  cases readPieces tail <;> rfl

theorem readPieces_plain {c : Char} (plain : 0x20 ≤ c.toNat) (quote : c ≠ '"') (slash : c ≠ '\\')
    (tail : List Char) :
    readPieces (c :: tail) = (readPieces tail).map fun read => (.char c :: read.1, read.2) := by
  rw [readPieces]
  · simp only [Nat.not_lt.mpr plain, if_false]
    cases readPieces tail <;> rfl
  all_goals simp_all

theorem readPieces_escape (c : Char) (tail : List Char) :
    readPieces (escapeChar c ++ tail) =
      (readPieces tail).map fun read => (pieceOf c :: read.1, read.2) := by
  rcases escapeChar_cases c with
    ⟨letter, written, plain, escape⟩ | ⟨control, written⟩ | ⟨plain, quote, slash, written⟩
  · have piece : pieceOf c = .char c := by simp [pieceOf, written, plain]
    rw [written, piece]
    exact readPieces_letter plain escape tail
  · have piece : pieceOf c = .unit c.toNat := by simp [pieceOf, written]
    rw [written, piece]
    exact readPieces_unit (by omega) tail
  · have piece : pieceOf c = .char c := by simp [pieceOf, written]
    rw [written, piece]
    exact readPieces_plain plain quote slash tail

theorem readPieces_quoted (cs rest : List Char) :
    readPieces (cs.flatMap escapeChar ++ '"' :: rest) = .ok (cs.map pieceOf, rest) := by
  induction cs with
  | nil => rfl
  | cons c cs ih =>
    rw [List.flatMap_cons, List.append_assoc, readPieces_escape, ih]
    rfl

theorem assemble_unit {u : Nat} (small : u < 0xD800) (pieces : List Piece) :
    assemble (.unit u :: pieces) = (assemble pieces).map (Char.ofNat u :: ·) := by
  have high : isHighSurrogate u = false := by simp [isHighSurrogate]; omega
  have low : isLowSurrogate u = false := by simp [isLowSurrogate]; omega
  rcases pieces with _ | ⟨c | v, pieces⟩
  · simp [assemble, high, low, pure, Except.pure, bind, Except.bind, Except.map]
  · simp only [assemble, high, low, Bool.or_self, Bool.false_eq_true, if_false]
    cases assemble pieces <;> rfl
  · rw [assemble]
    simp only [high, low, Bool.or_self, Bool.false_and, Bool.false_eq_true, if_false]
    cases assemble (.unit v :: pieces) <;> rfl

theorem assemble_pieceOf (cs : List Char) : assemble (cs.map pieceOf) = .ok cs := by
  induction cs with
  | nil => rfl
  | cons c cs ih =>
    have char : assemble (.char c :: cs.map pieceOf) = .ok (c :: cs) := by
      simp [assemble, ih, bind, Except.bind, pure, Except.pure]
    rw [List.map_cons]
    rcases escapeChar_cases c with
      ⟨letter, written, plain, -⟩ | ⟨control, written⟩ | ⟨-, -, -, written⟩
    · rwa [show pieceOf c = .char c by simp [pieceOf, written, plain]]
    · rw [show pieceOf c = .unit c.toNat by simp [pieceOf, written],
        assemble_unit (by omega), ih, Char.ofNat_toNat]
      rfl
    · rwa [show pieceOf c = .char c by simp [pieceOf, written]]

/-- A quoted text is read up to its closing quote. -/
theorem readString_quote (s : String) (rest : List Char) :
    readString (s.toList.flatMap escapeChar ++ '"' :: rest) = .ok (s, rest) := by
  simp [readString, readPieces_quoted, assemble_pieceOf, bind, Except.bind, pure, Except.pure]

theorem newline_not_mem_quote (s : String) : '\n' ∉ quote s := by
  have digit (n : Nat) : '\n' ≠ Hex.digit n := by
    have all : ∀ d < 16, '\n' ≠ Nat.digitChar d := by decide
    exact all (n % 16) (Nat.mod_lt n (by decide))
  have inside (c : Char) : '\n' ∉ escapeChar c := by
    rcases escapeChar_cases c with ⟨letter, written, -, escape⟩ | ⟨-, written⟩ | ⟨plain, -, -, written⟩
    · have other : '\n' ≠ letter := by
        rintro rfl
        exact absurd escape (by simp [simpleEscape?])
      simp [written, other]
    · simp [written, Hex.digits, digit]
    · have other : '\n' ≠ c := by
        rintro rfl
        exact absurd plain (by decide)
      simp [written, other]
  simp [quote, inside]

end Json

end WorkflowEngine
