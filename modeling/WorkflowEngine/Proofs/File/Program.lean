import WorkflowEngine.File.Program
import WorkflowEngine.Proofs.File.System

/-!
# Programs that may stop

A process may stop between two operations or within one, and leaves what it has done by then: some of
the directories, a file that was opened but not cut, a first part of the bytes. A rename happens or does
not. What a program keeps is shown operation by operation, of every state it may leave and of its end.
-/
namespace WorkflowEngine

def FileOp.isRename : FileOp → Bool
  | .rename _ _ => true
  | _ => false

/-- What may be left by a process that stops within an operation. -/
inductive FileOp.Torn (fs : FileSystem) : FileOp → FileSystem → Prop
  | nothing (op : FileOp) : Torn fs op fs
  | whole (op : FileOp) : Torn fs op (fs.perform op).2
  | directories {path : Path} {left : FileSystem} (count : Nat)
      (made : fs.createDirectories (path.take count) = .ok left) :
      Torn fs (.createDirectories path) left
  | opened {path : Path} {length : Nat} {left : FileSystem} (made : fs.writeAt path 0 [] = .ok left) :
      Torn fs (.resize path length) left
  | written {path : Path} {offset : Nat} {bytes : Bytes} {left : FileSystem} (count : Nat)
      (made : fs.writeAt path offset (bytes.take count) = .ok left) :
      Torn fs (.writeAt path offset bytes) left
  | replaced {path : Path} {content : Bytes} {left : FileSystem} (count : Nat)
      (made : fs.replace path (content.take count) = .ok left) : Torn fs (.replace path content) left

namespace FileSystem

variable {fs : FileSystem} {path : Path}

theorem Ready.perform_replace (ready : fs.Ready path) (content : Bytes) :
    fs.perform (.replace path content) = (.ok (), fs.put path (.file content)) := by
  rw [perform, ready.replace]
  rfl

theorem Ready.perform_resize (ready : fs.Ready path) (length : Nat) :
    fs.perform (.resize path length) =
      (.ok (), fs.put path (.file (resized (fs.contentOf path) length))) := by
  rw [perform, ready.resize]
  rfl

theorem Ready.perform_writeAt (ready : fs.Ready path) (offset : Nat) (bytes : Bytes) :
    fs.perform (.writeAt path offset bytes) =
      (.ok (), fs.put path (.file (resized (fs.contentOf path) offset ++ bytes ++
        (fs.contentOf path).drop (offset + bytes.length)))) := by
  rw [perform, ready.writeAt]
  rfl

theorem Ready.perform_rename {source : Path} {content : Bytes} (ready : fs.Ready path)
    (found : fs.find? source = some (.file content)) :
    fs.perform (.rename source path) =
      (.ok (), (fs.removeTree source).put path (.file content)) := by
  rw [perform, ready.rename found]
  rfl

end FileSystem

namespace FileOp

open FileSystem

variable {fs left : FileSystem} {path : Path}

theorem Torn.of_read (torn : Torn fs (.read path) left) : left = fs := by
  cases torn <;> rfl

theorem Torn.of_replace (ready : fs.Ready path) {content : Bytes}
    (torn : Torn fs (.replace path content) left) :
    left = fs ∨ ∃ part, left = fs.put path (.file part) := by
  cases torn with
  | nothing => exact .inl rfl
  | whole =>
    rw [ready.perform_replace]
    exact .inr ⟨content, rfl⟩
  | replaced count made =>
    rw [ready.replace] at made
    cases made
    exact .inr ⟨_, rfl⟩

theorem Torn.of_resize (ready : fs.Ready path) {length : Nat}
    (torn : Torn fs (.resize path length) left) :
    left = fs ∨ left = fs.put path (.file (fs.contentOf path)) ∨
      left = fs.put path (.file (resized (fs.contentOf path) length)) := by
  cases torn with
  | nothing => exact .inl rfl
  | whole =>
    rw [ready.perform_resize]
    exact .inr (.inr rfl)
  | opened made =>
    rw [ready.writeAt] at made
    cases made
    exact .inr (.inl (by simp [resized]))

/-- A first part of the bytes is written. -/
theorem Torn.of_writeAt (ready : fs.Ready path) {offset : Nat} {bytes : Bytes}
    (torn : Torn fs (.writeAt path offset bytes) left) :
    left = fs ∨ ∃ rest, left = fs.put path (.file (resized (fs.contentOf path) offset ++ rest)) := by
  cases torn with
  | nothing => exact .inl rfl
  | whole =>
    rw [ready.perform_writeAt, List.append_assoc]
    exact .inr ⟨_, rfl⟩
  | written count made =>
    rw [ready.writeAt, List.append_assoc] at made
    cases made
    exact .inr ⟨_, rfl⟩

theorem Torn.of_rename {op : FileOp} (rename : op.isRename = true) (torn : Torn fs op left) :
    left = fs ∨ left = (fs.perform op).2 := by
  cases torn with
  | nothing => exact .inl rfl
  | whole => exact .inr rfl
  | directories | opened | written | replaced => cases rename

end FileOp

namespace FileProgram

variable {α : Type}

theorem run_bind {β : Type} (program : FileProgram α) (next : α → FileProgram β) (fs : FileSystem) :
    (program.bind next).run fs = (next (program.run fs).1).run (program.run fs).2 := by
  induction program generalizing fs with
  | done a => rfl
  | step op rest ih => exact ih _ _

/-- What may be left by a process that stops within a program, or after it. -/
def Leaves : FileProgram α → FileSystem → FileSystem → Prop
  | .done _, fs, left => left = fs
  | .step op next, fs, left =>
    op.Torn fs left ∨ (next (fs.perform op).1).Leaves (fs.perform op).2 left

/-- Among what may be left is what is left between two operations. -/
theorem leaves_stoppedAfter (count : Nat) (program : FileProgram α) (fs : FileSystem) :
    program.Leaves fs (program.stoppedAfter count fs) := by
  induction program generalizing count fs with
  | done a => cases count <;> rfl
  | step op next ih =>
    cases count with
    | zero => exact .inl (.nothing op)
    | succ count => exact .inr (ih _ count _)

/-- A program keeps to something whenever it stops, and to something of its result at its end. -/
def Keeps (during : FileSystem → Prop) (after : α → FileSystem → Prop) :
    FileProgram α → FileSystem → Prop
  | .done a, fs => during fs ∧ after a fs
  | .step op next, fs =>
    (∀ left, op.Torn fs left → during left) ∧
      (next (fs.perform op).1).Keeps during after (fs.perform op).2

variable {during : FileSystem → Prop} {after : α → FileSystem → Prop} {program : FileProgram α}
  {fs left : FileSystem}

theorem Keeps.leaves (keeps : program.Keeps during after fs) (leaves : program.Leaves fs left) :
    during left := by
  induction program generalizing fs with
  | done a =>
    rw [show left = fs from leaves]
    exact keeps.1
  | step op next ih =>
    rcases leaves with torn | later
    · exact keeps.1 left torn
    · exact ih _ keeps.2 later

theorem Keeps.run (keeps : program.Keeps during after fs) :
    after (program.run fs).1 (program.run fs).2 := by
  induction program generalizing fs with
  | done a => exact keeps.2
  | step op next ih => exact ih _ keeps.2

theorem Keeps.weaken {wider : FileSystem → Prop} {later : α → FileSystem → Prop}
    (keeps : program.Keeps during after fs) (stops : ∀ left, during left → wider left)
    (ends : ∀ a left, after a left → later a left) : program.Keeps wider later fs := by
  induction program generalizing fs with
  | done a => exact ⟨stops _ keeps.1, ends _ _ keeps.2⟩
  | step op next ih => exact ⟨fun left torn => stops left (keeps.1 left torn), ih _ keeps.2⟩

/-- A program that takes effect by a rename, its last operation. Until then everything that counts is as
before, whatever may be seen of an operation under way; a program that ends without a rename is refused. -/
def Turns (before : FileSystem → Prop) (refused : α → Prop) (after : α → FileSystem → Prop) :
    FileProgram α → FileSystem → Prop
  | .done a, fs => before fs ∧ refused a
  | .step op next, fs =>
    if op.isRename then
      before fs ∧ ∃ a, next (fs.perform op).1 = .done a ∧ after a (fs.perform op).2
    else
      (∀ left, op.Torn fs left → before left) ∧
        (next (fs.perform op).1).Turns before refused after (fs.perform op).2

variable {before : FileSystem → Prop} {refused : α → Prop}

theorem Turns.start (turns : program.Turns before refused after fs) : before fs := by
  cases program with
  | done a => exact turns.1
  | step op next =>
    unfold Turns at turns
    split at turns
    · exact turns.1
    · exact turns.1 fs (.nothing op)

/-- Wherever a program stops that takes effect by a rename, it has taken effect or everything is as it
was. -/
theorem Turns.keeps (turns : program.Turns before refused after fs) :
    program.Keeps (fun left => before left ∨ ∃ a, after a left)
      (fun a left => (before left ∧ refused a) ∨ after a left) fs := by
  induction program generalizing fs with
  | done a => exact ⟨.inl turns.1, .inl turns⟩
  | step op next ih =>
    unfold Turns at turns
    split at turns
    case isTrue rename =>
      obtain ⟨still, a, ended, landed⟩ := turns
      constructor
      · intro left torn
        rcases torn.of_rename rename with rfl | rfl
        · exact .inl still
        · exact .inr ⟨a, landed⟩
      · rw [ended]
        exact ⟨.inr ⟨a, landed⟩, .inr landed⟩
    case isFalse =>
      exact ⟨fun left torn => .inl (turns.1 left torn), ih _ turns.2⟩

theorem Turns.weaken {wider : FileSystem → Prop} {declined : α → Prop} {later : α → FileSystem → Prop}
    (turns : program.Turns before refused after fs) (stops : ∀ left, before left → wider left)
    (refusals : ∀ a, refused a → declined a) (ends : ∀ a left, after a left → later a left) :
    program.Turns wider declined later fs := by
  induction program generalizing fs with
  | done a => exact ⟨stops _ turns.1, refusals a turns.2⟩
  | step op next ih =>
    unfold Turns at turns ⊢
    split at turns
    case isTrue rename =>
      obtain ⟨still, a, ended, landed⟩ := turns
      rw [if_pos rename]
      exact ⟨stops _ still, a, ended, ends a _ landed⟩
    case isFalse other =>
      rw [if_neg other]
      exact ⟨fun left torn => stops left (turns.1 left torn), ih _ turns.2⟩

end FileProgram

end WorkflowEngine
