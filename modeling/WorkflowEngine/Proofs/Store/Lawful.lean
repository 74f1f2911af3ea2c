import Mathlib.Logic.Function.Basic
import WorkflowEngine.Store.Fault

/-!
What the rest of the theory asks of a store. Readers see, for every id, at most one header with its
log. A commit that succeeds replaced the version it expected and appended to the log; any operation
that is refused changes nothing. Loads may be refused, but never lie; of a readable store none is.

The store in memory is lawful, and so is every lawful store behind a plan of faults. Files are not
covered here: they keep a record only as far as its text can be read back.
-/
namespace WorkflowEngine

class LawfulStore (σ : Type) [ExecutionStore σ] where
  /-- What readers see. -/
  stored : σ → ExecutionId → Option StoredExecution
  /-- Does it refuse commits only where the version does not match? -/
  Reliable : σ → Prop
  stored_id : ∀ {store id execution},
    stored store id = some execution → execution.header.id = id
  insert_ok : ∀ {store header},
    (ExecutionStore.insert store header).1 = .ok () →
      stored store header.id = none ∧
      stored (ExecutionStore.insert store header).2 =
        Function.update (stored store) header.id (some ⟨header, []⟩)
  insert_error : ∀ {store header cause},
    (ExecutionStore.insert store header).1 = .error cause →
      stored (ExecutionStore.insert store header).2 = stored store
  commit_ok : ∀ {store} {c : Commit},
    (ExecutionStore.commit store c).1 = .ok () →
      ∃ before, stored store c.header.id = some before ∧
        before.header.version = c.expected ∧
        stored (ExecutionStore.commit store c).2 =
          Function.update (stored store) c.header.id
            (some ⟨c.header, before.log ++ c.appended⟩)
  commit_error : ∀ {store} {c : Commit} {cause},
    (ExecutionStore.commit store c).1 = .error cause →
      stored (ExecutionStore.commit store c).2 = stored store
  loadHeader_ok : ∀ {store id found},
    ExecutionStore.loadHeader store id = .ok found → found = (stored store id).map (·.header)
  loadCheckpoints_ok : ∀ {store id start log},
    ExecutionStore.loadCheckpoints store id start = .ok log →
      ∃ execution, stored store id = some execution ∧
        log = execution.log.filter (start ≤ ·.sequence)
  reliable_insert : ∀ {store header},
    Reliable store → Reliable (ExecutionStore.insert store header).2
  reliable_commit : ∀ {store} {c : Commit},
    Reliable store → Reliable (ExecutionStore.commit store c).2
  commit_of_reliable : ∀ {store} {c : Commit} {before},
    Reliable store → stored store c.header.id = some before →
      (ExecutionStore.commit store c).1 = before.header.checkVersion c.expected

/-- What becomes of a store by writes, accepted or not. -/
inductive Becomes {σ : Type} [ExecutionStore σ] (store : σ) : σ → Prop
  | refl : Becomes store store
  | insert {later : σ} (h : Becomes store later) (header : ExecutionHeader) :
      Becomes store (ExecutionStore.insert later header).2
  | commit {later : σ} (h : Becomes store later) (c : Commit) :
      Becomes store (ExecutionStore.commit later c).2

/-- A store that from now on refuses no commit but for its version. It may have refused others. -/
def Mended {σ : Type} [ExecutionStore σ] [LawfulStore σ] (store : σ) : Prop :=
  ∀ later, Becomes store later → ∀ (c : Commit) (before : StoredExecution),
    LawfulStore.stored later c.header.id = some before →
      (ExecutionStore.commit later c).1 = before.header.checkVersion c.expected

section

variable {σ : Type} [ExecutionStore σ] {store first : σ}

theorem Becomes.after_insert {header : ExecutionHeader} {later : σ}
    (h : Becomes (ExecutionStore.insert store header).2 later) : Becomes store later := by
  induction h with
  | refl => exact .insert .refl header
  | insert _ header ih => exact .insert ih header
  | commit _ c ih => exact .commit ih c

theorem Becomes.after_commit {c : Commit} {later : σ}
    (h : Becomes (ExecutionStore.commit store c).2 later) : Becomes store later := by
  induction h with
  | refl => exact .commit .refl c
  | insert _ header ih => exact .insert ih header
  | commit _ c ih => exact .commit ih c

variable [LawfulStore σ]

theorem Mended.insert {header : ExecutionHeader} (h : Mended store) :
    Mended (ExecutionStore.insert store header).2 :=
  fun later hlater => h later hlater.after_insert

theorem Mended.commit {c : Commit} (h : Mended store) :
    Mended (ExecutionStore.commit store c).2 :=
  fun later hlater => h later hlater.after_commit

/-- What writes keep, and what guarantees an answer, mends a store. -/
theorem Mended.of_kept {Kind : σ → Prop}
    (hinsert : ∀ {store header}, Kind store → Kind (ExecutionStore.insert store header).2)
    (hcommit : ∀ {store c}, Kind store → Kind (ExecutionStore.commit store c).2)
    (hanswer : ∀ {store} {c : Commit} {before}, Kind store →
      LawfulStore.stored store c.header.id = some before →
        (ExecutionStore.commit store c).1 = before.header.checkVersion c.expected)
    (h : Kind store) : Mended store := by
  intro later hlater c before hbefore
  have hkind : Kind later := by
    clear hbefore
    induction hlater with
    | refl => exact h
    | insert _ _ ih => exact hinsert ih
    | commit _ _ ih => exact hcommit ih
  exact hanswer hkind hbefore

theorem mended_of_reliable (h : LawfulStore.Reliable store) : Mended store :=
  .of_kept LawfulStore.reliable_insert LawfulStore.reliable_commit
    LawfulStore.commit_of_reliable h

end

/-- A lawful store of which it can be told whether it answers all reads. -/
class ReadableStore (σ : Type) [ExecutionStore σ] [LawfulStore σ] where
  Readable : σ → Prop
  readable_insert : ∀ {store header},
    Readable store → Readable (ExecutionStore.insert store header).2
  readable_commit : ∀ {store} {c : Commit},
    Readable store → Readable (ExecutionStore.commit store c).2
  loadHeader_of_readable : ∀ {store} (id : ExecutionId),
    Readable store →
      ExecutionStore.loadHeader store id =
        .ok ((LawfulStore.stored store id).map (·.header))
  loadCheckpoints_of_readable : ∀ {store id execution} (start : Nat),
    Readable store → LawfulStore.stored store id = some execution →
      ExecutionStore.loadCheckpoints store id start =
        .ok (execution.log.filter (start ≤ ·.sequence))

/-- A store that may be slow, but refuses no read, and no commit but for its version. -/
def Steady {σ : Type} [ExecutionStore σ] [LawfulStore σ] [ReadableStore σ] (store : σ) : Prop :=
  LawfulStore.Reliable store ∧ ReadableStore.Readable store

section

variable {σ : Type} [ExecutionStore σ] [LawfulStore σ] [ReadableStore σ] {store : σ}

theorem Steady.insert {header : ExecutionHeader} (h : Steady store) :
    Steady (ExecutionStore.insert store header).2 :=
  ⟨LawfulStore.reliable_insert h.1, ReadableStore.readable_insert h.2⟩

theorem Steady.commit {c : Commit} (h : Steady store) :
    Steady (ExecutionStore.commit store c).2 :=
  ⟨LawfulStore.reliable_commit h.1, ReadableStore.readable_commit h.2⟩

end

namespace MemoryStore

private theorem find?_id {store : MemoryStore} {id : ExecutionId} {execution : StoredExecution}
    (h : store.find? id = some execution) : execution.header.id = id := by
  have hmatch := List.find?_some h
  exact eq_of_beq hmatch

private theorem find?_update (store : MemoryStore) (id other : ExecutionId)
    (execution : StoredExecution) (hid : execution.header.id = id) :
    (store.update id execution).find? other =
      if other = id then (store.find? id).map fun _ => execution else store.find? other := by
  unfold update find?
  induction store.executions with
  | nil => simp
  | cons first rest ih =>
      simp only [List.map_cons, List.find?_cons]
      by_cases hfirst : first.header.id = id
      · by_cases hother : other = id
        · simp [hfirst, hother, hid]
        · have hmiss : (id == other) = false := by simpa using Ne.symm hother
          simpa [-List.find?_map, hfirst, hid, hmiss, hother] using ih
      · have hmiss : (first.header.id == id) = false := by simpa using hfirst
        by_cases hother : other = id
        · subst other
          simpa [-List.find?_map, hmiss] using ih
        · cases hsame : first.header.id == other with
          | true => simp [hmiss, hsame, hother]
          | false => simpa [-List.find?_map, hmiss, hsame, hother] using ih

private theorem find?_insert {store : MemoryStore} {header : ExecutionHeader}
    (habsent : store.find? header.id = none) (other : ExecutionId) :
    (MemoryStore.mk (store.executions ++ [⟨header, []⟩])).find? other =
      if other = header.id then some ⟨header, []⟩ else store.find? other := by
  unfold find? at habsent ⊢
  rw [List.find?_append]
  by_cases hother : other = header.id
  · simp [hother, habsent]
  · simp [hother, Ne.symm hother]

/-- The result and the effect of a commit in memory, by what is found under its id. -/
private theorem commit_cases (store : MemoryStore) (c : Commit) :
    (∃ cause, store.commit c = (.error cause, store) ∧
      ∀ before, store.find? c.header.id = some before →
        before.header.checkVersion c.expected = .error cause) ∨
    ∃ before, store.find? c.header.id = some before ∧ before.header.version = c.expected ∧
      store.commit c =
        (.ok (), store.update c.header.id ⟨c.header, before.log ++ c.appended⟩) := by
  unfold commit
  cases hfind : store.find? c.header.id with
  | none => exact Or.inl ⟨_, rfl, by simp⟩
  | some before =>
      by_cases hversion : before.header.version = c.expected
      · exact Or.inr ⟨before, rfl, hversion,
          by simp [ExecutionHeader.checkVersion, hversion]⟩
      · refine Or.inl ⟨.conflict before.header.id c.expected before.header.version, ?_, ?_⟩
        · simp [ExecutionHeader.checkVersion, hversion]
        · intro found hfound
          cases hfound
          simp [ExecutionHeader.checkVersion, hversion]

instance : LawfulStore MemoryStore where
  stored := find?
  Reliable _ := True
  stored_id := find?_id
  insert_ok := by
    intro store header h
    simp only [ExecutionStore.insert, insert] at h ⊢
    cases hfind : store.find? header.id with
    | some _ => simp [hfind] at h
    | none =>
        refine ⟨rfl, funext fun other => ?_⟩
        rw [find?_insert hfind, Function.update_apply]
  insert_error := by
    intro store header cause h
    simp only [ExecutionStore.insert, insert] at h ⊢
    cases hfind : store.find? header.id with
    | some _ => rfl
    | none => simp [hfind] at h
  commit_ok := by
    intro store c h
    simp only [ExecutionStore.commit] at h ⊢
    obtain ⟨cause, hcommit, _⟩ | ⟨before, hfind, hversion, hcommit⟩ := commit_cases store c
    · simp [hcommit] at h
    · refine ⟨before, hfind, hversion, funext fun other => ?_⟩
      have hupdate := find?_update store c.header.id other
        ⟨c.header, before.log ++ c.appended⟩ rfl
      rw [hfind] at hupdate
      rw [hcommit, Function.update_apply]
      exact hupdate
  commit_error := by
    intro store c cause h
    simp only [ExecutionStore.commit] at h ⊢
    obtain ⟨_, hcommit, _⟩ | ⟨_, _, _, hcommit⟩ := commit_cases store c
    · rw [hcommit]
    · simp [hcommit] at h
  loadHeader_ok := by
    intro store id found h
    exact (Except.ok.inj h).symm
  loadCheckpoints_ok := by
    intro store id start log h
    simp only [ExecutionStore.loadCheckpoints, loadCheckpoints] at h
    cases hfind : store.find? id with
    | none => simp [hfind] at h
    | some execution =>
        simp only [hfind] at h
        exact ⟨execution, rfl, (Except.ok.inj h).symm⟩
  reliable_insert := fun _ => trivial
  reliable_commit := fun _ => trivial
  commit_of_reliable := by
    intro store c before _ hbefore
    simp only [ExecutionStore.commit]
    obtain ⟨cause, hcommit, hcause⟩ | ⟨found, hfind, hversion, hcommit⟩ := commit_cases store c
    · rw [hcommit, hcause before hbefore]
    · obtain rfl : found = before := Option.some.inj (hfind.symm.trans hbefore)
      rw [hcommit]
      simp [ExecutionHeader.checkVersion, hversion]

instance : ReadableStore MemoryStore where
  Readable _ := True
  readable_insert := fun _ => trivial
  readable_commit := fun _ => trivial
  loadHeader_of_readable _ _ := rfl
  loadCheckpoints_of_readable := by
    intro store id execution start _ hstored
    have hfind : store.find? id = some execution := hstored
    simp [ExecutionStore.loadCheckpoints, loadCheckpoints, hfind]

end MemoryStore

namespace FaultyStore

variable {σ : Type} [ExecutionStore σ]

/-- A commit is refused by the plan, or answered by the store behind it. -/
private theorem commit_cases (store : FaultyStore σ) (c : Commit) :
    (∃ cause counted, store.commit c = (.error cause, counted) ∧ counted.inner = store.inner ∧
      counted.plan = store.plan ∧
      ¬(store.plan.failCommits = [] ∧ store.plan.conflictCommits = [])) ∨
    ∃ counted, store.commit c = ((ExecutionStore.commit store.inner c).1, counted) ∧
      counted.inner = (ExecutionStore.commit store.inner c).2 ∧ counted.plan = store.plan := by
  unfold commit
  by_cases hfail : store.plan.failCommits.contains (store.commits + 1) = true
  · refine Or.inl ⟨.io "commit refused", { store with commits := store.commits + 1 }, ?_,
      rfl, rfl, ?_⟩
    · simp only [hfail, if_true]
    · rintro ⟨hnone, -⟩
      simp [hnone] at hfail
  · by_cases hconflict : store.plan.conflictCommits.contains (store.commits + 1) = true
    · refine Or.inl ⟨.conflict c.header.id c.expected (c.expected + conflictLead),
        { store with commits := store.commits + 1 }, ?_, rfl, rfl, ?_⟩
      · simp only [hfail, hconflict, if_true, Bool.false_eq_true, if_false]
      · rintro ⟨-, hnone⟩
        simp [hnone] at hconflict
    · refine Or.inr ⟨{ store with
        commits := store.commits + 1
        inner := (ExecutionStore.commit store.inner c).2 }, ?_, rfl, rfl⟩
      simp only [hfail, hconflict, Bool.false_eq_true, if_false]

/-- Faults show only in what is refused and how long it takes: readers see the store behind. -/
instance [LawfulStore σ] : LawfulStore (FaultyStore σ) where
  stored store := LawfulStore.stored store.inner
  Reliable store := store.plan.failCommits = [] ∧ store.plan.conflictCommits = [] ∧
    LawfulStore.Reliable store.inner
  stored_id := LawfulStore.stored_id
  insert_ok := by
    intro store header h
    simp only [ExecutionStore.insert] at h ⊢
    split at h
    · cases h
    · rename_i hplan
      simp only [hplan]
      exact LawfulStore.insert_ok h
  insert_error := by
    intro store header cause h
    simp only [ExecutionStore.insert] at h ⊢
    split at h
    · rename_i hplan
      simp [hplan]
    · rename_i hplan
      simp only [hplan]
      exact LawfulStore.insert_error h
  commit_ok := by
    intro store c h
    simp only [ExecutionStore.commit] at h ⊢
    obtain ⟨_, _, hcommit, -⟩ | ⟨counted, hcommit, hinner, -⟩ := commit_cases store c
    · simp [hcommit] at h
    · rw [hcommit] at h ⊢
      simp only [hinner]
      exact LawfulStore.commit_ok h
  commit_error := by
    intro store c cause h
    simp only [ExecutionStore.commit] at h ⊢
    obtain ⟨_, counted, hcommit, hinner, -⟩ | ⟨counted, hcommit, hinner, -⟩ :=
      commit_cases store c
    · rw [hcommit, hinner]
    · rw [hcommit] at h ⊢
      simp only [hinner]
      exact LawfulStore.commit_error h
  loadHeader_ok := by
    intro store id found h
    simp only [ExecutionStore.loadHeader] at h
    split at h
    · cases h
    · exact LawfulStore.loadHeader_ok h
  loadCheckpoints_ok := by
    intro store id start log h
    exact LawfulStore.loadCheckpoints_ok (σ := σ) h
  reliable_insert := by
    intro store header h
    simp only [ExecutionStore.insert]
    split
    · exact h
    · exact ⟨h.1, h.2.1, LawfulStore.reliable_insert h.2.2⟩
  reliable_commit := by
    intro store c h
    simp only [ExecutionStore.commit]
    obtain ⟨_, counted, hcommit, _, _, hplan⟩ | ⟨counted, hcommit, hinner, hplan⟩ :=
      commit_cases store c
    · exact absurd ⟨h.1, h.2.1⟩ hplan
    · rw [hcommit]
      simp only [hinner, hplan]
      exact ⟨h.1, h.2.1, LawfulStore.reliable_commit h.2.2⟩
  commit_of_reliable := by
    intro store c before h hbefore
    simp only [ExecutionStore.commit]
    obtain ⟨_, _, _, _, _, hplan⟩ | ⟨_, hcommit, -⟩ := commit_cases store c
    · exact absurd ⟨h.1, h.2.1⟩ hplan
    · rw [hcommit]
      exact LawfulStore.commit_of_reliable h.2.2 hbefore

instance [LawfulStore σ] [ReadableStore σ] : ReadableStore (FaultyStore σ) where
  Readable store := store.plan.failLoad = false ∧ ReadableStore.Readable store.inner
  readable_insert := by
    intro store header h
    simp only [ExecutionStore.insert]
    split
    · exact h
    · exact ⟨h.1, ReadableStore.readable_insert h.2⟩
  readable_commit := by
    intro store c h
    simp only [ExecutionStore.commit]
    obtain ⟨_, counted, hcommit, hinner, hplan, -⟩ | ⟨counted, hcommit, hinner, hplan⟩ :=
      commit_cases store c
    · rw [hcommit]
      simp only [hinner, hplan]
      exact h
    · rw [hcommit]
      simp only [hinner, hplan]
      exact ⟨h.1, ReadableStore.readable_commit h.2⟩
  loadHeader_of_readable := by
    intro store id h
    simp only [ExecutionStore.loadHeader, h.1]
    exact ReadableStore.loadHeader_of_readable id h.2
  loadCheckpoints_of_readable := by
    intro store id execution start h hstored
    exact ReadableStore.loadCheckpoints_of_readable (σ := σ) start h.2 hstored

/-- The faults of the plan lie in the past, and the store behind refuses nothing else. -/
structure Over [LawfulStore σ] (store : FaultyStore σ) : Prop where
  fail : ∀ number ∈ store.plan.failCommits, number ≤ store.commits
  conflict : ∀ number ∈ store.plan.conflictCommits, number ≤ store.commits
  inner : LawfulStore.Reliable store.inner

private theorem Over.commit_eq [LawfulStore σ] {store : FaultyStore σ} (h : store.Over)
    (c : Commit) :
    store.commit c = ((ExecutionStore.commit store.inner c).1,
      { store with
        commits := store.commits + 1
        inner := (ExecutionStore.commit store.inner c).2 }) := by
  have hnext : ∀ numbers : List Nat, (∀ number ∈ numbers, number ≤ store.commits) →
      numbers.contains (store.commits + 1) = false := by
    intro numbers hpast
    simp only [List.contains_eq_mem, decide_eq_false_iff_not]
    intro hmem
    have hless := hpast _ hmem
    omega
  have hfail := hnext _ h.fail
  have hconflict := hnext _ h.conflict
  simp only [commit, hfail, hconflict, Bool.false_eq_true, if_false]

theorem Over.mended [LawfulStore σ] {store : FaultyStore σ} (h : store.Over) : Mended store := by
  refine Mended.of_kept ?_ ?_ ?_ h
  · intro store header h
    simp only [ExecutionStore.insert]
    split
    · exact h
    · exact ⟨h.fail, h.conflict, LawfulStore.reliable_insert h.inner⟩
  · intro store c h
    simp only [ExecutionStore.commit, h.commit_eq c]
    refine ⟨?_, ?_, LawfulStore.reliable_commit h.inner⟩
    · intro number hnumber
      exact Nat.le_succ_of_le (h.fail number hnumber)
    · intro number hnumber
      exact Nat.le_succ_of_le (h.conflict number hnumber)
  · intro store c before h hbefore
    simp only [ExecutionStore.commit, h.commit_eq c]
    exact LawfulStore.commit_of_reliable h.inner hbefore

end FaultyStore

end WorkflowEngine
