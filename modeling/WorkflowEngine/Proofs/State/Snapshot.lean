import WorkflowEngine.Proofs.Session.ReadBack
import WorkflowEngine.Proofs.State.Filing

/-!
Readers see committed records. However many commits land between the two reads of a load or of a
reconciliation, what comes of them is the header and the log that were committed together at one moment
in between; this goes for memory, where each read is one step, and for files, where reads and writes
are told apart operation by operation.
-/
namespace WorkflowEngine

namespace Sharing

variable {ι σ : Type} [DecidableEq ι] [ExecutionStore σ] [LawfulStore σ] {first last : Sharing ι σ}

/-- A record may go on, and keeps its log. -/
theorem Sound.grown (h : first.Sound) (hgoes : first.Goes last) {id : ExecutionId}
    {execution : StoredExecution} (hstored : first.stored id = some execution) :
    last.Sound ∧ ∃ now, last.stored id = some now ∧ execution.log <+: now.log := by
  induction hgoes with
  | refl => exact ⟨h, execution, hstored, List.prefix_rfl⟩
  | tail _ hstep ih =>
      obtain ⟨hsound, now, hnow, hlog⟩ := ih
      obtain ⟨hlater, hgrows⟩ := hsound.step hstep
      obtain ⟨after, hafter, rfl | hnext⟩ := hgrows.onward hnow
      · exact ⟨hlater, _, hafter, hlog⟩
      · exact ⟨hlater, after, hafter, hlog.trans hnext.prefix⟩

omit [DecidableEq ι] in
/-- Whoever has a handle has the first checkpoints of the log. -/
theorem Sound.fits (h : first.Sound) {name : ι} {handle : Handle} {activity : Activity}
    (huser : first.users name = .holding handle activity) :
    ∃ execution, first.stored handle.state.id = some execution ∧
      (Reading.reconcile handle.state).Fits execution.log := by
  have hstands := h.users name
  rw [huser] at hstands
  obtain ⟨execution, hstored, hstands⟩ := hstands
  exact ⟨execution, hstored, hstands.tracks.count, hstands.tracks.log⟩

end Sharing

namespace Reading

variable {σ : Type} [ExecutionStore σ] {reading : Reading} {copy : ExecutionState}

/-- A reading that gives a working copy has read a header and a log. -/
theorem across_ok {first later : σ} (h : reading.across first later = .ok (.ok (some copy))) :
    ∃ header log, ExecutionStore.loadHeader first reading.id = .ok (some header) ∧
      ExecutionStore.loadCheckpoints later reading.id reading.start = .ok log ∧
      copy = reading.take header log := by
  unfold across follow at h
  cases hheader : ExecutionStore.loadHeader first reading.id with
  | error cause => simp [hheader, bind, Except.bind] at h
  | ok found =>
      cases found with
      | none =>
          cases reading <;> simp [hheader, bind, Except.bind, pure, Except.pure, absent] at h
      | some header =>
          cases hlog : ExecutionStore.loadCheckpoints later reading.id reading.start with
          | error cause =>
              cases hwants : reading.wants header <;>
                simp [hheader, hlog, hwants, bind, Except.bind, pure, Except.pure] at h
          | ok log =>
              cases hwants : reading.wants header with
              | false => simp [hheader, hwants, bind, Except.bind, pure, Except.pure] at h
              | true =>
                  simp only [hheader, hlog, hwants, bind, Except.bind, pure, Except.pure, if_true,
                    Except.ok.injEq, Option.some.injEq] at h
                  exact ⟨header, log, rfl, rfl, h.symm⟩

/-- Between two reads of a lawful store others go on, and the copy is the record that was stored at the
first. -/
theorem across_eq {ι : Type} [DecidableEq ι] [LawfulStore σ] {first last : Sharing ι σ}
    (hsound : first.Sound) (hgoes : first.Goes last)
    (hread : reading.across first.host.store last.host.store = .ok (.ok (some copy))) :
    ∃ execution, first.stored reading.id = some execution ∧
      (reading.Fits execution.log → copy = execution.state) := by
  obtain ⟨header, log, hheader, hlog, rfl⟩ := across_ok hread
  obtain ⟨execution, hstored, rfl⟩ := Option.map_eq_some_iff.mp (LawfulStore.loadHeader_ok hheader).symm
  obtain ⟨hlast, now, hnow, hgrown⟩ := hsound.grown hgoes hstored
  obtain ⟨found, hfound, rfl⟩ := LawfulStore.loadCheckpoints_ok hlog
  obtain rfl : now = found := Option.some.inj (hnow.symm.trans hfound)
  exact ⟨execution, hstored,
    take_eq (hsound.numbered _ _ hstored) (hlast.numbered _ _ hnow) hgrown⟩

end Reading

namespace Filing

open FileStore

variable {ι : Type} {root : Path} {filing : Filing ι}

/-- Every working copy has the first checkpoints of the log. -/
theorem Sound.apt (h : filing.Sound root) {copy : ExecutionState} (hmem : copy ∈ filing.copies) :
    (Reading.reconcile copy).Apt filing.records := by
  obtain ⟨execution, hstored, htracks⟩ := h.copies copy hmem
  exact ⟨execution, hstored, htracks.count, htracks.log⟩

theorem sound_opened {files : FileSystem} {records : ExecutionId → Option StoredExecution}
    (hholding : Holding root records files) (horders : Orders records) :
    Sound root ({ files, records } : Filing ι) where
  orders := horders
  files := hholding
  writer _ hnone := nomatch hnone
  copies _ hnone := nomatch hnone
  readers _ _ hnone := nomatch hnone

/-- A load may be overtaken by a call: it has read the header before, and reads the log after it. -/
theorem Sound.load_overtaken [DecidableEq ι] (h : filing.Sound root) {name : ι} {call : StoreCall}
    {copy : ExecutionState} {execution after : StoredExecution}
    (hreader : filing.readers name = none) (hfree : filing.writer = none)
    (hstored : filing.records call.id = some execution) (hshallow : execution.header.context.Shallow)
    (hasked : call.Asked filing.copies copy) (hverdict : call.verdict (some execution) = .ok after)
    (hlegible : after.Of Binary64.Legible) (hafter : after.Shallow) (hsome : after.log ≠ []) :
    ∃ first last loaded, Goes root filing first ∧
      first.readers name = some (.begin root (.load call.id)) ∧ Goes root first last ∧
      last.readers name = some ⟨.load call.id, .done (.ok (.ok (some loaded)))⟩ ∧
      last.records call.id = some after := by
  have hbegin := @Step.read ι _ root filing name (.load call.id) hreader trivial
  have hbegan : (filing.place name (.begin root (.load call.id))).readers name =
      some (.begin root (.load call.id)) := Function.update_self ..
  have hbegun := h.goes (.single hbegin)
  have htell := hbegun.look_header hbegan hstored hshallow rfl
  have htold := hbegun.goes (.single htell)
  have hverdict' : call.verdict (filing.records call.id) = .ok after := hstored ▸ hverdict
  have hcall := htold.goes_call hfree hasked hverdict' hlegible
  have hlanded := htold.goes hcall
  have hstands : Function.update filing.records call.id (some after) call.id = some after :=
    Function.update_self ..
  have hmeasure := @Sound.look_length ι root _ _ name (.load call.id) after hlanded _
    (Function.update_self ..) hstands hafter.header hsome
  have hmeasured := hlanded.goes (.single hmeasure)
  have hread := @Sound.look_log ι root _ _ name (.load call.id) after hmeasured _
    (Function.update_self ..) hstands hafter hsome
  exact ⟨_, _, _, .single hbegin, hbegan, .head htell (.tail (.tail hcall hmeasure) hread),
    Function.update_self .., hstands⟩

end Filing

/-- What a reading gives is a record as it was committed. In memory it is the one that was stored when the
header was read, and in files one that was in place at some moment between the begin of the reading and its
end, but for the signs of zeros. A reconciled copy has to have the first checkpoints of the log; every
handle and every working copy has. -/
theorem Reading.snapshot_committed {ι : Type} [DecidableEq ι] (reading : Reading)
    (copy : ExecutionState) :
    (∀ first last : Sharing ι MemoryStore, first.Reachable → first.Goes last →
      (∀ name handle activity, first.users name = .holding handle activity →
        ∃ execution, first.host.store.find? handle.state.id = some execution ∧
          (Reading.reconcile handle.state).Fits execution.log) ∧
      (reading.across first.host.store last.host.store = .ok (.ok (some copy)) →
        ∃ execution, first.host.store.find? reading.id = some execution ∧
          (reading.Fits execution.log → copy.snapshot = ⟨execution.header, execution.log⟩))) ∧
    ∀ (root : Path) (files : FileSystem) (records : ExecutionId → Option StoredExecution)
      (first last : Filing ι) (name : ι), FileStore.Holding root records files → Orders records →
      Filing.Goes root { files, records } first → Filing.Goes root first last →
      (∀ held ∈ first.copies, (Reading.reconcile held).Apt first.records) ∧
      (first.readers name = some (.begin root reading) →
        last.readers name = some ⟨reading, .done (.ok (.ok (some copy)))⟩ →
        ∃ execution, Filing.Passes root first last reading.id execution ∧
          copy.snapshot.unsigned =
            (ExecutionRecord.mk execution.header execution.log).unsigned) := by
  constructor
  · intro first last hreachable hgoes
    have hsound := hreachable.sound
    refine ⟨fun name handle activity huser => hsound.fits huser, fun hread => ?_⟩
    obtain ⟨execution, hstored, hcopy⟩ := across_eq hsound hgoes hread
    refine ⟨execution, hstored, fun hfits => ?_⟩
    rw [hcopy hfits]
    rfl
  · intro root files records first last name hholding horders hstart hgoes
    have hsound := (Filing.sound_opened hholding horders).goes hstart
    refine ⟨fun held hmem => hsound.apt hmem, fun hbegun hover => ?_⟩
    obtain ⟨rest, hreader, hstage⟩ := hsound.reads hbegun hgoes
    obtain rfl : FileProgram.done (.ok (.ok (some copy))) = rest := by
      have hsame := hover.symm.trans hreader
      simpa using hsame
    obtain ⟨execution, now, hrecalls, hcopy⟩ := hstage.result
    refine ⟨execution, hrecalls.seen, ?_⟩
    rw [← copy.unsigned_snapshot, hcopy]
    rfl

namespace Sample

/-- A user has created an execution. -/
def opening : Sharing Bool MemoryStore :=
  let first : Sharing Bool MemoryStore := ⟨{ store := {}, bus := default }, fun _ => .absent⟩
  first.makeAll [(false, .create ⟨gated, "user", []⟩ 3)]

/-- A checkpoint has taken effect since. -/
def overtaken : Sharing Bool MemoryStore :=
  opening.makeAll [(false, .operate (.checkpoint "first" "first" ["gate"])), (false, .advance),
    (false, .land)]

theorem reachable_opening : opening.Reachable :=
  .makeAll _ (.initial fun _ _ h => absurd h (by simp [LawfulStore.stored, MemoryStore.find?]))

end Sample

namespace Filing.Sample

open FileStore.Sample (moment opened)

def header : ExecutionHeader :=
  ExecutionState.newHeader .nil "w" "u" [("greeting", .string "hello")] 2 moment

def created : ExecutionState := .ofRecord ⟨header, []⟩

def host : Host FileStore := { store := opened, bus := default }

def checkpoint : Checkpoint := (Handle.takeCheckpoint { state := created } "a" "a" [] none host).1

def commit : Commit := created.commit (some checkpoint) moment

/-- The records before and after the commit, in which there are no numbers. -/
def before : StoredExecution := ⟨header, []⟩

def after : StoredExecution := ⟨commit.header, [checkpoint]⟩

theorem numberless : ∀ e ∈ [before, after], e.Of (fun _ => False) ∧ e.Shallow := by decide +kernel

theorem legible : ∀ e ∈ [before, after], e.Of Binary64.Legible := by
  intro e hmem
  exact (numberless e hmem).1.mono fun _ hnone => hnone.elim

theorem asked : StoreCall.Asked [created] (.commit commit) (created.committed commit) :=
  .commit (List.mem_singleton.mpr rfl) (.checkpoint "a" "a" []) host rfl moment rfl

theorem accepted : (StoreCall.commit commit).verdict (some before) = .ok after := rfl

theorem orders_none : Orders fun _ => none := by
  constructor <;> nofun

/-- An execution has been created in an empty store. -/
theorem exists_created : ∃ filing : Filing Bool,
    Goes ["data"] { files := opened.files, records := fun _ => none } filing ∧
      filing.Sound ["data"] ∧ filing.writer = none ∧ filing.readers true = none ∧
      filing.copies = [created] ∧ filing.records .nil = some before := by
  obtain ⟨-, hempty⟩ := FileStore.holding_of_open FileStore.Sample.fresh FileStore.Sample.openAt_data
  have hsound := @sound_opened Bool _ _ _ hempty orders_none
  have hasked : StoreCall.Asked [] (.insert header) created := .create _ _ _ _ _ _ rfl
  have hcall := hsound.goes_call rfl hasked rfl (legible before (by simp))
  have hstored := Function.update_self (StoreCall.insert header).id (some before) fun _ => none
  exact ⟨_, hcall, hsound.goes hcall, rfl, rfl, rfl, hstored⟩

end Filing.Sample

/-- In memory and in files, a checkpoint takes effect after a load has read the header and before it reads
the log. -/
theorem Reading.snapshot_committed_of_overlap :
    (∃ copy execution, (Reading.load Sample.firstId).across Sample.opening.host.store
        Sample.overtaken.host.store = .ok (.ok (some copy)) ∧
      Sample.opening.host.store.find? Sample.firstId = some execution ∧
      copy.snapshot = ⟨execution.header, execution.log⟩) ∧
    ∃ (first last : Filing Bool) (copy : ExecutionState) (execution : StoredExecution),
      first.readers true = some (.begin ["data"] (.load .nil)) ∧
      last.readers true = some ⟨.load .nil, .done (.ok (.ok (some copy)))⟩ ∧
      last.records .nil = some Filing.Sample.after ∧
      Filing.Passes ["data"] first last .nil execution ∧
      copy.snapshot.unsigned = (ExecutionRecord.mk execution.header execution.log).unsigned := by
  constructor
  · have hreads : (((Reading.load Sample.firstId).across Sample.opening.host.store
        Sample.overtaken.host.store).toOption.bind (·.toOption)).join.isSome = true := by
      decide
    cases hread : (Reading.load Sample.firstId).across Sample.opening.host.store
        Sample.overtaken.host.store <;> rw [hread] at hreads
    case error => cases hreads
    case ok found =>
      rcases found with cause | _ | copy
      · cases hreads
      · cases hreads
      obtain ⟨hmemory, -⟩ := @Reading.snapshot_committed Bool _ (.load Sample.firstId) copy
      obtain ⟨-, hcommitted⟩ := hmemory _ _ Sample.reachable_opening (Sample.opening.goes_makeAll _)
      obtain ⟨execution, hstored, hcopy⟩ := hcommitted hread
      exact ⟨copy, execution, rfl, hstored, hcopy trivial⟩
  · obtain ⟨filing, hgoes, hsound, hfree, hreader, hcopies, hstored⟩ := Filing.Sample.exists_created
    have hlegible := Filing.Sample.legible Filing.Sample.after (by simp)
    have hshallow := (Filing.Sample.numberless Filing.Sample.after (by simp)).2
    have hbefore := (Filing.Sample.numberless Filing.Sample.before (by simp)).2.header
    have hasked := Filing.Sample.asked
    rw [← hcopies] at hasked
    have hstored : filing.records (StoreCall.commit Filing.Sample.commit).id =
        some Filing.Sample.before := hstored
    obtain ⟨first, last, copy, hfirst, hbegun, hlast, hover, hafter⟩ :=
      hsound.load_overtaken hreader hfree hstored hbefore hasked Filing.Sample.accepted hlegible hshallow
        (List.cons_ne_nil _ _)
    obtain ⟨-, hempty⟩ := FileStore.holding_of_open FileStore.Sample.fresh FileStore.Sample.openAt_data
    obtain ⟨-, hfiles⟩ := @Reading.snapshot_committed Bool _ (.load .nil) copy
    obtain ⟨-, hcommitted⟩ := hfiles _ _ _ first last true hempty Filing.Sample.orders_none
      (hgoes.trans hfirst) hlast
    obtain ⟨execution, hpasses, hcopy⟩ := hcommitted hbegun hover
    exact ⟨first, last, copy, execution, hbegun, hover, hafter, hpasses, hcopy⟩

namespace Filing.Sample

open FileStore.Sample

/-- An execution with a number that is not written as it was read. -/
def tiny : ExecutionHeader := host.newHeader "w" "u" tinyContext 2

theorem misread_tiny : misread tiny tinyContext = true := by decide +kernel

end Filing.Sample

/-- A handle creates an execution in files with such a number, and the only record that was ever committed
is not what is loaded: the number is a neighbour. -/
theorem Reading.snapshot_rounded :
    ∃ (store : FileStore) (copy : ExecutionState),
      Handle.create "w" "u" FileStore.Sample.tinyContext 2 Filing.Sample.host =
        (.ok { state := .ofRecord ⟨Filing.Sample.tiny, []⟩ },
          Filing.Sample.host.stamp.2.drawId.2.over store) ∧
      (Reading.load Filing.Sample.tiny.id).across store store = .ok (.ok (some copy)) ∧
      (Value.object copy.snapshot.header.context).equal
        (.object FileStore.Sample.tinyContext) = false := by
  obtain ⟨-, hempty⟩ := FileStore.holding_of_open FileStore.Sample.fresh FileStore.Sample.openAt_data
  obtain ⟨left, hinserted, hholds⟩ := @FileStore.Holding.insert_new _ _ _ hempty Filing.Sample.tiny rfl
  obtain ⟨back, hdecoded, hother⟩ := FileStore.Sample.decode_of_misread Filing.Sample.misread_tiny
  have hload := FileStore.load_of_holds hholds hdecoded
  refine ⟨⟨["data"], left⟩, .ofRecord (ExecutionStore.assemble back []), ?_, ?_, hother⟩
  · have hanswer : ExecutionStore.insert Filing.Sample.host.store Filing.Sample.tiny =
        (.ok (), ⟨["data"], left⟩) := hinserted
    rw [Handle.create_eq]
    change (Handle.created Filing.Sample.tiny (ExecutionStore.insert Filing.Sample.host.store
        Filing.Sample.tiny).1, Filing.Sample.host.stamp.2.drawId.2.over (ExecutionStore.insert
          Filing.Sample.host.store Filing.Sample.tiny).2) = _
    rw [hanswer]
    rfl
  · rw [Reading.across_load, hload]
    rfl

end WorkflowEngine
