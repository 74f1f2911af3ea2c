import WorkflowEngine.Proofs.Session.Conduct

/-!
The header of a record is determined by its log and by the inputs saved since its last checkpoint.
What a run changes in memory only, and what it was doing when it was interrupted, leaves no trace,
and a commit that took effect after its run was interrupted counts once.

This needs a store that may be slow but refuses no commit. After a refusal the run that made it is
recorded as failed together with what it had changed in memory.
-/
namespace WorkflowEngine

/-- The checkpoints of a log that are no errors. -/
def stepsOf (log : List Checkpoint) : Nat := log.countP fun checkpoint => !checkpoint.isError

theorem stepsOf_append (log : List Checkpoint) (checkpoint : Checkpoint) :
    stepsOf (log ++ [checkpoint]) = stepsOf log + if checkpoint.isError then 0 else 1 := by
  cases herror : checkpoint.isError <;> simp [stepsOf, herror]

/-- Every checkpoint numbers its step by the checkpoints up to it that are no errors. -/
def Stepped (log : List Checkpoint) : Prop :=
  ∀ index (h : index < log.length), log[index].stepNumber = stepsOf (log.take (index + 1))

theorem stepped_append {log : List Checkpoint} {checkpoint : Checkpoint} (h : Stepped log)
    (hstep : checkpoint.stepNumber = stepsOf (log ++ [checkpoint])) :
    Stepped (log ++ [checkpoint]) := by
  intro index hindex
  rw [List.length_append, List.length_singleton] at hindex
  by_cases hlast : index = log.length
  · subst hlast
    rw [List.getElem_concat_length rfl, List.take_of_length_le (by simp), hstep]
  · have hinside : index < log.length := by omega
    rw [List.getElem_append_left hinside, List.take_append_of_le_length (by omega)]
    exact h index hinside

/-- A record is what its chronicle tells. -/
structure Chronicle.Tells (chronicle : Chronicle) (execution : StoredExecution) : Prop where
  begun : ∃ request rest, chronicle = .created request :: rest
  log : execution.log = chronicle.checkpoints
  steps : Stepped execution.log
  currentStep : execution.header.currentStep = stepsOf execution.log
  context : execution.header.context = chronicle.context

namespace Chronicle.Tells

variable {request : Request} {scope : Scope} {run : Run} {chronicle : Chronicle}
  {execution : StoredExecution} {demand : Run.Demand}

private theorem append (h : chronicle.Tells execution) (deeds : Chronicle) :
    ∃ request rest, chronicle ++ deeds = .created request :: rest := by
  obtain ⟨request, rest, rfl⟩ := h.begun
  exact ⟨request, rest ++ deeds, rfl⟩

private theorem ne_nil (h : chronicle.Tells execution) : chronicle ≠ [] := by
  obtain ⟨request, rest, rfl⟩ := h.begun
  simp

private theorem saved (h : chronicle.Tells execution) {commit : Commit} (input : Option Context)
    (happended : commit.appended = [])
    (hstep : commit.header.currentStep = execution.header.currentStep)
    (hcontext : commit.header.context =
      input.elim execution.header.context (Fields.merge execution.header.context)) :
    Tells (chronicle ++ [.saved scope input]) (execution.extend commit) := by
  have hlog : (execution.extend commit).log = execution.log := by
    simp [StoredExecution.extend, happended]
  refine ⟨h.append _, ?_, ?_, ?_, ?_⟩
  · rw [hlog, checkpoints_saved]
    exact h.log
  · rw [hlog]
    exact h.steps
  · rw [hlog]
    exact hstep.trans h.currentStep
  · rw [context_saved _ _ _ h.ne_nil, ← h.context]
    exact hcontext

/-- A checkpoint of the context and the step that become durable with it. -/
private theorem appended (h : chronicle.Tells execution) {commit : Commit} {checkpoint : Checkpoint}
    (happended : commit.appended = [checkpoint])
    (hcontext : checkpoint.context = commit.header.context)
    (hstep : checkpoint.stepNumber = commit.header.currentStep)
    (hcount : commit.header.currentStep =
      execution.header.currentStep + if checkpoint.isError then 0 else 1) :
    Tells (chronicle ++ [.appended checkpoint commit.header.status]) (execution.extend commit) := by
  have hlog : (execution.extend commit).log = execution.log ++ [checkpoint] := by
    simp [StoredExecution.extend, happended]
  have hsteps : commit.header.currentStep = stepsOf (execution.log ++ [checkpoint]) := by
    rw [stepsOf_append, ← h.currentStep]
    exact hcount
  refine ⟨h.append _, ?_, ?_, ?_, ?_⟩
  · rw [hlog, checkpoints_appended, h.log]
  · rw [hlog]
    exact stepped_append h.steps (hstep.trans hsteps)
  · rw [hlog]
    exact hsteps
  · rw [context_appended]
    exact hcontext.symm

/-- A commit without a checkpoint that changes neither context nor step. -/
private theorem closed (h : chronicle.Tells execution) {commit : Commit}
    (happended : commit.appended = [])
    (hstep : commit.header.currentStep = execution.header.currentStep)
    (hcontext : commit.header.context = execution.header.context) :
    chronicle.Tells (execution.extend commit) := by
  have hlog : (execution.extend commit).log = execution.log := by
    simp [StoredExecution.extend, happended]
  refine ⟨h.begun, hlog.trans h.log, ?_, ?_, hcontext.trans h.context⟩
  · rw [hlog]
    exact h.steps
  · rw [hlog]
    exact hstep.trans h.currentStep

/-- What a run makes durable tells the next part of the chronicle. -/
theorem extend (h : chronicle.Tells execution) {commit : Commit}
    (hmakes : run.Makes request scope execution demand commit) :
    Tells (chronicle ++ commit.deeds scope request.input? (.ok ())) (execution.extend commit) := by
  cases hmakes with
  | opening hstage happended hstatus hstep hcontext =>
      rw [Commit.deeds_opening hstatus happended]
      exact h.saved _ happended hstep hcontext
  | closing hstage hqueue happended hstatus hstep hcontext =>
      have hclosing : commit.header.status ≠ .running := by simp [hstatus]
      rw [Commit.deeds_closing hclosing happended, List.append_nil]
      exact h.closed happended hstep hcontext
  | failing hfails happended hstatus hstep hcontext hid hpending herror hlive hcounted =>
      rw [Commit.deeds_appended happended]
      apply h.appended happended hlive hcounted
      simp [hstep, herror]
  | answering hstage hanswer hpurpose happended hstatus hstep hcontext hid hpending herror hlive
      hcounted =>
      rw [Commit.deeds_appended happended]
      apply h.appended happended hlive hcounted
      simp [hstep, Checkpoint.isError, herror]

end Chronicle.Tells

theorem ledger_conduct :
    Conduct (fun chronicle execution => Deed.refused ∉ chronicle → chronicle.Tells execution)
      (fun _ _ _ _ _ => True) fun _ _ _ _ _ => True where
  create := by
    rintro request header ⟨_, _, _, rfl⟩ -
    refine ⟨⟨request, [], rfl⟩, rfl, ?_, rfl, rfl⟩
    intro index hindex
    exact absurd hindex (Nat.not_lt_zero index)
  start _ _ := trivial
  resume _ _ _ _ := trivial
  attend _ _ := trivial
  skip _ _ _ _ := trivial
  call _ _ _ _ _ _ _ _ _ _ _ _ := trivial
  unfold _ _ _ _ _ := trivial
  commit := by
    rintro request scope run chronicle execution demand time - hrest - hready - hdemand commit
      hcommit later rfl
    refine ⟨?_, fun _ => trivial, fun _ _ => trivial⟩
    intro hclear
    have htells := hrest fun hrefused => hclear (List.mem_append_left _ hrefused)
    exact htells.extend (hdemand.makes hready time hcommit)
  fail := by
    intro chronicle execution header hrest _ _ _ _ hcurrent hclear
    obtain ⟨hcontext, hstep⟩ := hcurrent.resolve_left hclear
    have htells := hrest hclear
    exact ⟨htells.begun, htells.log, htells.steps, hstep.trans htells.currentStep,
      hcontext.trans htells.context⟩
  refuse := by
    intro chronicle execution _ hclear
    exact absurd (List.mem_append_right _ List.mem_cons_self) hclear

namespace Session

variable {σ : Type} [ExecutionStore σ] [LawfulStore σ]

/-- At any time, of any execution in a store that is only slow: the log is what took effect, in
order; its entries and the steps are counted right; and the context is that of the last checkpoint,
with the inputs of the calls whose first save came after it on top. -/
theorem Reachable.header_of_log {session : Session σ}
    (h : Reachable LawfulStore.Reliable session) {id : ExecutionId} {execution : StoredExecution}
    (hstored : session.stored id = some execution) :
    execution.log = (session.chronicles id).checkpoints ∧
    execution.header.checkpointCount = execution.log.length ∧
    (∀ index (hindex : index < execution.log.length),
      execution.log[index].sequence = index ∧
      execution.log[index].stepNumber = stepsOf (execution.log.take (index + 1))) ∧
    execution.header.currentStep = stepsOf execution.log ∧
    ∃ request rest, session.chronicles id = .created request :: rest ∧
      execution.header.context = (session.chronicles id).inputs.foldl Fields.merge
        (Chronicle.lastContext request.context execution.log) := by
  have horderly := h.orderly ledger_conduct.reliable
  obtain ⟨hnumbered, htells⟩ : execution.Numbered ∧ (session.chronicles id).Tells execution := by
    obtain ⟨hnumbered, hrest, hclear⟩ | ⟨_, -, _, _, -, hnumbered, hrest, -, hclear⟩ :=
      horderly.kept hstored
    · exact ⟨hnumbered, hrest hclear⟩
    · exact ⟨hnumbered, hrest hclear⟩
  refine ⟨htells.log, hnumbered.count, ?_, htells.currentStep, ?_⟩
  · intro index hindex
    refine ⟨?_, htells.steps index hindex⟩
    have hsequence : (execution.log.map (·.sequence))[index]? = some index := by
      rw [hnumbered.sequences]
      exact List.getElem?_range hindex
    simpa [hindex] using hsequence
  · obtain ⟨request, rest, hbegun⟩ := htells.begun
    refine ⟨request, rest, hbegun, ?_⟩
    have hcontext := htells.context
    rw [Chronicle.context, ← htells.log] at hcontext
    rw [hcontext, hbegun]
    rfl

/-- The deadline passes while the first checkpoint is on its way; the run is resumed with an input,
and its first save has taken effect. -/
theorem Reachable.header_of_log_of_timeout :
    let note : Context := [("note", .bool true)]
    let late := ((Sample.session { slowWrite := [(2, 40000)] }).ask
      (Sample.start Sample.gated)).play 60
    let resumed := (late.ask (.resume
      { id := Sample.firstId, workflow := some Sample.gated, input := some note })).play 6
    ∃ execution, resumed.stored Sample.firstId = some execution ∧
      execution.log.map (·.nodeId) = ["first"] ∧
      (resumed.chronicles Sample.firstId).inputs.map Fields.keys = [["note"]] ∧
      execution.log = (resumed.chronicles Sample.firstId).checkpoints ∧
      execution.header.checkpointCount = execution.log.length ∧
      execution.header.currentStep = stepsOf execution.log := by
  intro note late resumed
  have hfresh : Reachable LawfulStore.Reliable (Sample.session { slowWrite := [(2, 40000)] }) :=
    Sample.reachable_session ⟨rfl, rfl, trivial⟩
  have hlate : Reachable LawfulStore.Reliable late :=
    (hfresh.ask (Sample.start Sample.gated)).play 60
  have hresumed : Reachable LawfulStore.Reliable resumed := (hlate.ask _).play 6
  have hstored : (resumed.stored Sample.firstId).map (·.log.map (·.nodeId)) = some ["first"] := by
    decide
  obtain ⟨execution, hexecution, hlog⟩ := Option.map_eq_some_iff.mp hstored
  have hinputs : (resumed.chronicles Sample.firstId).inputs.map Fields.keys = [["note"]] := by
    decide
  obtain ⟨hdeeds, hcount, -, hstep, -⟩ := Reachable.header_of_log hresumed hexecution
  exact ⟨execution, hexecution, hlog, hinputs, hdeeds, hcount, hstep⟩

end Session

end WorkflowEngine
