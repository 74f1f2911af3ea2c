import WorkflowEngine.Proofs.Node.Frame
import WorkflowEngine.Proofs.Session.Course

/-!
# Histories of standard nodes

Where a definition has no other nodes than triggers and standard ones, nothing that was put into the
context is lost: neither a key of the initial context, nor a key of an input whose save took effect.
From one checkpoint to the next the context changes only at keys of the node visited.

The store may be slow but refuses nothing. Definitions may change from call to call.
-/
namespace WorkflowEngine

namespace Scope

/-- The nodes of a definition are triggers, or what is registered for them is a standard node. -/
def IsStandard (scope : Scope) : Prop :=
  ∀ node ∈ scope.workflow.nodes, scope.isTrigger node = true ∨
    ∀ executor, scope.registry.get? node.nodeType = some executor →
      executor.nodeType = node.nodeType ∧ ∃ client, executor ∈ Standard.executors client

theorem isStandard_of_registry {scope : Scope} {client : HttpClient}
    (h : scope.registry = Standard.registry client) : scope.IsStandard := by
  intro node _
  refine Or.inr fun executor hexecutor => ?_
  rw [h] at hexecutor
  obtain ⟨hknown, htype⟩ := Standard.mem_of_get? hexecutor
  exact ⟨htype, client, hknown⟩

/-- The keys at which a checkpoint may differ from what was there before: none, if its node failed. -/
def Owns (scope : Scope) (checkpoint : Checkpoint) (key : String) : Prop :=
  checkpoint.isError = false ∧ ∃ node, scope.workflow.node? checkpoint.nodeId = some node ∧
    key ∈ Standard.owned node.nodeType node.config

variable {scope : Scope} {context : Context} {visited queue : List NodeId}
  {checkpoint : Checkpoint} {outcome : Option NodeOutcome}

/-- What a visit of a standard node makes of the context. -/
theorem Visits.grows (h : scope.Visits context visited queue checkpoint outcome)
    (hstandard : scope.IsStandard) :
    (∀ key, context.contains key = true → checkpoint.context.contains key = true) ∧
      ∀ key, ¬scope.Owns checkpoint key → checkpoint.context.get? key = context.get? key := by
  cases h with
  | @success node pending executor ctx outcome _ hfront hnode hexecutor _ hconfig hcontext hanswer
      hcheckpoint =>
      obtain ⟨hid, hafter, -, herror⟩ := hcheckpoint
      have htrigger := isTriggerId_of_front hfront
      rw [isTriggerId_of_node hnode] at htrigger
      obtain ⟨htype, client, hknown⟩ :=
        (hstandard node (Workflow.mem_nodes_of_node? hnode)).resolve_left (by simp [htrigger])
          executor hexecutor
      have hgrows := Standard.grows hknown hanswer
      rw [htype, hconfig, hcontext, ← hafter] at hgrows
      refine ⟨hgrows.present, fun key hkey => hgrows.apart key fun howned => hkey ?_⟩
      exact ⟨by simp [Checkpoint.isError, herror], node, hid ▸ hnode, howned⟩
  | failure _ hcheckpoint =>
      rw [hcheckpoint.1]
      exact ⟨fun _ hkey => hkey, fun _ _ => rfl⟩

end Scope

namespace Course

variable {chronicle begun : Chronicle}

/-- What a chronicle begins with is a course too. -/
theorem upTo (h : Course chronicle) (hbegins : begun <+: chronicle) (hbegun : begun ≠ []) :
    Course begun := by
  induction h with
  | created request =>
      obtain rfl : begun = [.created request] :=
        hbegins.eq_of_length_le (Nat.succ_le_of_lt (List.length_pos_iff.mpr hbegun))
      exact .created request
  | saved input h haccepted hdeadline ih =>
      rcases List.prefix_concat_iff.mp hbegins with rfl | hbefore
      · exact .saved input h haccepted hdeadline
      · exact ih hbefore
  | appended h hscope hvisits ih =>
      rcases List.prefix_concat_iff.mp hbegins with rfl | hbefore
      · exact .appended h hscope hvisits
      · exact ih hbefore

theorem ne_nil (h : Course chronicle) : chronicle ≠ [] := by
  cases h <;> simp

/-- A checkpoint is the visit of what its scope has next. -/
theorem visits_last {checkpoint : Checkpoint} {status : ExecutionStatus}
    (h : Course (begun ++ [.appended checkpoint status])) :
    ∃ scope outcome, begun.scope? = some scope ∧
      scope.Visits begun.context (begun.checkpoints.map (·.nodeId))
        (scope.continuation begun.checkpoints) checkpoint outcome := by
  generalize hchronicle : begun ++ [Deed.appended checkpoint status] = chronicle at h
  cases h with
  | created request =>
      have hlast := congrArg List.getLast? hchronicle
      simp at hlast
  | saved => simp at hchronicle
  | appended h hscope hvisits =>
      obtain ⟨rfl, hlast⟩ := List.append_inj' hchronicle rfl
      cases hlast
      exact ⟨_, _, hscope, hvisits⟩

/-- No key is lost. -/
theorem contains_of_begun (h : Course chronicle)
    (hstandard : ∀ scope input, Deed.saved scope input ∈ chronicle → scope.IsStandard)
    (hbegins : begun <+: chronicle) (hbegun : begun ≠ []) {key : String}
    (hkey : begun.context.contains key = true) : chronicle.context.contains key = true := by
  induction h with
  | created request =>
      obtain rfl : begun = [.created request] :=
        hbegins.eq_of_length_le (Nat.succ_le_of_lt (List.length_pos_iff.mpr hbegun))
      exact hkey
  | @saved chronicle scope input h haccepted hdeadline ih =>
      rcases List.prefix_concat_iff.mp hbegins with rfl | hbefore
      · exact hkey
      · have hold := ih (fun scope input hsaved => hstandard scope input
          (List.mem_append_left _ hsaved)) hbefore
        rw [Chronicle.context_saved _ _ _ h.ne_nil]
        cases input with
        | none => exact hold
        | some input => exact (Fields.Grows.merge chronicle.context input).present key hold
  | @appended chronicle scope checkpoint outcome h hscope hvisits ih =>
      rcases List.prefix_concat_iff.mp hbegins with rfl | hbefore
      · exact hkey
      · have hold := ih (fun scope input hsaved => hstandard scope input
          (List.mem_append_left _ hsaved)) hbefore
        obtain ⟨input, hsaved⟩ := Chronicle.mem_of_scope? hscope
        rw [Chronicle.context_appended]
        exact (hvisits.grows (hstandard scope input (List.mem_append_left _ hsaved))).1 key hold

/-- What is there at some time is in every later checkpoint. -/
theorem contains_of_later (h : Course chronicle)
    (hstandard : ∀ scope input, Deed.saved scope input ∈ chronicle → scope.IsStandard)
    {after : Chronicle} (hchronicle : chronicle = begun ++ after) (hbegun : begun ≠ [])
    {key : String} (hkey : begun.context.contains key = true) {checkpoint : Checkpoint}
    {status : ExecutionStatus} (hlater : Deed.appended checkpoint status ∈ after) :
    checkpoint.context.contains key = true := by
  obtain ⟨between, rest, rfl⟩ := List.append_of_mem hlater
  have hbegins : begun ++ between ++ [.appended checkpoint status] <+: chronicle :=
    ⟨rest, by simp [hchronicle]⟩
  have hcourse := h.upTo hbegins (by simp)
  have hkept := hcourse.contains_of_begun
    (fun scope input hsaved => hstandard scope input (hbegins.subset hsaved))
    ((List.prefix_append begun between).trans (List.prefix_append _ _)) hbegun hkey
  rwa [Chronicle.context_appended] at hkept

end Course

namespace Chronicle

theorem mem_checkpoints {chronicle : Chronicle} {checkpoint : Checkpoint} :
    checkpoint ∈ chronicle.checkpoints ↔
      ∃ status, Deed.appended checkpoint status ∈ chronicle := by
  unfold checkpoints
  rw [List.mem_filterMap]
  constructor
  · rintro ⟨deed, hdeed, hmatch⟩
    cases deed with
    | appended other status =>
        cases hmatch
        exact ⟨status, hdeed⟩
    | created | saved | refused => cases hmatch
  · rintro ⟨status, hdeed⟩
    exact ⟨_, hdeed, rfl⟩

/-- Saves that set no input leave the context alone. -/
theorem context_idle {chronicle between : Chronicle} (hbegun : chronicle ≠ [])
    (hbetween : ∀ deed ∈ between, ∃ scope, deed = .saved scope none) :
    context (chronicle ++ between) = chronicle.context := by
  induction between generalizing chronicle with
  | nil => simp
  | cons deed between ih =>
      obtain ⟨scope, rfl⟩ := hbetween deed List.mem_cons_self
      have hrest : context (chronicle ++ [.saved scope none] ++ between) =
          context (chronicle ++ [.saved scope none]) :=
        ih (by simp) fun deed hdeed => hbetween deed (List.mem_cons_of_mem _ hdeed)
      rw [List.append_assoc] at hrest
      exact hrest.trans (context_saved chronicle scope none hbegun)

end Chronicle

namespace Session

variable {σ : Type} [ExecutionStore σ] [LawfulStore σ]

/-- At any time, of any execution of standard nodes in a store that is only slow: every key of the
initial context is in every checkpoint and in the record, and so is every key of an input in every
checkpoint after its save; and two checkpoints with no input in between differ only at the keys that
the node of the later one owns. -/
theorem Reachable.loses_nothing {session : Session σ}
    (h : Reachable LawfulStore.Reliable session) {id : ExecutionId} {execution : StoredExecution}
    (hstored : session.stored id = some execution)
    (hstandard : ∀ scope input, Deed.saved scope input ∈ session.chronicles id →
      scope.IsStandard) :
    execution.log = (session.chronicles id).checkpoints ∧
    (∃ request rest, session.chronicles id = .created request :: rest ∧
      ∀ key, request.context.contains key = true →
        (∀ checkpoint ∈ execution.log, checkpoint.context.contains key = true) ∧
        execution.header.context.contains key = true) ∧
    (∀ before scope input after,
      session.chronicles id = before ++ .saved scope (some input) :: after →
      ∀ key, input.contains key = true →
        (∀ checkpoint status, Deed.appended checkpoint status ∈ after →
          checkpoint.context.contains key = true) ∧
        execution.header.context.contains key = true) ∧
    ∀ before earlier status between later status' after,
      session.chronicles id =
        before ++ .appended earlier status :: (between ++ .appended later status' :: after) →
      (∀ deed ∈ between, ∃ scope, deed = Deed.saved scope none) →
      ∃ scope, Chronicle.scope? (before ++ .appended earlier status :: between) = some scope ∧
        ∀ key, ¬scope.Owns later key → later.context.get? key = earlier.context.get? key := by
  have horderly := h.orderly course_conduct.reliable
  obtain ⟨htells, hcourse⟩ : (session.chronicles id).Tells execution ∧
      Course (session.chronicles id) := by
    obtain ⟨-, hrest, hclear⟩ | ⟨_, -, _, _, -, -, hrest, -, hclear⟩ := horderly.kept hstored
    · exact ⟨(hrest hclear).tells, (hrest hclear).course⟩
    · exact ⟨(hrest hclear).tells, (hrest hclear).course⟩
  have hkept : ∀ begun after, session.chronicles id = begun ++ after → begun ≠ [] →
      ∀ key, begun.context.contains key = true →
        (∀ checkpoint status, Deed.appended checkpoint status ∈ after →
          checkpoint.context.contains key = true) ∧
        execution.header.context.contains key = true := by
    intro begun after hchronicle hbegun key hkey
    refine ⟨fun checkpoint status hlater =>
      hcourse.contains_of_later hstandard hchronicle hbegun hkey hlater, ?_⟩
    rw [htells.context]
    exact hcourse.contains_of_begun hstandard ⟨after, hchronicle.symm⟩ hbegun hkey
  refine ⟨htells.log, ?_, ?_, ?_⟩
  · obtain ⟨request, rest, hbegins⟩ := htells.begun
    refine ⟨request, rest, hbegins, fun key hkey => ?_⟩
    obtain ⟨hcheckpoints, hrecord⟩ := hkept [.created request] rest hbegins (by simp) key hkey
    refine ⟨?_, hrecord⟩
    intro checkpoint hcheckpoint
    rw [htells.log, hbegins, Chronicle.mem_checkpoints] at hcheckpoint
    obtain ⟨status, hmem⟩ := hcheckpoint
    exact hcheckpoints checkpoint status (by simpa using hmem)
  · intro before scope input after hchronicle key hkey
    have hbegun : before ≠ [] := by
      obtain ⟨request, rest, hbegins⟩ := htells.begun
      rintro rfl
      cases hbegins.symm.trans hchronicle
    refine hkept (before ++ [.saved scope (some input)]) after (by simp [hchronicle]) (by simp) key ?_
    rw [Chronicle.context_saved _ _ _ hbegun]
    exact Fields.contains_merge (Chronicle.context before) input hkey
  · intro before earlier status between later status' after hchronicle hbetween
    have hbegins : before ++ [.appended earlier status] ++ between ++
        [.appended later status'] <+: session.chronicles id := ⟨after, by simp [hchronicle]⟩
    obtain ⟨scope, outcome, hscope, hvisits⟩ := (hcourse.upTo hbegins (by simp)).visits_last
    obtain ⟨input, hsaved⟩ := Chronicle.mem_of_scope? hscope
    have hgrows := hvisits.grows
      (hstandard scope input (hbegins.subset (List.mem_append_left _ hsaved)))
    rw [Chronicle.context_idle (by simp) hbetween, Chronicle.context_appended] at hgrows
    exact ⟨scope, by simpa using hscope, hgrows.2⟩

end Session

namespace Sample

/-- A greeting is set before a pause and told behind it. -/
def greeting : Workflow where
  id := "greeting"
  nodes := [
    ⟨"set", "transform.set", none, [("values", .object [("greeting", .string "hello")])], none⟩,
    ⟨"gate", "flow.wait", none, [], none⟩, ⟨"tell", "debug.log", none, [], none⟩]
  connections := [⟨"set", "gate", defaultPort, defaultPort⟩,
    ⟨"gate", "tell", defaultPort, defaultPort⟩]

/-- An engine for standard nodes on an empty store. -/
def standardSession : Session (FaultyStore MemoryStore) where
  engine := { registry := Standard.registry HttpClient.offline }
  host := { store := { inner := {}, plan := {} }, bus := default }

/-- The greeting is set up to the pause, and told after an approval. -/
def greeted : Session (FaultyStore MemoryStore) :=
  (((standardSession.ask (.start ⟨greeting, "user", [("order", .ofInt 7)]⟩)).play 60).ask
    (.resume { id := firstId, workflow := some greeting, input := some [("approved", .bool true)] })).play
      60

theorem reachable_greeted : Session.Reachable LawfulStore.Reliable greeted := by
  have hfresh : Session.Reachable LawfulStore.Reliable standardSession :=
    .initial rfl (fun _ => rfl) ⟨rfl, rfl, trivial⟩
  exact (((hfresh.ask _).play 60).ask _).play 60

end Sample

namespace Session

/-- The order and the approval are still there at the end, and the pause has set nothing but what it
waits for. -/
theorem Reachable.loses_nothing_of_approval :
    ∃ execution set gate tell, Sample.greeted.stored Sample.firstId = some execution ∧
      execution.log = [set, gate, tell] ∧
      (∀ checkpoint ∈ execution.log, checkpoint.context.contains "order" = true) ∧
      execution.header.context.contains "approved" = true ∧
      ∀ key, key ≠ Wait.waitingKey → gate.context.get? key = set.context.get? key := by
  have hthere : (Sample.greeted.stored Sample.firstId).isSome = true := by decide
  obtain ⟨execution, hstored⟩ := Option.isSome_iff_exists.mp hthere
  obtain ⟨scope, again, set, gate, tell, hchronicle, hregistry, hagain, hworkflow, hgate⟩ :
      ∃ scope again set gate tell, Sample.greeted.chronicles Sample.firstId =
        [.created ⟨Sample.greeting, "user", [("order", .ofInt 7)]⟩, .saved scope none,
          .appended set .running, .appended gate .paused,
          .saved again (some [("approved", .bool true)]), .appended tell .running] ∧
        scope.registry = Standard.registry HttpClient.offline ∧
        again.registry = Standard.registry HttpClient.offline ∧
        scope.workflow = Sample.greeting ∧ gate.nodeId = "gate" :=
    ⟨_, _, _, _, _, rfl, rfl, rfl, rfl, rfl⟩
  have hstandard : ∀ scope input, Deed.saved scope input ∈
      Sample.greeted.chronicles Sample.firstId → scope.IsStandard := by
    intro saved input hsaved
    rw [hchronicle] at hsaved
    simp only [List.mem_cons, Deed.saved.injEq, reduceCtorEq, List.not_mem_nil, or_false,
      false_or] at hsaved
    rcases hsaved with ⟨rfl, -⟩ | ⟨rfl, -⟩
    · exact Scope.isStandard_of_registry hregistry
    · exact Scope.isStandard_of_registry hagain
  obtain ⟨hlog, ⟨request, rest, hbegins, hinitial⟩, hinputs, hapart⟩ :=
    Reachable.loses_nothing Sample.reachable_greeted hstored hstandard
  refine ⟨execution, set, gate, tell, hstored, ?_, ?_, ?_, ?_⟩
  · rw [hlog, hchronicle]
    rfl
  · cases hbegins.symm.trans hchronicle
    exact (hinitial "order" rfl).1
  · exact (hinputs [_, _, _, _] again _ _ hchronicle "approved" rfl).2
  · intro key hkey
    obtain ⟨follows, hscope, hsame⟩ := hapart [_, _] set _ [] gate _ _ hchronicle (by simp)
    obtain rfl : scope = follows := Option.some.inj hscope
    apply hsame
    rintro ⟨-, node, hnode, howned⟩
    rw [hworkflow, hgate] at hnode
    cases hnode
    exact hkey (List.mem_singleton.mp howned)

end Session

end WorkflowEngine
