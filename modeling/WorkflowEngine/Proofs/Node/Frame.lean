import WorkflowEngine.Node.Standard
import WorkflowEngine.Proofs.Json.Parts
import WorkflowEngine.Proofs.Run.Smooth

/-!
# What a standard node changes

A standard node that succeeds owns some keys of the context, by its type and its configuration. It sets
no other key and removes none, whatever it is called with.
-/
namespace WorkflowEngine

namespace Fields

variable {α : Type}

/-- The later fields have every key of the earlier ones, and differ from them only at some keys. -/
structure Grows (owned : List String) (fields later : Fields α) : Prop where
  present : ∀ key, fields.contains key = true → later.contains key = true
  apart : ∀ key, key ∉ owned → later.get? key = fields.get? key

namespace Grows

variable {owned more : List String} {fields later last : Fields α}

theorem refl (fields : Fields α) : Grows [] fields fields :=
  ⟨fun _ hkey => hkey, fun _ _ => rfl⟩

theorem trans (h : Grows owned fields later) (hlast : Grows more later last) :
    Grows (owned ++ more) fields last := by
  refine ⟨fun key hkey => hlast.present key (h.present key hkey), ?_⟩
  intro key hkey
  rw [List.mem_append, not_or] at hkey
  exact (hlast.apart key hkey.2).trans (h.apart key hkey.1)

theorem insert (fields : Fields α) (key : String) (value : α) :
    Grows [key] fields (fields.insert key value) := by
  refine ⟨?_, ?_⟩
  · intro other hother
    unfold contains at hother ⊢
    rw [get?_insert]
    by_cases hsame : other = key
    · simp [hsame]
    · simpa [hsame] using hother
  · intro other hother
    rw [get?_insert, if_neg (by simpa using hother)]

/-- Merging owns the keys of what is merged. -/
theorem merge (fields update : Fields α) : Grows update.keys fields (fields.merge update) := by
  induction update generalizing fields with
  | nil => exact refl fields
  | cons entry update ih =>
      exact (insert fields entry.1 entry.2).trans (ih (fields.insert entry.1 entry.2))

end Grows

/-- What is merged is there afterwards. -/
theorem contains_merge (fields update : Fields α) {key : String} (h : update.contains key = true) :
    (fields.merge update).contains key = true := by
  induction update generalizing fields with
  | nil => cases h
  | cons entry update ih =>
      obtain ⟨name, value⟩ := entry
      by_cases hname : name = key
      · refine (Grows.merge (fields.insert name value) update).present key ?_
        unfold contains
        rw [get?_insert]
        simp [hname]
      · refine ih (fields.insert name value) ?_
        simpa [contains, get?, hname] using h

end Fields

/-- What is found was registered under its own type, or was there before. -/
theorem Registry.mem_of_registerAll {executors : List Executor} {registry : Registry}
    {nodeType : String} {executor : Executor}
    (h : (registry.registerAll executors).get? nodeType = some executor) :
    (executor ∈ executors ∧ executor.nodeType = nodeType) ∨
      registry.get? nodeType = some executor := by
  induction executors generalizing registry with
  | nil => exact Or.inr h
  | cons first executors ih =>
      obtain ⟨hmem, htype⟩ | hbefore := ih h
      · exact Or.inl ⟨List.mem_cons_of_mem _ hmem, htype⟩
      · rw [get?_register] at hbefore
        by_cases hfirst : nodeType = first.nodeType
        · rw [if_pos hfirst, Option.some.injEq] at hbefore
          exact Or.inl ⟨hbefore ▸ List.mem_cons_self, by rw [hfirst, hbefore]⟩
        · rw [if_neg hfirst] at hbefore
          exact Or.inr hbefore

namespace Standard

theorem mem_of_get? {client : HttpClient} {nodeType : String} {executor : Executor}
    (h : (registry client).get? nodeType = some executor) :
    executor ∈ executors client ∧ executor.nodeType = nodeType :=
  (Registry.mem_of_registerAll h).resolve_right (by simp [Registry.get?, Registry.empty, Fields.get?])

/-- The configured key for what a node makes, or a default. -/
def target (config : Context) (absent : String) : String :=
  ((config.get? "target").bind Value.asString?).getD absent

/-- The keys that a standard node may set. -/
def owned (nodeType : String) (config : Context) : List String :=
  match nodeType with
  | "transform.set" => (((config.get? "values").bind Value.asObject?).getD []).keys
  | "transform.json_parse" => [target config "parsed"]
  | "transform.json_stringify" => [target config "json"]
  | "http.request" => [target config "response"]
  | "flow.wait" => [Wait.waitingKey]
  | _ => []

end Standard

variable {ctx : NodeContext} {outcome : NodeOutcome}

/-- A call that succeeds got over its first step. -/
theorem Behaviour.ok_of_ofExcept {α : Type} {step : Except NodeError α} {rest : α → Behaviour}
    (h : (ofExcept step rest).answer? = some (.ok outcome)) :
    ∃ a, step = .ok a ∧ (rest a).answer? = some (.ok outcome) := by
  cases step with
  | error cause => simp [ofExcept, fail, answer?] at h
  | ok a => exact ⟨a, rfl, h⟩

/-- The key that is read is the one that the configuration tells. -/
theorem Transform.target_of_configuredKey {absent key : String}
    (h : configuredKey ctx "target" absent = .ok key) :
    Standard.target ctx.config absent = key := by
  unfold configuredKey at h
  unfold Standard.target
  cases hvalue : ctx.config.get? "target" with
  | none => simpa [hvalue] using h
  | some value =>
      cases hkey : value.asString? with
      | none => simp [hvalue, hkey] at h
      | some found => simpa [hvalue, hkey] using h

theorem Log.grows (h : (execute ctx).answer? = some (.ok outcome)) :
    Fields.Grows [] ctx.context outcome.context := by
  have hanswer : ∀ messages : List String,
      (messages.foldr Behaviour.info (.answer (.ok (.proceed ctx.context)))).answer? =
        some (.ok (.proceed ctx.context)) := by
    intro messages
    induction messages with
    | nil => rfl
    | cons message messages ih => exact ih
  obtain rfl : .proceed ctx.context = outcome := by
    simpa using (hanswer _).symm.trans h
  exact .refl _

theorem Delay.grows (h : (execute ctx).answer? = some (.ok outcome)) :
    Fields.Grows [] ctx.context outcome.context := by
  obtain ⟨ms, -, hrest⟩ := Behaviour.ok_of_ofExcept h
  cases hrest
  exact .refl _

theorem Wait.grows (h : (execute ctx).answer? = some (.ok outcome)) :
    Fields.Grows [waitingKey] ctx.context outcome.context := by
  cases h
  exact .insert ..

theorem Condition.grows (h : (execute ctx).answer? = some (.ok outcome)) :
    Fields.Grows [] ctx.context outcome.context := by
  obtain ⟨decision, -, hrest⟩ := Behaviour.ok_of_ofExcept h
  cases hrest
  exact .refl _

theorem Transform.set_grows (h : set ctx = .ok outcome) :
    Fields.Grows (Standard.owned "transform.set" ctx.config) ctx.context outcome.context := by
  obtain ⟨value, hvalue, hrest⟩ := ok_of_bind h
  unfold NodeContext.requireConfig at hvalue
  split at hvalue
  next found hfound =>
    cases hvalue
    split at hrest
    next values hvalues =>
      cases hrest
      have howned : Standard.owned "transform.set" ctx.config = values.keys := by
        simp [Standard.owned, hfound, hvalues]
      rw [howned]
      exact .merge ..
    next => cases hrest
  next => cases hvalue

theorem Transform.parse_grows (h : parseJson ctx = .ok outcome) :
    Fields.Grows [Standard.target ctx.config "parsed"] ctx.context outcome.context := by
  obtain ⟨source, -, hrest⟩ := ok_of_bind h
  obtain ⟨target, htarget, hrest⟩ := ok_of_bind hrest
  obtain ⟨input, -, hrest⟩ := ok_of_bind hrest
  rw [target_of_configuredKey htarget]
  split at hrest
  next => cases hrest
  next =>
    split at hrest
    next =>
      cases hrest
      exact .insert ..
    next => cases hrest

theorem Transform.stringify_grows (h : stringifyJson ctx = .ok outcome) :
    Fields.Grows [Standard.target ctx.config "json"] ctx.context outcome.context := by
  obtain ⟨source, -, hrest⟩ := ok_of_bind h
  obtain ⟨target, htarget, hrest⟩ := ok_of_bind hrest
  obtain ⟨input, -, hrest⟩ := ok_of_bind hrest
  rw [target_of_configuredKey htarget]
  cases hrest
  exact .insert ..

/-- What a request that succeeds leaves behind is the response. -/
theorem HttpNode.exchange_grows {client : HttpClient} {method url : String}
    (h : (exchange client ctx method url).answer? = some (.ok outcome)) :
    Fields.Grows [target ctx] ctx.context outcome.context := by
  unfold exchange at h
  split at h
  next => cases h
  next =>
    split at h
    next => cases h
    next =>
      split at h
      next => cases h
      next => cases h
      next =>
        simp only [Behaviour.info, Behaviour.answer?] at h
        split at h
        next => cases h
        next =>
          cases h
          exact .insert ..

theorem HttpNode.grows {client : HttpClient}
    (h : (execute client ctx).answer? = some (.ok outcome)) :
    Fields.Grows [Standard.target ctx.config "response"] ctx.context outcome.context := by
  obtain ⟨url, -, hrest⟩ := Behaviour.ok_of_ofExcept h
  simp only [Behaviour.info, Behaviour.answer?] at hrest
  split at hrest
  next => exact exchange_grows hrest
  next => cases hrest

/-- A standard node that succeeds sets the keys it owns and loses none. -/
theorem Standard.grows {client : HttpClient} {executor : Executor}
    (hexecutor : executor ∈ executors client)
    (h : (executor.execute ctx).answer? = some (.ok outcome)) :
    Fields.Grows (owned executor.nodeType ctx.config) ctx.context outcome.context := by
  simp only [executors, List.mem_cons, List.not_mem_nil, or_false] at hexecutor
  rcases hexecutor with rfl | rfl | rfl | rfl | rfl | rfl | rfl | rfl
  · exact Log.grows h
  · exact Delay.grows h
  · exact Transform.set_grows (Option.some.inj h)
  · exact Transform.parse_grows (Option.some.inj h)
  · exact Transform.stringify_grows (Option.some.inj h)
  · exact Condition.grows h
  · exact Wait.grows h
  · exact HttpNode.grows h

end WorkflowEngine
