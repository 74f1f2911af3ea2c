import WorkflowEngine.Proofs.State.Onward

/-!
Working copies over one store in files. Calls that write exclude each other and go operation by operation;
readers take no lock, and see the files between two operations or within one, but a rename happens or
does not. Whoever had a working copy once may change it, commit it and reconcile it at any time later.

Records whose numbers are not read back as they were written are left out.
-/
namespace WorkflowEngine

/-- A call that writes, under way. -/
structure Writer where
  call : StoreCall
  /-- The working copy of the caller when the store has agreed. -/
  copy : ExecutionState
  rest : FileProgram (Except StoreError Unit)

def Writer.begin (root : Path) (call : StoreCall) (copy : ExecutionState) : Writer :=
  ⟨call, copy, (call.program root).run⟩

/-- A reading under way. -/
structure Reader where
  reading : Reading
  rest : FileProgram (Except StoreError (Except EngineError (Option ExecutionState)))

def Reader.begin (root : Path) (reading : Reading) : Reader := ⟨reading, (reading.program root).run⟩

structure Filing (ι : Type) where
  files : FileSystem
  /-- The call that has the lock. -/
  writer : Option Writer := none
  readers : ι → Option Reader := fun _ => none
  /-- Working copies that somebody has or had. -/
  copies : List ExecutionState := []
  /-- Headers and logs as they were committed together. -/
  records : ExecutionId → Option StoredExecution

namespace Filing

variable {ι : Type} [DecidableEq ι]

/-- What a reader may see of the files. -/
inductive Shows (filing : Filing ι) : FileSystem → Prop
  | whole : Shows filing filing.files
  | part {writer : Writer} {op : FileOp} {next : op.Reply → FileProgram (Except StoreError Unit)}
      {left : FileSystem} (hwriter : filing.writer = some writer) (hrest : writer.rest = .step op next)
      (hslow : op.isRename = false) (htorn : op.Torn filing.files left) : Shows filing left

def place (filing : Filing ι) (name : ι) (reader : Reader) : Filing ι :=
  { filing with readers := Function.update filing.readers name (some reader) }

/-- Somebody has a working copy. -/
def keep (filing : Filing ι) (copy : ExecutionState) : Filing ι :=
  { filing with copies := copy :: filing.copies }

/-- The call that has the lock is answered. -/
def answer (filing : Filing ι) (copy : ExecutionState) : Except StoreError Unit → Filing ι
  | .ok () => { filing.keep copy with writer := none }
  | .error _ => { filing with writer := none }

omit [DecidableEq ι] in
@[simp] theorem records_answer (filing : Filing ι) (copy : ExecutionState)
    (result : Except StoreError Unit) : (filing.answer copy result).records = filing.records := by
  cases result <;> rfl

omit [DecidableEq ι] in
@[simp] theorem readers_answer (filing : Filing ι) (copy : ExecutionState)
    (result : Except StoreError Unit) : (filing.answer copy result).readers = filing.readers := by
  cases result <;> rfl

inductive Step (root : Path) (filing : Filing ι) : Filing ι → Prop
  /-- A working copy is changed in memory. -/
  | change {state : ExecutionState} (hmem : state ∈ filing.copies) (operation : StateOperation)
      (host : Host FileStore) {demand : StateOperation.Demand} {handle : Handle}
      (hprepare : (operation.prepare { state } host).1 = .ok (demand, handle)) :
      Step root filing (filing.keep handle.state)
  /-- A call gets the lock. -/
  | begin {call : StoreCall} {copy : ExecutionState} (hasked : call.Asked filing.copies copy)
      (hfree : filing.writer = none)
      (hlegible : ∀ execution, call.outcome (filing.records call.id) = .ok execution →
        execution.Of Binary64.Legible) :
      Step root filing { filing with writer := some (.begin root call copy) }
  /-- The next operation of the call is performed. The rename puts the record in place. -/
  | work {call : StoreCall} {copy : ExecutionState} {op : FileOp}
      {next : op.Reply → FileProgram (Except StoreError Unit)}
      (hwriter : filing.writer = some ⟨call, copy, .step op next⟩) :
      Step root filing { filing with
        files := (filing.files.perform op).2
        writer := some ⟨call, copy, next (filing.files.perform op).1⟩
        records := if op.isRename then call.land filing.records else filing.records }
  | answer {call : StoreCall} {copy : ExecutionState} {result : Except StoreError Unit}
      (hwriter : filing.writer = some ⟨call, copy, .done result⟩) :
      Step root filing (filing.answer copy result)
  /-- The call fails in the middle, or nobody goes on with it. What it has done by then stays. -/
  | stop {writer : Writer} {left : FileSystem} (hwriter : filing.writer = some writer)
      (hshows : filing.Shows left) : Step root filing { filing with files := left, writer := none }
  | read (name : ι) {reading : Reading} (hfree : filing.readers name = none)
      (hapt : reading.Apt filing.records) :
      Step root filing (filing.place name (.begin root reading))
  /-- The next operation of a reading is performed. -/
  | look {name : ι} {reading : Reading} {op : FileOp}
      {next : op.Reply → FileProgram (Except StoreError (Except EngineError (Option ExecutionState)))}
      {fs : FileSystem} (hreader : filing.readers name = some ⟨reading, .step op next⟩)
      (hshows : filing.Shows fs) :
      Step root filing (filing.place name ⟨reading, next (fs.perform op).1⟩)
  /-- What was read is a working copy. -/
  | learn {name : ι} {reading : Reading} {state : ExecutionState}
      (hreader : filing.readers name = some ⟨reading, .done (.ok (.ok (some state)))⟩) :
      Step root filing (filing.keep state)

def Goes (root : Path) : Filing ι → Filing ι → Prop := Relation.ReflTransGen (Step root)

end Filing

/-- Where a call stands to the files: it has not taken effect yet, or it is over but for the answer. -/
inductive Writer.Stands (root : Path) (records : ExecutionId → Option StoredExecution)
    (fs : FileSystem) (writer : Writer) : Prop
  | working
      (hturns : writer.rest.Turns (FileStore.Holding root records) (· ≠ .ok ())
        (fun result left => ∃ after, writer.call.outcome (records writer.call.id) = .ok after ∧
          result = .ok () ∧
          FileStore.Holding root (Function.update records writer.call.id (some after)) left) fs)
      (hmakes : ∀ after, writer.call.outcome (records writer.call.id) = .ok after →
        writer.call.Makes writer.copy (records writer.call.id) after)
  | landed {result : Except StoreError Unit} (hover : writer.rest = .done result)
      (hcopy : writer.copy.Tracked records)

namespace Reading

/-- A reading has seen a record, which may have gone on since. -/
structure Recalls (records : ExecutionId → Option StoredExecution) (seen : StoredExecution → Prop)
    (reading : Reading) (execution now : StoredExecution) : Prop where
  seen : seen execution
  stored : records reading.id = some now
  precedes : execution.Precedes now
  numbered : execution.Numbered
  fits : reading.unsigned.Fits execution.unsigned.log

/-- How far a reading has come: it has read nothing, the header, the committed length of the log too, or
all it needs. -/
inductive Stage (root : Path) (records : ExecutionId → Option StoredExecution)
    (seen : StoredExecution → Prop) (reading : Reading) :
    FileProgram (Except StoreError (Except EngineError (Option ExecutionState))) → Prop
  | begun : Stage root records seen reading (reading.program root).run
  | told {execution now : StoredExecution} (h : reading.Recalls records seen execution now) :
      Stage root records seen reading (reading.rest root execution.header.unsigned).run
  | measured {execution middle now : StoredExecution}
      (h : reading.Recalls records seen execution now) (hgrown : execution.log <+: middle.log)
      (hlog : middle.log <+: now.log) (hnumbered : middle.Numbered) (hsome : middle.log ≠ []) :
      Stage root records seen reading
        (reading.readLogOf root execution.header.unsigned (FileStore.logOf middle.log).length)
  | ended {result : Except StoreError (Except EngineError (Option ExecutionState))}
      (h : ∀ state, result = .ok (.ok (some state)) →
        ∃ execution now, reading.Recalls records seen execution now ∧
          state.unsigned = execution.unsigned.state) :
      Stage root records seen reading (.done result)

variable {root : Path} {records later : ExecutionId → Option StoredExecution}
  {seen wider : StoredExecution → Prop} {reading : Reading} {execution now : StoredExecution}

theorem Recalls.mono (h : reading.Recalls records seen execution now)
    (hseen : ∀ execution, seen execution → wider execution) :
    reading.Recalls records wider execution now :=
  { h with seen := hseen _ h.seen }

theorem Recalls.carries (h : reading.Recalls records seen execution now) (hcarries : Carries records later) :
    ∃ after, reading.Recalls later seen execution after ∧ now.log <+: after.log := by
  obtain ⟨after, hafter, rfl | honward⟩ := hcarries _ _ h.stored
  · exact ⟨_, { h with stored := hafter }, List.prefix_rfl⟩
  · exact ⟨after, { h with stored := hafter, precedes := h.precedes.onward honward }, honward.log⟩

/-- Others going on leave a reading where it is. -/
theorem Stage.carries
    {rest : FileProgram (Except StoreError (Except EngineError (Option ExecutionState)))}
    (h : reading.Stage root records seen rest) (hcarries : Carries records later)
    (hseen : ∀ execution, seen execution → wider execution) :
    reading.Stage root later wider rest := by
  cases h with
  | begun => exact .begun
  | told h =>
      obtain ⟨after, hrecalls, -⟩ := h.carries hcarries
      exact .told (hrecalls.mono hseen)
  | measured h hgrown hlog hnumbered hsome =>
      obtain ⟨after, hrecalls, hafter⟩ := h.carries hcarries
      exact .measured (hrecalls.mono hseen) hgrown (hlog.trans hafter) hnumbered hsome
  | ended h =>
      refine .ended fun state hstate => ?_
      obtain ⟨execution, now, hrecalls, hread⟩ := h state hstate
      obtain ⟨after, hrecalls, -⟩ := hrecalls.carries hcarries
      exact ⟨execution, after, hrecalls.mono hseen, hread⟩

/-- Whatever is read of the log of a later record is what the header read before stands for. -/
theorem Recalls.read (h : reading.Recalls records seen execution now) {middle : StoredExecution}
    (hgrown : execution.log <+: middle.log) (hnumbered : middle.Numbered) :
    (reading.take execution.header.unsigned
      ((middle.log.map (·.unsigned)).filter (reading.start ≤ ·.sequence))).unsigned =
        execution.unsigned.state := by
  have hstart : reading.unsigned.start = reading.start := by
    cases reading <;> rfl
  have hread := take_eq (StoredExecution.numbered_unsigned.mpr h.numbered)
    (StoredExecution.numbered_unsigned.mpr hnumbered) (hgrown.map Checkpoint.unsigned) h.fits
  have hlog : ((middle.log.map (·.unsigned)).filter (reading.start ≤ ·.sequence)).map
      Checkpoint.unsigned = middle.unsigned.log.filter (reading.start ≤ ·.sequence) := by
    have htwice : Checkpoint.unsigned ∘ Checkpoint.unsigned = Checkpoint.unsigned :=
      funext Checkpoint.unsigned_unsigned
    change List.map Checkpoint.unsigned (List.filter _ (List.map Checkpoint.unsigned middle.log)) =
      List.filter _ (List.map Checkpoint.unsigned middle.log)
    rw [List.filter_map, List.map_map, htwice]
  rw [unsigned_take, hlog, ExecutionHeader.unsigned_unsigned, ← hstart]
  exact hread

open FileStore

variable {fs : FileSystem} {op : FileOp}
  {next : op.Reply → FileProgram (Except StoreError (Except EngineError (Option ExecutionState)))}

/-- What follows the first read. -/
theorem stage_of_header (root : Path) (horders : Orders records) (hapt : reading.Apt records)
    (hseen : ∀ execution, records reading.id = some execution → seen execution) :
    reading.Stage root records seen
      (match FileStore.seen (records reading.id) with
      | .error cause => .done (.error cause)
      | .ok none => .done (.ok reading.absent)
      | .ok (some stored) =>
        if reading.wants stored.header then (reading.rest root stored.header).run
        else .done (.ok (.ok none))) := by
  cases hstored : records reading.id with
  | none =>
      refine .ended fun state hstate => ?_
      cases reading <;> cases hstate
  | some execution =>
      simp only [FileStore.seen]
      by_cases hshallow : execution.header.context.Shallow
      case neg =>
        rw [if_neg hshallow]
        refine .ended fun state hstate => ?_
        cases hstate
      rw [if_pos hshallow]
      dsimp only
      by_cases hwants : reading.wants execution.header.unsigned = true
      case neg =>
        rw [if_neg hwants]
        refine .ended fun state hstate => ?_
        cases hstate
      rw [if_pos hwants]
      have hnumbered := horders.numbered _ _ hstored
      refine .told ⟨hseen execution hstored, hstored, .refl hnumbered, hnumbered, ?_⟩
      cases reading with
      | load id => trivial
      | reconcile state =>
          obtain ⟨found, hfound, hfits⟩ := hapt
          obtain rfl : execution = found := Option.some.inj (hstored.symm.trans hfound)
          exact hfits

/-- What follows the second read. -/
theorem Recalls.stage_of_length (root : Path) (h : reading.Recalls records seen execution now)
    (horders : Orders records) :
    reading.Stage root records seen
      (match FileStore.seen (some now) with
      | .error cause => .done (.error cause)
      | .ok none => .done (.error (.notFound reading.id))
      | .ok (some stored) =>
        if stored.logBytes = 0 then
          .done (.ok (.ok (some (reading.take execution.header.unsigned []))))
        else reading.readLogOf root execution.header.unsigned stored.logBytes) := by
  have hnumbered := horders.numbered _ _ h.stored
  simp only [FileStore.seen]
  by_cases hshallow : now.header.context.Shallow
  case neg =>
    rw [if_neg hshallow]
    refine .ended fun state hstate => ?_
    cases hstate
  rw [if_pos hshallow]
  dsimp only
  by_cases hempty : now.log = []
  · have hlength : (FileStore.logOf now.log).length = 0 := by rw [hempty]; rfl
    rw [if_pos hlength]
    refine .ended fun state hstate => ⟨execution, now, h, ?_⟩
    obtain rfl : reading.take execution.header.unsigned [] = state := by simpa using hstate
    have hread := h.read h.precedes.log hnumbered
    rwa [hempty] at hread
  · have hlength : (FileStore.logOf now.log).length ≠ 0 := fun hzero =>
      hempty (logOf_eq_nil.mp (List.length_eq_zero_iff.mp hzero))
    rw [if_neg hlength]
    exact .measured h h.precedes.log List.prefix_rfl hnumbered hempty

/-- What follows the last read: the committed part of the log is there, whatever was written after it. -/
theorem Recalls.stage_of_log (h : reading.Recalls records seen execution now)
    (hholding : Holding root records fs) {middle : StoredExecution}
    (hgrown : execution.log <+: middle.log) (hlog : middle.log <+: now.log)
    (hnumbered : middle.Numbered) (hsome : middle.log ≠ []) :
    ∃ bytes : Bytes, fs.read (logPath root reading.id) = .ok bytes ∧
      reading.Stage root records seen
        (.done ((readLog (bytes.take (FileStore.logOf middle.log).length) reading.start).map fun log =>
          .ok (some (reading.take execution.header.unsigned log)))) := by
  have hnow : now.log ≠ [] := by
    rintro hempty
    rw [hempty] at hlog
    exact hsome (List.prefix_nil.mp hlog)
  obtain ⟨bytes, hread, hcut⟩ := hholding.read_log h.stored hnow
  refine ⟨bytes, hread, .ended fun state hstate => ⟨execution, now, h, ?_⟩⟩
  have hpart : bytes.take (FileStore.logOf middle.log).length = FileStore.logOf middle.log := by
    obtain ⟨appended, happended⟩ := hlog
    have hbytes : FileStore.logOf middle.log <+: bytes := by
      refine List.IsPrefix.trans ?_ (List.take_prefix (FileStore.logOf now.log).length bytes)
      rw [hcut, ← happended, FileStore.logOf_append]
      exact List.prefix_append _ _
    exact (List.prefix_iff_eq_take.mp hbytes).symm
  have hlegible : ∀ c ∈ middle.log, c.Of Binary64.Legible := fun c hc =>
    (hholding.legible reading.id now h.stored).log c (hlog.subset hc)
  rw [hpart, readLog_logOf hlegible] at hstate
  split at hstate
  · simp only [Except.map, Except.ok.injEq, Option.some.injEq] at hstate
    rw [← hstate]
    exact h.read hgrown hnumbered
  · cases hstate

/-- The next operation of a reading, on files that hold the records. -/
theorem Stage.look (h : reading.Stage root records seen (.step op next))
    (hholding : Holding root records fs) (horders : Orders records) (hapt : reading.Apt records)
    (hseen : ∀ execution, records reading.id = some execution → seen execution) :
    reading.Stage root records seen (next (fs.perform op).1) := by
  generalize hrest : FileProgram.step op next = rest at h
  cases h with
  | begun =>
      rw [run_program] at hrest
      cases hrest
      have hstage := stage_of_header root horders hapt hseen
      rw [← hholding.headerOf_read] at hstage
      exact hstage
  | told h =>
      rw [run_rest] at hrest
      cases hrest
      have hstage := h.stage_of_length root horders
      rw [← h.stored, ← hholding.headerOf_read] at hstage
      exact hstage
  | measured h hgrown hlog hnumbered hsome =>
      obtain ⟨bytes, hread, hstage⟩ := h.stage_of_log hholding hgrown hlog hnumbered hsome
      cases hrest
      simp only [FileSystem.perform, hread]
      exact hstage
  | ended h => cases hrest

/-- What a reading gives that is over. -/
theorem Stage.result {state : ExecutionState}
    (h : reading.Stage root records seen (.done (.ok (.ok (some state))))) :
    ∃ execution now, reading.Recalls records seen execution now ∧
      state.unsigned = execution.unsigned.state := by
  generalize hrest : FileProgram.done (Except.ok (Except.ok (some state))) = rest at h
  cases h with
  | ended h =>
      cases hrest
      exact h state rfl
  | begun =>
      rw [run_program] at hrest
      cases hrest
  | told h =>
      rw [run_rest] at hrest
      cases hrest
  | measured => cases hrest

/-- What was read is a working copy of the record. -/
theorem Recalls.tracked (h : reading.Recalls records seen execution now) (horders : Orders records)
    {state : ExecutionState} (hread : state.unsigned = execution.unsigned.state) :
    state.Tracked records := by
  have hid : state.header.id = reading.id := by
    calc state.header.id = state.unsigned.header.id := rfl
      _ = now.header.id := by rw [hread, h.precedes.tracks.id]; rfl
      _ = reading.id := horders.id _ _ h.stored
  refine ⟨now, hid ▸ h.stored, ?_⟩
  rw [hread]
  exact h.precedes.tracks

end Reading

namespace Filing

open FileStore

variable {ι : Type} {root : Path} {filing later first last : Filing ι} {fs : FileSystem}

/-- What holds all the time. -/
structure Sound (root : Path) (filing : Filing ι) : Prop where
  orders : Orders filing.records
  files : Holding root filing.records filing.files
  writer : ∀ writer, filing.writer = some writer → writer.Stands root filing.records filing.files
  copies : ∀ copy ∈ filing.copies, copy.Tracked filing.records
  readers : ∀ name reader, filing.readers name = some reader →
    reader.reading.Apt filing.records ∧
      reader.reading.Stage root filing.records (fun _ => True) reader.rest

/-- Whatever a reader sees of the files, they hold the records. -/
theorem Sound.holding (h : filing.Sound root) (hshows : filing.Shows fs) :
    Holding root filing.records fs := by
  cases hshows with
  | whole => exact h.files
  | part hwriter hrest hslow htorn =>
      cases h.writer _ hwriter with
      | working hturns =>
          rw [hrest] at hturns
          unfold FileProgram.Turns at hturns
          rw [if_neg (by simp [hslow])] at hturns
          exact hturns.1 fs htorn
      | landed hover => cases hrest.symm.trans hover

/-- What every step keeps, and what it makes of the records. -/
structure Keeps (root : Path) (filing later : Filing ι) : Prop where
  sound : later.Sound root
  carries : Carries filing.records later.records

theorem Sound.keep (h : filing.Sound root) {copy : ExecutionState}
    (htracked : copy.Tracked filing.records) : (filing.keep copy).Sound root :=
  { h with copies := List.forall_mem_cons.mpr ⟨htracked, h.copies⟩ }

theorem Sound.change (h : filing.Sound root) {state state' : ExecutionState}
    (hmem : state ∈ filing.copies) (hedit : state.Edit state') : (filing.keep state').Sound root := by
  obtain ⟨execution, hstored, htracks⟩ := h.copies state hmem
  rw [← hedit.id] at hstored
  exact h.keep ⟨execution, hstored, htracks.edit hedit.unsigned⟩

/-- A call that gets the lock is refused or will put its record in place. -/
theorem Sound.begin (h : filing.Sound root) {call : StoreCall} {copy : ExecutionState}
    (hasked : call.Asked filing.copies copy)
    (hlegible : ∀ execution, call.outcome (filing.records call.id) = .ok execution →
      execution.Of Binary64.Legible) :
    { filing with writer := some (.begin root call copy) }.Sound root := by
  refine { h with writer := ?_ }
  rintro _ ⟨⟩
  refine .working ?_ fun after houtcome =>
    hasked.makes h.copies (h.orders.numbered call.id) houtcome
  cases hverdict : call.verdict (filing.records call.id) with
  | error cause =>
      apply (h.files.turns_of_error hverdict).weaken
      · rintro left rfl
        exact h.files
      · rintro result rfl
        simp
      · exact fun _ _ hnone => hnone.elim
  | ok after =>
      have houtcome := StoreCall.outcome_of_verdict hverdict
      apply (h.files.lands hverdict (hlegible after houtcome)).weaken
      · exact fun _ hholding => hholding
      · exact fun _ hnone => hnone.elim
      · exact fun result left hlanded => ⟨after, houtcome, hlanded⟩

/-- A call takes effect and nothing else happens. -/
theorem Sound.land (h : filing.Sound root) {call : StoreCall} {copy : ExecutionState}
    {after : StoredExecution} {files : FileSystem}
    (houtcome : call.outcome (filing.records call.id) = .ok after)
    (hmakes : call.Makes copy (filing.records call.id) after)
    (hfiles : Holding root (Function.update filing.records call.id (some after)) files)
    {result : Except StoreError Unit} :
    Keeps root filing { filing with
      files := files
      writer := some ⟨call, copy, .done result⟩
      records := Function.update filing.records call.id (some after) } := by
  have hcarries := Carries.land hmakes
  refine ⟨⟨h.orders.land houtcome hmakes, hfiles, ?_, ?_, ?_⟩, hcarries⟩
  · rintro _ ⟨⟩
    refine .landed rfl ⟨after, ?_, hmakes.tracks⟩
    change Function.update filing.records call.id (some after) copy.header.id = some after
    rw [hmakes.id, Function.update_self]
  · intro other hmem
    exact hcarries.tracked (h.copies other hmem)
  · intro name reader hreader
    obtain ⟨hapt, hstage⟩ := h.readers name reader hreader
    exact ⟨hcarries.apt hapt, hstage.carries hcarries fun _ hseen => hseen⟩

theorem Sound.work (h : filing.Sound root) {call : StoreCall} {copy : ExecutionState} {op : FileOp}
    {next : op.Reply → FileProgram (Except StoreError Unit)}
    (hwriter : filing.writer = some ⟨call, copy, .step op next⟩) :
    Keeps root filing { filing with
      files := (filing.files.perform op).2
      writer := some ⟨call, copy, next (filing.files.perform op).1⟩
      records := if op.isRename then call.land filing.records else filing.records } := by
  cases h.writer _ hwriter with
  | landed hover => cases hover
  | working hturns hmakes =>
      unfold FileProgram.Turns at hturns
      split at hturns
      case isTrue hrename =>
        obtain ⟨-, result, hover, after, houtcome, rfl, hholding⟩ := hturns
        have hland : call.land filing.records =
            Function.update filing.records call.id (some after) := by
          unfold StoreCall.land
          rw [houtcome]
        rw [if_pos hrename, hover, hland]
        exact h.land houtcome (hmakes after houtcome) hholding
      case isFalse hother =>
        rw [if_neg hother]
        refine ⟨{ h with files := hturns.2.start, writer := ?_ }, .refl _⟩
        rintro _ ⟨⟩
        exact .working hturns.2 hmakes

theorem Sound.answer (h : filing.Sound root) {call : StoreCall} {copy : ExecutionState}
    {result : Except StoreError Unit} (hwriter : filing.writer = some ⟨call, copy, .done result⟩) :
    (filing.answer copy result).Sound root := by
  cases result with
  | error cause => exact { h with writer := fun _ hnone => nomatch hnone }
  | ok _ =>
      have hcopy : copy.Tracked filing.records := by
        cases h.writer _ hwriter with
        | landed _ hcopy => exact hcopy
        | working hturns => exact absurd rfl hturns.2
      exact { h.keep hcopy with writer := fun _ hnone => nomatch hnone }

theorem Sound.learn (h : filing.Sound root) {name : ι} {reading : Reading} {state : ExecutionState}
    (hreader : filing.readers name = some ⟨reading, .done (.ok (.ok (some state)))⟩) :
    (filing.keep state).Sound root := by
  obtain ⟨execution, now, hrecalls, hread⟩ := (h.readers name _ hreader).2.result
  exact h.keep (hrecalls.tracked h.orders hread)

variable [DecidableEq ι]

/-- A reading begins or goes on. -/
theorem Sound.place (h : filing.Sound root) {name : ι} {reader : Reader}
    (hapt : reader.reading.Apt filing.records)
    (hstage : reader.reading.Stage root filing.records (fun _ => True) reader.rest) :
    (filing.place name reader).Sound root := by
  refine { h with readers := ?_ }
  intro other found hfound
  by_cases hother : other = name
  · subst hother
    have hself := Function.update_self other (some reader) filing.readers
    obtain rfl : reader = found := Option.some.inj (hself.symm.trans hfound)
    exact ⟨hapt, hstage⟩
  · have hsame := Function.update_of_ne hother (some reader) filing.readers
    exact h.readers other found (hsame.symm.trans hfound)

theorem Sound.step (h : filing.Sound root) (hstep : filing.Step root later) :
    Keeps root filing later := by
  cases hstep with
  | change hmem operation host hprepare =>
      obtain ⟨-, hcases⟩ := operation.prepare_cases { state := _ } host
      obtain ⟨cause, hcause⟩ | ⟨demand, state', hdemand, hedit, -⟩ := hcases
      · cases hprepare.symm.trans hcause
      · cases hprepare.symm.trans hdemand
        exact ⟨h.change hmem hedit, .refl _⟩
  | begin hasked _ hlegible => exact ⟨h.begin hasked hlegible, .refl _⟩
  | work hwriter => exact h.work hwriter
  | answer hwriter =>
      refine ⟨h.answer hwriter, ?_⟩
      rw [records_answer]
      exact .refl _
  | stop _ hshows =>
      have hfiles := h.holding hshows
      exact ⟨{ h with files := hfiles, writer := fun _ hnone => nomatch hnone }, .refl _⟩
  | read name _ hapt => exact ⟨h.place hapt .begun, .refl _⟩
  | look hreader hshows =>
      obtain ⟨hapt, hstage⟩ := h.readers _ _ hreader
      have hlook := hstage.look (h.holding hshows) h.orders hapt fun _ _ => trivial
      exact ⟨h.place hapt hlook, .refl _⟩
  | learn hreader => exact ⟨h.learn hreader, .refl _⟩

theorem Sound.goes (h : first.Sound root) (hgoes : Goes root first last) : last.Sound root := by
  induction hgoes with
  | refl => exact h
  | tail _ hstep ih => exact (ih.step hstep).sound

/-- A step of others leaves a reading where it is; its own performs the next operation. -/
theorem Step.readers_cases (hstep : filing.Step root later) {name : ι} {reading : Reading}
    {rest : FileProgram (Except StoreError (Except EngineError (Option ExecutionState)))}
    (hreader : filing.readers name = some ⟨reading, rest⟩) :
    later.readers name = some ⟨reading, rest⟩ ∨
      ∃ op next fs, rest = .step op next ∧ filing.Shows fs ∧ later.records = filing.records ∧
        later.readers name = some ⟨reading, next (fs.perform op).1⟩ := by
  cases hstep with
  | change | begin | work | stop | learn => exact Or.inl hreader
  | answer =>
      left
      rw [readers_answer]
      exact hreader
  | read other hfree =>
      left
      have hother : name ≠ other := by
        rintro rfl
        cases hfree.symm.trans hreader
      exact (Function.update_of_ne hother ..).trans hreader
  | @look other _ op next fs hother hshows =>
      by_cases hname : name = other
      · subst hname
        cases hreader.symm.trans hother
        exact Or.inr ⟨op, next, fs, rfl, hshows, rfl, Function.update_self ..⟩
      · exact Or.inl ((Function.update_of_ne hname ..).trans hreader)

/-- At some moment of the way the record was this one. -/
def Passes (root : Path) (first last : Filing ι) (id : ExecutionId) (execution : StoredExecution) :
    Prop :=
  ∃ middle, Goes root first middle ∧ Goes root middle last ∧ middle.records id = some execution

/-- A reading that has begun comes forward through the records that are stored meanwhile. -/
theorem Sound.reads (h : first.Sound root) {name : ι} {reading : Reading}
    (hbegun : first.readers name = some (.begin root reading)) (hgoes : Goes root first last) :
    ∃ rest, last.readers name = some ⟨reading, rest⟩ ∧
      reading.Stage root last.records (Passes root first last reading.id) rest := by
  induction hgoes with
  | refl => exact ⟨_, hbegun, .begun⟩
  | @tail filing later hgoes hstep ih =>
      obtain ⟨rest, hreader, hstage⟩ := ih
      have hsound := h.goes hgoes
      have hpasses : ∀ execution, Passes root first filing reading.id execution →
          Passes root first later reading.id execution := by
        rintro execution ⟨middle, hbefore, hafter, hstored⟩
        exact ⟨middle, hbefore, hafter.tail hstep, hstored⟩
      obtain hsame | ⟨op, next, fs, rfl, hshows, hrecords, hlooked⟩ := hstep.readers_cases hreader
      · exact ⟨rest, hsame, hstage.carries (hsound.step hstep).carries hpasses⟩
      · refine ⟨_, hlooked, ?_⟩
        have hlook := hstage.look (hsound.holding hshows) hsound.orders
          (hsound.readers name _ hreader).1
            fun execution hstored => ⟨filing, hgoes, .refl, hstored⟩
        rw [hrecords]
        exact hlook.carries (.refl _) hpasses

section

variable {call : StoreCall} {copy : ExecutionState} {after : StoredExecution}

theorem goes_turns {before : FileSystem → Prop} {landed : Except StoreError Unit → FileSystem → Prop}
    {rest : FileProgram (Except StoreError Unit)}
    (hturns : rest.Turns before (fun _ => False) landed filing.files)
    (hwriter : filing.writer = some ⟨call, copy, rest⟩) :
    Goes root filing { filing with
      files := (rest.run filing.files).2
      writer := some ⟨call, copy, .done (rest.run filing.files).1⟩
      records := call.land filing.records } := by
  induction rest generalizing filing with
  | done result => exact hturns.2.elim
  | step op next ih =>
      have hstep := @Step.work ι _ root filing _ _ _ _ hwriter
      unfold FileProgram.Turns at hturns
      split at hturns
      case isTrue hrename =>
        obtain ⟨-, result, hover, -⟩ := hturns
        rw [if_pos hrename] at hstep
        refine .single ?_
        simp only [FileProgram.run, hover] at hstep ⊢
        exact hstep
      case isFalse hother =>
        rw [if_neg hother] at hstep
        exact .head hstep (ih _ hturns.2 rfl)

/-- A call that is accepted and not stopped puts its record in place. -/
theorem Sound.goes_call (h : filing.Sound root) (hfree : filing.writer = none)
    (hasked : call.Asked filing.copies copy)
    (hverdict : call.verdict (filing.records call.id) = .ok after)
    (hlegible : after.Of Binary64.Legible) :
    Goes root filing { filing with
      files := (FileProgram.run (call.program root).run filing.files).2
      writer := none
      copies := copy :: filing.copies
      records := Function.update filing.records call.id (some after) } := by
  have houtcome := StoreCall.outcome_of_verdict hverdict
  have hland : call.land filing.records = Function.update filing.records call.id (some after) := by
    unfold StoreCall.land
    rw [houtcome]
  have hlands := h.files.lands hverdict hlegible
  have hok : (FileProgram.run (call.program root).run filing.files).1 = .ok () := by
    obtain ⟨-, hnone⟩ | ⟨hok, -⟩ := hlands.keeps.run
    · exact hnone.elim
    · exact hok
  let begun : Filing ι := { filing with writer := some (.begin root call copy) }
  have hbegin : filing.Step root begun := by
    refine .begin hasked hfree fun execution hexecution => ?_
    obtain rfl : after = execution := Except.ok.inj (houtcome.symm.trans hexecution)
    exact hlegible
  have hgoes := @goes_turns _ root begun _ _ _ _ _ _ hlands rfl
  rw [show begun.records = filing.records from rfl, hland, show begun.files = filing.files from rfl,
    hok] at hgoes
  have hanswer := @Step.answer ι _ root { begun with
    files := (FileProgram.run (call.program root).run filing.files).2
    writer := some ⟨call, copy, .done (.ok ())⟩
    records := Function.update filing.records call.id (some after) } call copy (.ok ()) rfl
  exact .head hbegin (.tail hgoes hanswer)

end

section

variable {name : ι} {reading : Reading} {execution now : StoredExecution}

/-- The next operation of a reading sees the files as they are. -/
theorem step_look (root : Path) {op : FileOp}
    {next : op.Reply → FileProgram (Except StoreError (Except EngineError (Option ExecutionState)))}
    (hreader : filing.readers name = some ⟨reading, .step op next⟩) :
    filing.Step root (filing.place name ⟨reading, next (filing.files.perform op).1⟩) :=
  .look hreader .whole

/-- The header of a record is read if its context is shallow. -/
theorem Sound.look_header (h : filing.Sound root)
    (hreader : filing.readers name = some (.begin root reading))
    (hstored : filing.records reading.id = some execution)
    (hshallow : execution.header.context.Shallow)
    (hwants : reading.wants execution.header.unsigned = true) :
    filing.Step root
      (filing.place name ⟨reading, (reading.rest root execution.header.unsigned).run⟩) := by
  have hseen := h.files.headerOf_read reading.id
  rw [hstored, seen, if_pos hshallow] at hseen
  unfold Reader.begin at hreader
  rw [reading.run_program] at hreader
  have hlook := step_look root hreader
  simp only [FileSystem.perform, hseen, hwants, if_true] at hlook
  exact hlook

theorem Sound.look_length (h : filing.Sound root) {header : ExecutionHeader}
    (hreader : filing.readers name = some ⟨reading, (reading.rest root header).run⟩)
    (hstored : filing.records reading.id = some now) (hshallow : now.header.context.Shallow)
    (hsome : now.log ≠ []) :
    filing.Step root
      (filing.place name ⟨reading, reading.readLogOf root header (FileStore.logOf now.log).length⟩) := by
  have hseen := h.files.headerOf_read reading.id
  rw [hstored, seen, if_pos hshallow] at hseen
  rw [reading.run_rest] at hreader
  have hlength : (FileStore.logOf now.log).length ≠ 0 := fun hzero =>
    hsome (logOf_eq_nil.mp (List.length_eq_zero_iff.mp hzero))
  have hlook := step_look root hreader
  simp only [FileSystem.perform, hseen, hlength, if_false] at hlook
  exact hlook

theorem Sound.look_log (h : filing.Sound root) {header : ExecutionHeader}
    (hreader : filing.readers name =
      some ⟨reading, reading.readLogOf root header (FileStore.logOf now.log).length⟩)
    (hstored : filing.records reading.id = some now) (hshallow : now.Shallow)
    (hsome : now.log ≠ []) :
    filing.Step root (filing.place name ⟨reading, .done (.ok (.ok (some
      (reading.take header ((now.log.map (·.unsigned)).filter (reading.start ≤ ·.sequence))))))⟩) := by
  obtain ⟨bytes, hread, hcut⟩ := h.files.read_log hstored hsome
  have hlog := readLog_logOf (h.files.legible _ _ hstored).log reading.start
  rw [if_pos hshallow.log, ← hcut] at hlog
  have hlook := step_look root hreader
  simp only [FileSystem.perform, hread, hlog, Except.map] at hlook
  exact hlook

end

end Filing

end WorkflowEngine
