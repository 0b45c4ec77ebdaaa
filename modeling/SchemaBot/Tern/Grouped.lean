import SchemaBot.Tern.Controls

/-!
# Grouped drives

With a deferred cutover, and always on Vitess, one engine call runs all tasks of a drive
(`pkg/tern/local_apply_grouped.go`), and one poll loop follows them.
-/

namespace SchemaBot

open Concurrent

/-! ## Resume state -/

section
variable (host : Host) (ctx : Ctx) (options : ApplyOptions) (apply : Apply) (tasks : List Task)
  (releaseAtCutoverBarrier : Bool) (loop : AtomicPollLoop)

def applyOperationIDForTasks : Except StoreError Nat :=
  match tasks.map (·.applyOperationId.getD 0) with
  | [] => .error ⟨"engine resume state has no apply operation", .unnamed⟩
  | id :: ids =>
    if 0 ∈ id :: ids then .error ⟨"task has no apply_operation_id for engine resume state", .unnamed⟩
    else if ids.all (· = id) then .ok id
    else .error ⟨"engine resume state spans multiple apply operations", .unnamed⟩

/-- `applyOperationIDForApplyTasks`: the operation of the tasks, or the apply's only one. -/
def applyOperationIDForApplyTasks : StoreMethod Nat :=
  if tasks = [] then do
    match ← Method.read fun s => s.operations.filter (·.applyId = apply.id) with
    | [op] => pure op.id
    | _ => throw ⟨"engine resume state has no tasks", .unnamed⟩
  else Method.lift (applyOperationIDForTasks tasks)

/-- `saveEngineResumeState` of the client. -/
def saveResumeState (rs : ResumeState) : StoreMethod Unit := do
  let id ← applyOperationIDForApplyTasks apply tasks
  saveEngineResumeState ctx id id rs.migrationContext (if rs.metadata = "" then "\x7b\x7d" else rs.metadata)

/-! ## What a poll writes to the tasks -/

def activeTaskProgressRank : TaskState → Option Nat
  | .pending => some 0
  | .waitingForDeploy => some 1
  | .running => some 2
  | .checksumming => some 3
  | .waitingForCutover => some 4
  | .cuttingOver => some 5
  | .revertWindow => some 6
  | _ => none

/-- `taskStateWithNoBackwardProgress`: a stale poll does not move a stored task back. -/
def taskStateWithNoBackwardProgress (stored engine : TaskState) : TaskState :=
  if stored.isTerminal then stored
  else if engine.isTerminal ∨ engine = .stopped ∨ engine = .failedRetryable then engine
  else if stored = .recovering ∧ engine = .waitingForCutover then engine
  else if stored = .running ∧ engine = .waitingForDeploy then engine
  else if stored = .stopped ∨ stored = .failedRetryable then stored
  else match activeTaskProgressRank engine, activeTaskProgressRank stored with
    | some e, some st => if e < st then stored else engine
    | _, _ => stored

/-- `writeShardProgress`. A lost lease ends the write-through, another error is logged. -/
def writeShardProgress (host : Host) (ctx : Ctx) (table : Task) (now : Nat) : List ShardProgress → StoreMethod Unit
  | [] => pure ()
  | sh :: shards =>
    if ctx.operationLease = none then pure ()
    else do
      let taskIdentifier ← Method.read host.newTaskIdentifier
      let written ← Method.outcome (upsertShardProgress ctx
        { taskIdentifier, applyId := table.applyId, applyOperationId := table.applyOperationId
          namespaceName := table.namespaceName, tableName := table.tableName, shard := sh.shard
          ddl := table.ddl, ddlAction := table.ddlAction, state := sh.state, progress := sh.progress
          createdAt := now, updatedAt := now })
      match written with
      | .error e =>
        if e.sentinel = .applyLeaseLost then pure () else writeShardProgress host ctx table now shards
      | .ok _ => writeShardProgress host ctx table now shards

def withTableProgress (retryableFailure : Bool) (task : Task) (tp : TableProgress) : Task :=
  { task with
    progress := { task.progress with
      rowsCopied := tp.progress.rowsCopied, rowsTotal := tp.progress.rowsTotal
      progressPercent := tp.progress.progressPercent, etaSeconds := tp.progress.etaSeconds
      checksumRowsChecked := tp.progress.checksumRowsChecked
      checksumRowsTotal := tp.progress.checksumRowsTotal, isInstant := tp.progress.isInstant }
    startedAt := task.startedAt <|> tp.startedAt
    completedAt := if retryableFailure then task.completedAt else task.completedAt <|> tp.completedAt }

def withAtomicState (now : Nat) (result : ProgressResult) (newState : TaskState) (task : Task) : Task :=
  { task with
    startedAt := if newState = .pending then task.startedAt else task.startedAt <|> some now
    completedAt := if result.state.isTerminal ∧ newState ≠ .failedRetryable then task.completedAt <|> some now
      else task.completedAt
    errorMessage := if result.state = .failed ∧ task.errorMessage = "" then progressFailureMessage result
      else task.errorMessage
    progress := if result.state = .completed then { task.progress with progressPercent := 100 }
      else task.progress }

def syncAtomicTaskProgress (host : Host) (ctx : Ctx) (result : ProgressResult) (isInstant : Bool)
    (tables : Task → Option TableProgress) (newState : TaskState) (now : Nat) : List Task → StoreMethod (List Task)
  | [] => pure []
  | task :: tasks => do
    if newState = .failedRetryable ∧ task.state.isTerminal = true then do
      let tasks ← syncAtomicTaskProgress host ctx result isInstant tables newState now tasks
      pure (task :: tasks)
    else do
      let task ← match tables task with
        | some tp => do
          let task := withTableProgress (newState = .failedRetryable) task tp
          writeShardProgress host ctx task now tp.shards
          pure task
        | none =>
          if isInstant then
            pure { task with progress := { task.progress with
              isInstant := true
              progressPercent := if result.state.isTerminal ∧ newState ≠ .failedRetryable then 100
                else task.progress.progressPercent } }
          else pure task
      let task := withAtomicState now result newState task
      let task ← transitionTaskState ctx task (taskStateWithNoBackwardProgress task.state newState)
      let tasks ← syncAtomicTaskProgress host ctx result isInstant tables newState now tasks
      pure (task :: tasks)

/-! ## What a poll writes to the apply -/

/-- `classifyOperationTasks`: nothing when the tasks do not belong to one operation, otherwise that operation, if
they belong to any. -/
def classifyOperationTasks : Option (Option Nat) :=
  match (tasks.map (·.applyOperationId.getD 0)).filter (· ≠ 0) with
  | [] => some none
  | id :: ids =>
    if ids.all (· = id) ∧ tasks.all (·.applyOperationId.getD 0 ≠ 0) then some (some id) else none

/-- `deriveAggregateApplyState`: nothing when the projection is not known and the tasks are over. -/
def deriveAggregateApplyState : DriveMethod (Option ApplyState) := do
  let current := deriveApplyState (taskStates tasks)
  let failClosed := if current.isTerminal then none else some current
  match classifyOperationTasks tasks with
  | none => pure failClosed
  | some none => pure (some current)
  | some (some operationId) => do
    let ops ← Method.read fun w =>
      if w.fails .siblings then [] else w.store.operations.filter (·.applyId = apply.id)
    if ops.all (·.id ≠ operationId) then pure failClosed
    else pure (some (deriveRolloutApplyState (ops.map fun op =>
      { state := if op.id = operationId then current else op.state
        continueOnFailure := op.onFailure = .continue, pauseOnFailure := false })))

def ensureApplyFailureMessage : Apply :=
  if apply.errorMessage = "" ∧ (apply.state = .failed ∨ apply.state = .failedRetryable) then
    { apply with errorMessage := clientFirstFailedTaskError tasks }
  else apply

/-- `applyQuiesceDecision`: the drive ends, and is it a pause, and is it the end of the apply. -/
def applyQuiesceDecision (projected : ApplyState) : Bool × Bool × Bool :=
  let retryablePause : Bool := projected = .failedRetryable
  let quiesce := projected.isTerminal || retryablePause
  (quiesce, retryablePause, quiesce && !(retryablePause || projected = .stopped))

/-- `Applies().UpdateDerivedState`. -/
def updateDerivedParent (expected : ApplyState) : DriveMethod Bool := do
  callParent (.updateDerivedState apply.id)
  onStore (updateDerivedState ctx apply.id expected apply.state apply.errorMessage apply.startedAt
    apply.completedAt)

def markRevertSkipped : DriveMethod Unit := do
  callParent (.setRevertSkipped apply.id)
  let now ← onStore (Method.read (·.now))
  Method.attempt (onStore (setRevertSkipped ctx apply.id now))

structure AtomicPollState where
  lastTaskState : Option TaskState := none
  stateEnteredAt : Nat := 0
  revertSkipped : Bool := false
  consecutiveErrors : Nat := 0

def skipRevertWindow (now : Nat)
    (result : ProgressResult) (deployedAt : Option Nat) (skipRevert : Bool) (ps : AtomicPollState) :
    DriveMethod AtomicPollState :=
  if result.state = .revertWindow ∧ ps.revertSkipped = false ∧
      (options.skipRevert = true ∨ deployedAt.getD ps.stateEnteredAt + host.revertWindowDuration < now) then do
    if skipRevert then markRevertSkipped ctx apply else pure ()
    pure { ps with revertSkipped := true }
  else pure ps

def markTasklessOperationState (opState : ApplyState) (errorMessage : String) : StoreMethod Unit := do
  let id ← applyOperationIDForApplyTasks apply []
  match opState with
  | .completed => markCompleted ctx id
  | .failed => markFailed ctx id errorMessage
  | .failedRetryable | .waitingForCutover => updateState ctx id opState
  | _ => if opState.isTerminal then markTerminal ctx id opState else pure ()

def settleOperation (newState : TaskState) (errorMessage : String)
    (releaseAtCutoverBarrier : Bool) : StoreMethod Bool := do
  let opState := if tasks = [] then deriveApplyState [newState.toApply] else deriveApplyState (taskStates tasks)
  let settled := opState.isTerminal || opState = .failedRetryable
  let marked ←
    if tasks = [] ∧ (settled = true ∨ opState = .waitingForCutover) then
      Method.outcome (markTasklessOperationState ctx apply opState errorMessage)
    else pure (.ok ())
  match marked with
  | .error _ => pure true
  | .ok () => pure (settled || (releaseAtCutoverBarrier && opState = .waitingForCutover))

def Apply.asQuiesced (result : ProgressResult) (now : Nat) (stamp : Bool) : Apply :=
  ensureApplyFailureMessage
    { apply with
      completedAt := if stamp then some now else none
      errorMessage := if result.state = .failed ∧ progressFailureMessage result ≠ "" then
        progressFailureMessage result else apply.errorMessage } tasks

def projectTasks (newState : TaskState) (result : ProgressResult)
    (now : Nat) (releaseAtCutoverBarrier : Bool) : DriveMethod (Bool × Apply) := do
  let derived ← if tasks = [] then pure (some (deriveApplyState [newState.toApply]))
    else deriveAggregateApplyState apply tasks
  let apply := { apply with state := derived.getD apply.state }
  match ← onStore (Method.read (·.getApply apply.id)) with
  | none => pure (true, apply)
  | some fresh =>
    if fresh.state.isTerminal then do
      onStore (completePending ctx fresh.id .stop)
      pure (true, fresh)
    else
      let (quiesce, retryablePause, stamp) := applyQuiesceDecision apply.state
      if quiesce then do
        let apply := apply.asQuiesced tasks result now stamp
        match ← Method.outcome (updateDerivedParent ctx apply fresh.state) with
        | .ok false => pure (true, apply)
        | _ => do
          onStore (completePending ctx apply.id .stop)
          if retryablePause then pure () else notifyTerminalObserver apply
          pure (true, apply)
      else do
        match ← Method.outcome (updateDerivedParent ctx apply fresh.state) with
        | .ok false => pure (false, apply)
        | _ =>
          let opState := deriveApplyState (taskStates tasks)
          pure (opState.isTerminal || opState = .failedRetryable ||
            (releaseAtCutoverBarrier && opState = .waitingForCutover), apply)

/-! ## The poll loop -/

def maxProgressErrors : Nat := 10

structure AtomicPollLoop where
  apply : Apply
  tasks : List Task
  resumeState : Option ResumeState
  ps : AtomicPollState := {}

def savePolledResumeState (newResumeState : Option ResumeState) : StoreMethod (Except StoreError Unit) :=
  match loop.resumeState, newResumeState with
  | some _, some rs =>
    if host.databaseType = databaseTypeVitess then
      Method.outcome (saveResumeState ctx loop.apply loop.tasks rs)
    else pure (.ok ())
  | _, _ => pure (.ok ())

def handleAtomicReport (result : ProgressResult) (isInstant : Bool) (deployedAt : Option Nat)
    (tables : Task → Option TableProgress) (skipRevert : Bool) : DriveMethod (Option AtomicPollLoop) := do
  let now ← onStore (Method.read (·.now))
  let newState := taskStateFromProgressResult result
  let ps := { loop.ps with
    consecutiveErrors := 0, lastTaskState := some newState
    stateEnteredAt := if loop.ps.lastTaskState = some newState then loop.ps.stateEnteredAt else now }
  let tasks ← onStore (syncAtomicTaskProgress host ctx result isInstant tables newState now loop.tasks)
  let (handled, apply) ← processPendingStopControlRequest host ctx loop.apply
  if handled then pure none
  else do
    let apply ← processPendingCutoverControlRequest host ctx apply
    let ps ← skipRevertWindow host ctx options apply now result deployedAt skipRevert ps
    let (done, apply) ←
      if suppressParentApplyWrites ctx then do
        let done ← onStore (settleOperation ctx apply tasks newState result.errorMessage releaseAtCutoverBarrier)
        pure (done, apply)
      else projectTasks ctx apply tasks newState result now releaseAtCutoverBarrier
    pure (if done then none else some { loop with apply, tasks, ps })

def handleAtomicProgressTick (poll : AtomicPoll) : DriveMethod (Option AtomicPollLoop) := do
  let (handled, apply) ← processPendingStopControlRequest host ctx loop.apply
  let loop := { loop with apply }
  if handled then pure none
  else match poll with
    | .permanent message => do
      failApplyWithTasks ctx apply loop.tasks ("progress polling failed: " ++ message)
      pure none
    | .transient message retryable => do
      let consecutiveErrors := loop.ps.consecutiveErrors + 1
      if maxProgressErrors ≤ consecutiveErrors then do
        let errMsg := "progress polling failed after " ++ toString consecutiveErrors ++
          " consecutive errors: " ++ message
        if host.shouldRetryEngineError retryable then markApplyRetryableWithTasks ctx apply loop.tasks errMsg
        else failApplyWithTasks ctx apply loop.tasks errMsg
        pure none
      else pure (some { loop with ps.consecutiveErrors := consecutiveErrors })
    | .report result newResumeState isInstant deployedAt tables skipRevert => do
      match ← onStore (savePolledResumeState host ctx loop newResumeState) with
      | .error e => do
        markApplyRetryableWithTasks ctx apply loop.tasks
          ("failed to save engine resume state from progress polling: " ++ e.message)
        pure none
      | .ok _ =>
        let resumeState := loop.resumeState.map newResumeState.getD
        handleAtomicReport host ctx options releaseAtCutoverBarrier { loop with resumeState } result isInstant
          deployedAt tables skipRevert

/-- `pollForCompletionAtomic`, over what the polls see. -/
def pollForCompletionAtomic (host : Host) (ctx : Ctx) (options : ApplyOptions) (releaseAtCutoverBarrier : Bool)
    (loop : AtomicPollLoop) : List AtomicPoll → DriveMethod Unit
  | [] => pure ()
  | poll :: polls => do
    match ← handleAtomicProgressTick host ctx options releaseAtCutoverBarrier loop poll with
    | none => pure ()
    | some loop => pollForCompletionAtomic host ctx options releaseAtCutoverBarrier loop polls

/-! ## A queued apply -/

/-- The callbacks of `engine.Apply`. A phase that could not be written is forgotten again. -/
def handleEngineEvents (ctx : Ctx) (tasks : List Task) (apply : Apply) : List EngineEvent → DriveMethod Apply
  | [] => pure apply
  | .phase newState :: events =>
    if newState = apply.state then handleEngineEvents ctx tasks apply events
    else do
      let written ← Method.outcome (updateParent ctx { apply with state := newState })
      handleEngineEvents ctx tasks
        (if written.toBool then { apply with state := newState } else apply) events
  | .stateChange rs :: events => do
    Method.attempt (onStore (saveResumeState ctx apply tasks rs))
    handleEngineEvents ctx tasks apply events

def isTasklessVSchemaOnlyPlan (plan : Plan) : Bool :=
  tasks.isEmpty && plan.flatDDLChanges.isEmpty && plan.namespaces.any (·.2.vschema ≠ "")

def completeTasklessGroupedApply : DriveMethod Unit :=
  if suppressParentApplyWrites ctx then onStore do
    let id ← applyOperationIDForApplyTasks apply []
    markCompleted ctx id
  else do
    let now ← onStore (Method.read (·.now))
    let apply := { apply with state := .completed, completedAt := some now }
    updateParent ctx apply
    notifyTerminalObserver apply

/-- The end of `executeGroupedApply`: tasks and apply are running, and the drive polls. -/
def launchGroupedApply (apply : Apply) (tasks : List Task) (resumeState : Option ResumeState) (isInstant : Bool) :
    DriveMethod Unit := do
  let tasks := if isInstant then tasks.map fun t => { t with progress.isInstant := true } else tasks
  let tasks ← onStore (markTasksRunning ctx tasks)
  let apply := { apply with
    state := if host.databaseType = databaseTypeVitess then .validatingDeployRequest else .running }
  Method.attempt (updateParent ctx apply)
  pollForCompletionAtomic host ctx options releaseAtCutoverBarrier { apply, tasks, resumeState }
    (host.atomicPolls apply tasks)

/-- `executeGroupedApply`: one engine call for all tasks. -/
def executeGroupedApply (n : Nat) (ctx : Ctx) (apply : Apply) (tasks : List Task)
    (plan : Plan) (options : ApplyOptions) (releaseAtCutoverBarrier : Bool) : DriveMethod Unit := do
  startApplyHeartbeat apply
  if plan.namespaces = [] then failApplyWithTasks ctx apply tasks "plan has no namespace data"
  else if host.databaseType = databaseTypeMySQL ∧ 1 < plan.namespaces.length then
    failApplyWithTasks ctx apply tasks "MySQL applies support one namespace per apply"
  else match host.credentialsForGroupedApply plan with
    | .error errMsg => failApplyWithTasks ctx apply tasks errMsg
    | .ok () => do
      let apply ← markApplyStarted ctx apply
      let (handled, apply) ← processPendingStopControlRequest host ctx apply
      if handled then pure ()
      else do
        callEngine n (groupedRequest tasks plan { migrationContext := apply.applyIdentifier })
        let (events, reply) := host.engineApply tasks
        let apply ← handleEngineEvents ctx tasks apply events
        match reply with
        | .failed errMsg retryable =>
          if host.shouldRetryEngineError retryable then markApplyRetryableWithTasks ctx apply tasks errMsg
          else failApplyWithTasks ctx apply tasks errMsg
        | .rejected errMsg => failApplyWithTasks ctx apply tasks errMsg
        | .accepted resumeState isInstant =>
          if isTasklessVSchemaOnlyPlan tasks plan then Method.attempt (completeTasklessGroupedApply ctx apply)
          else if host.databaseType = databaseTypeVitess then
            match resumeState with
            | none => failApplyWithTasks ctx apply tasks "engine accepted Vitess apply without resume state"
            | some rs => do
              let saved ← onStore (Method.outcome (saveResumeState ctx apply tasks rs))
              if saved.toBool then
                launchGroupedApply host ctx options releaseAtCutoverBarrier apply tasks resumeState isInstant
              else failApplyWithTasks ctx apply tasks "failed to save engine resume state"
          else launchGroupedApply host ctx options releaseAtCutoverBarrier apply tasks resumeState isInstant

end

/-! ## Polls do not move a task back -/

/-- The state of a task after a run of polls. -/
def afterPolls (stored : TaskState) (polls : List TaskState) : TaskState :=
  polls.foldl taskStateWithNoBackwardProgress stored

/-- What one poll makes of a task that is not recovering. -/
theorem progress_poll {s : TaskState} (hs : s ≠ .recovering) (e : TaskState) :
    taskStateWithNoBackwardProgress s e ≠ .recovering ∧
    (activeTaskProgressRank s = none → activeTaskProgressRank (taskStateWithNoBackwardProgress s e) = none) ∧
    ∀ r ∈ activeTaskProgressRank s, ∀ r' ∈ activeTaskProgressRank (taskStateWithNoBackwardProgress s e),
      r ≤ r' ∨ s = .running ∧ e = .waitingForDeploy := by
  revert hs
  cases s <;> cases e <;> decide

theorem progress_polls {s : TaskState} (hs : s ≠ .recovering) (polls : List TaskState) :
    (activeTaskProgressRank s = none → activeTaskProgressRank (afterPolls s polls) = none) ∧
    ∀ r ∈ activeTaskProgressRank s, ∀ r' ∈ activeTaskProgressRank (afterPolls s polls),
      r ≤ r' ∨ ∃ before after, polls = before ++ .waitingForDeploy :: after ∧ afterPolls s before = .running := by
  induction polls generalizing s with
  | nil => exact ⟨id, fun r hr r' hr' => .inl (Option.mem_unique hr hr').le⟩
  | cons e polls ih =>
    obtain ⟨hne, hnone, hstep⟩ := progress_poll hs e
    obtain ⟨ihnone, ih⟩ := ih hne
    refine ⟨fun h => ihnone (hnone h), fun r hr r' hr' => ?_⟩
    cases h₁ : activeTaskProgressRank (taskStateWithNoBackwardProgress s e) with
    | none => exact absurd ((ihnone h₁).symm.trans hr') (by simp)
    | some r₁ =>
      rcases hstep r hr r₁ h₁ with hle | ⟨rfl, rfl⟩
      · rcases ih r₁ h₁ r' hr' with hle' | ⟨before, after, rfl, hrun⟩
        · exact .inl (hle.trans hle')
        · exact .inr ⟨e :: before, after, rfl, hrun⟩
      · exact .inr ⟨[], polls, rfl, rfl⟩

/-- No run of polls leads out of a terminal state, from a stopped or retryable one into a ranked one, or to a lower
rank, unless one of them reports that a running task waits for its deploy. -/
theorem progress_not_backward (stored : TaskState) (polls : List TaskState) :
    (stored.isTerminal = true → afterPolls stored polls = stored) ∧
    (stored = .stopped ∨ stored = .failedRetryable → activeTaskProgressRank (afterPolls stored polls) = none) ∧
    ∀ r ∈ activeTaskProgressRank stored, ∀ r' ∈ activeTaskProgressRank (afterPolls stored polls),
      r ≤ r' ∨ ∃ before after,
        polls = before ++ .waitingForDeploy :: after ∧ afterPolls stored before = .running := by
  refine ⟨fun h => ?_, ?_, fun r hr => (progress_polls (by grind [activeTaskProgressRank]) polls).2 r hr⟩
  · induction polls with
    | nil => rfl
    | cons e polls ih => rwa [afterPolls, List.foldl_cons, taskStateWithNoBackwardProgress, if_pos h]
  · rintro (rfl | rfl) <;> exact (progress_polls (by decide) polls).1 rfl

/-! ## Terminal aggregates -/

/-- A drive derives a terminal state from tasks without an operation that are over, or from all operations of the
apply, its own among them, if their rollout is over. -/
theorem aggregate_terminal_iff (apply : Apply) (tasks : List Task) (w : Site) :
    (∃ st, ((deriveAggregateApplyState apply tasks).call w).2 = .ok (some st) ∧ st.isTerminal = true) ↔
      classifyOperationTasks tasks = some none ∧ (deriveApplyState (taskStates tasks)).isTerminal = true ∨
      ∃ id, classifyOperationTasks tasks = some (some id) ∧ w.fails .siblings = false ∧
        (∃ op ∈ w.store.operations, op.applyId = apply.id ∧ op.id = id) ∧
        RolloutOver ((w.store.operations.filter (·.applyId = apply.id)).map fun op =>
          { state := if op.id = id then deriveApplyState (taskStates tasks) else op.state
            continueOnFailure := op.onFailure = .continue, pauseOnFailure := false }) := by
  -- an unknown projection is never terminal
  have hclosed (st : ApplyState) : (if (deriveApplyState (taskStates tasks)).isTerminal = true then none
      else some (deriveApplyState (taskStates tasks))) = some st → ¬ st.isTerminal = true := by grind
  unfold deriveAggregateApplyState
  cases hclass : classifyOperationTasks tasks with
  | none => grind [Method.call_pure]
  | some operation =>
    cases operation with
    | none => grind [Method.call_pure]
    | some id =>
      rw [Method.call_bind_ok (Method.call_read _ w)]
      by_cases hread : w.fails .siblings = true
      · grind [Method.call_pure]
      · simp only [hread, Bool.false_eq_true, if_false]
        have hown : (w.store.operations.filter (·.applyId = apply.id)).all (·.id ≠ id) = true ↔
            ¬ ∃ op ∈ w.store.operations, op.applyId = apply.id ∧ op.id = id := by
          simp [imp_iff_not_or]
        split
        · grind [Method.call_pure]
        · rename_i hall
          obtain ⟨op, hop, happly, hid⟩ := not_not.1 (mt hown.2 hall)
          have hover := @deriveRolloutApplyState_isTerminal
            ((w.store.operations.filter (·.applyId = apply.id)).map fun op =>
              { state := if op.id = id then deriveApplyState (taskStates tasks) else op.state
                continueOnFailure := op.onFailure = .continue, pauseOnFailure := false })
            (List.ne_nil_of_mem (List.mem_map_of_mem (List.mem_filter.2 ⟨hop, by simpa using happly⟩)))
            (by grind)
          grind [Method.call_pure]

/-- A failed operation ends the apply while another one runs. -/
theorem aggregate_failed_over_running :
    ((deriveAggregateApplyState { id := 1 } [{ applyId := 1, applyOperationId := some 1, state := .failed }]).call
      { store := { operations := [{ id := 1, applyId := 1, deployment := "a", state := .running },
        { id := 2, applyId := 1, deployment := "b", state := .running }] } }).2 = .ok (some .failed) := by
  decide +kernel

end SchemaBot
