import SchemaBot.Tern.Grouped
import SchemaBot.Tern.Sequential

/-!
# Starting and resuming drives

An operator that has claimed an operation, or a whole apply, calls `ResumeApplyOperation`,
`ResumeApplyOperationCutover` or `ResumeApply` (`pkg/tern/local_control_resume.go`).
-/

namespace SchemaBot

open Concurrent

/-! ## Starting a drive -/

section
variable (host : Host) (n : Nat) (ctx : Ctx) (apply : Apply) (tasks : List Task) (plan : Plan)
  (options : ApplyOptions) (startRequested releaseAtCutoverBarrier : Bool)

def usesGroupedApply (deferCutover : Bool) : Bool :=
  apply.databaseType = databaseTypeVitess ||
    (apply.databaseType = databaseTypeMySQL && deferCutover)

def runApplyExecution (releaseAtCutoverBarrier : Bool) : DriveMethod Unit :=
  if usesGroupedApply apply options.deferCutover then
    executeGroupedApply host n ctx apply tasks plan options releaseAtCutoverBarrier
  else executeApplySequential host n ctx apply tasks

/-! ## A pending start -/

def ApplyOperation.resumeState (op : ApplyOperation) : Option ResumeState :=
  if op.engineResumeMetadata = "" then none
  else some { migrationContext := op.engineResumeContext, metadata := op.engineResumeMetadata }

def Store.loadEngineResumeState (s : Store) (task : Task) : Option ResumeState :=
  (s.operations.find? (some ·.id = task.applyOperationId)).bind (·.resumeState)

/-- `startDeferredDeploy`: the tasks of the apply and the resume state of the request, once the engine has
accepted the start. -/
def startDeferredDeploy : StoreMethod (Except String (List Task × Option ResumeState)) := do
  match ← Method.read (·.getByApplyID apply.id) with
  | [] => pure (.error ("no tasks found for apply " ++ apply.applyIdentifier))
  | task :: tasks => do
    let resumeState ← Method.read (·.loadEngineResumeState task)
    if host.databaseType = databaseTypeVitess ∧ resumeState.isNone = true then
      pure (.error ("load Vitess engine resume state for task " ++ task.taskIdentifier))
    else match host.engineStart task with
      | .failed message => pure (.error ("start deferred deploy: " ++ message))
      | .rejected message => pure (.error ("deferred deploy not accepted: " ++ message))
      | .accepted =>
        pure (.ok (task :: tasks, if host.databaseType = databaseTypeVitess then resumeState else none))

/-- `processPendingStartControlRequest`: whether a start was handled. -/
def processPendingStartControlRequest (releaseAtCutoverBarrier : Bool) : DriveMethod Bool := do
  if (← onStore (Method.read (·.hasPending apply.id .start))) = false then pure false
  else if ← onStore (Method.read (·.hasPending apply.id .stop)) then pure false
  else if apply.state ≠ .waitingForDeploy then pure false
  else match ← onStore (startDeferredDeploy host apply) with
    | .error message => do
      onStore (failPending ctx apply.id .start message)
      throw ⟨"process pending start for apply " ++ apply.applyIdentifier ++ ": " ++ message, .unnamed⟩
    | .ok (tasks, resumeState) => do
      let now ← onStore (Method.read (·.now))
      let apply := { apply with state := .running, startedAt := apply.startedAt <|> some now }
      updateParent ctx apply
      onStore (completePending ctx apply.id .start)
      pollForCompletionAtomic host ctx options releaseAtCutoverBarrier { apply, tasks, resumeState }
        (host.atomicPolls apply tasks)
      pure true

/-! ## Resuming a grouped apply -/

/-- How `launchAtomicResume` fails: without a usable resume state, or in another way. -/
inductive ResumeFailure
  | unavailable (message : String)
  | other (message : String) (retryable : Bool)

/-- The task loop of `markApplyRecovering`. -/
def markTasksRecovering (ctx : Ctx) : List Task → StoreMethod (List Task)
  | [] => pure []
  | task :: tasks => do
    let task ← if task.state.isTerminal then pure task else transitionTaskState ctx task .recovering
    let tasks ← markTasksRecovering ctx tasks
    pure (task :: tasks)

def markApplyRecovering : DriveMethod (Apply × List Task) := do
  let tasks ← onStore (markTasksRecovering ctx tasks)
  let apply := { apply with state := .recovering, completedAt := none }
  if suppressParentApplyWrites ctx then pure () else updateParent ctx apply
  pure (apply, tasks)

/-- `groupedResumeState`. A store that cannot say whether there is engine work fails the attempt. -/
def groupedResumeState : StoreMethod (Except ResumeFailure ResumeState) := do
  let contextOnly : ResumeState := { migrationContext := apply.applyIdentifier }
  match ← Method.outcome (applyOperationIDForApplyTasks apply tasks) with
  | .error e =>
    if host.databaseType = databaseTypeVitess then
      pure (.error (.unavailable ("grouped resume state unavailable: " ++ e.message)))
    else pure (.ok contextOnly)
  | .ok id =>
    match ← Method.read fun s => s.operations.find? (·.id = id) with
    | none => pure (.error (.unavailable "grouped resume state unavailable: load engine resume state"))
    | some op => pure (.ok (op.resumeState.elim contextOnly fun stored =>
        if stored.migrationContext = "" then { stored with migrationContext := apply.applyIdentifier }
        else stored))

/-- `OnStateChange` of a resumed apply; the other callback is not set. -/
def saveStateChanges (ctx : Ctx) (apply : Apply) (tasks : List Task) : List EngineEvent → StoreMethod Unit
  | [] => pure ()
  | .phase _ :: events => saveStateChanges ctx apply tasks events
  | .stateChange rs :: events => do
    Method.attempt (saveResumeState ctx apply tasks rs)
    saveStateChanges ctx apply tasks events

def markTasksResumed (ctx : Ctx) (newState : TaskState) : List Task → StoreMethod (List Task)
  | [] => pure []
  | task :: tasks => do
    let task ← transitionTaskState ctx task newState
    let tasks ← markTasksResumed ctx newState tasks
    pure (task :: tasks)

def acceptedResumeState (resumeState : ResumeState)
    (returned : Option ResumeState) : StoreMethod (Except ResumeFailure ResumeState) := do
  let current := returned.getD resumeState
  let saved ← if returned.isSome = true ∧ host.databaseType = databaseTypeVitess then
      Method.outcome (saveResumeState ctx apply tasks current)
    else pure (.ok ())
  match saved with
  | .error e => pure (.error (.unavailable ("grouped resume state unavailable: save: " ++ e.message)))
  | .ok _ =>
    if host.databaseType = databaseTypeVitess ∧ current.metadata = "" then
      pure (.error (.unavailable "grouped resume state unavailable: no metadata"))
    else pure (.ok current)

/-- The end of `launchAtomicResume`: tasks and apply go on, and the drive polls. -/
def followAtomicResume (resumeState : ResumeState) : DriveMethod (Option ResumeFailure) := do
  let suppressParent := suppressParentApplyWrites ctx
  let recovering : Bool := apply.state = .recovering
  let tasks ← onStore (markTasksResumed ctx (if recovering then .recovering else .running) tasks)
  let apply := { apply with state := if recovering then .recovering else .running }
  let written ← if suppressParent then pure (.ok ()) else Method.outcome (updateParent ctx apply)
  match written with
  | .error e => pure (some (.other ("mark grouped resume apply: " ++ e.message) false))
  | .ok _ => do
    let completed ← if startRequested && !suppressParent then
        onStore (Method.outcome (completePending ctx apply.id .start))
      else pure (.ok ())
    match completed with
    | .error e => pure (some (.other e.message false))
    | .ok _ => do
      if suppressParent then pure () else startApplyHeartbeat apply
      pollForCompletionAtomic host ctx options releaseAtCutoverBarrier
        { apply, tasks, resumeState := some resumeState } (host.atomicPolls apply tasks)
      pure none

/-- The final schema check of `launchAtomicResume` has found nothing left to do. -/
def completeResumedApply (startRequested : Bool) : DriveMethod (Option ResumeFailure) := do
  let now ← onStore (Method.read (·.now))
  let apply := { apply with state := .completed, completedAt := some now }
  if suppressParentApplyWrites ctx then pure none
  else match ← Method.outcome (updateParent ctx apply) with
    | .error e => pure (some (.other ("mark grouped resume apply completed: " ++ e.message) false))
    | .ok _ => do
      let completed ← if startRequested then onStore (Method.outcome (completePending ctx apply.id .start))
        else pure (.ok ())
      match completed with
      | .error e => pure (some (.other e.message false))
      | .ok _ => do
        notifyTerminalObserver apply
        pure none

/-- The engine call of `launchAtomicResume`, with the tasks that are left. -/
def callAtomicResume : DriveMethod (Option ResumeFailure) := do
  match ← onStore (groupedResumeState host apply tasks) with
  | .error failure => pure (some failure)
  | .ok resumeState => do
    callEngine n (groupedRequest tasks plan resumeState)
    let (events, reply) := host.engineApply tasks
    onStore (saveStateChanges ctx apply tasks events)
    match reply with
    | .failed message retryable => pure (some (.other ("engine apply failed: " ++ message) retryable))
    | .rejected message => pure (some (.other ("engine did not accept apply: " ++ message) false))
    | .accepted returned _ =>
      match ← onStore (acceptedResumeState host ctx apply tasks resumeState returned) with
      | .error failure => pure (some failure)
      | .ok resumeState =>
        followAtomicResume host ctx apply tasks options startRequested releaseAtCutoverBarrier resumeState

/-- `launchAtomicResume` of an operator's drive, which polls to the end: the tasks as they are held afterwards,
as far as their outcome is known, and how it fails, if it does. -/
def launchAtomicResume : DriveMethod (List Task × Option ResumeFailure) := do
  match host.credentialsForGroupedApply plan with
  | .error message =>
    pure (tasks, some (.other ("resolve credentials for grouped resume: " ++ message) false))
  | .ok () => do
    let replanOut ← onStore (Method.read host.planWithEngine)
    match ← onStore (Method.outcome (replanAndFilterTasks replanOut ctx tasks)) with
    | .error e =>
      pure (tasks, some (.other ("final schema check before grouped resume: " ++ e.message) false))
    | .ok (rp, tasks) => do
      let failure ← if rp.activeTasks = [] then completeResumedApply ctx apply startRequested
        else callAtomicResume host n ctx apply rp.activeTasks plan options startRequested releaseAtCutoverBarrier
      pure (tasks, failure)

def handleGroupedResumeFailure (errMsg : String) (retryable startRequested : Bool) : DriveMethod Unit := do
  if host.shouldRetryEngineError retryable then markApplyRetryableWithTasks ctx apply tasks errMsg
  else do
    failApplyWithTasks ctx apply tasks errMsg
    if startRequested then onStore (failPending ctx apply.id .start errMsg) else pure ()
    notifyTerminalObserver apply
    throw ⟨errMsg, .unnamed⟩

def resumeGrouped : DriveMethod Unit := do
  match ← launchAtomicResume host n ctx apply tasks plan options startRequested releaseAtCutoverBarrier with
  | (_, none) => pure ()
  | (_, some (.unavailable message)) => throw ⟨message, .unnamed⟩
  | (tasks, some (.other message retryable)) =>
    handleGroupedResumeFailure host ctx apply tasks message retryable startRequested

/-! ## Resuming an apply -/

def prepareRetryableTasksForResume (ctx : Ctx) (apply : Apply) : List Task → StoreMethod (List Task)
  | [] => pure []
  | task :: tasks => do
    let task ← if apply.state = .failedRetryable ∧ task.state = .failedRetryable then
        transitionTaskState ctx
          { task with attempt := task.attempt + 1, errorMessage := "", completedAt := none } .pending
      else pure task
    let tasks ← prepareRetryableTasksForResume ctx apply tasks
    pure (task :: tasks)

def prepareStoppedTasksForResume (ctx : Ctx) (startRequested : Bool) : List Task → StoreMethod (List Task)
  | [] => pure []
  | task :: tasks => do
    let task ← if startRequested = true ∧ task.state = .stopped then
        transitionTaskState ctx { task with completedAt := none } .pending
      else pure task
    let tasks ← prepareStoppedTasksForResume ctx startRequested tasks
    pure (task :: tasks)

def shouldInspectCutoverSignalForResume (forceCutoverResume : Bool) : Bool :=
  ((apply.options.getD {}).deferCutover || forceCutoverResume) &&
    (apply.state = .waitingForCutover || apply.state = .recovering)

def failResume (errorMessage : String) : DriveMethod Unit := do
  let apply := { apply with state := .failed, errorMessage }
  Method.attempt (updateParent ctx apply)
  notifyTerminalObserver apply

def completeResume (startRequested : Bool) : DriveMethod Unit := do
  let now ← onStore (Method.read (·.now))
  let apply := { apply with state := .completed, completedAt := some now }
  Method.attempt (updateParent ctx apply)
  if startRequested then onStore (completePending ctx apply.id .start) else pure ()
  notifyTerminalObserver apply

end

section
variable (host : Host) (n : Nat) (ctx : Ctx) (apply : Apply) (tasks : List Task)

/-- The end of `resumeApplyWithTasks`: the tasks that are left go on, in the mode of the apply. -/
def resumeActiveTasks (plan : Plan)
    (options : ApplyOptions) (startRequested releaseAtCutoverBarrier : Bool) : DriveMethod Unit := do
  let tasks ← onStore (prepareRetryableTasksForResume ctx apply tasks)
  let apply := if apply.state = .failedRetryable then { apply with errorMessage := "" } else apply
  let tasks ← onStore (prepareStoppedTasksForResume ctx startRequested tasks)
  if usesGroupedApply apply options.deferCutover then
    resumeGrouped host n ctx apply tasks plan options startRequested releaseAtCutoverBarrier
  else do
    let apply := { apply with state := .running }
    updateParent ctx apply
    if startRequested then onStore (completePending ctx apply.id .start) else pure ()
    resumeApplySequential host n ctx apply tasks

def recoverStarted (plan : Plan)
    (options : ApplyOptions) (releaseAtCutoverBarrier forceCutoverResume : Bool) : DriveMethod Unit := do
  let signal ← if shouldInspectCutoverSignalForResume apply forceCutoverResume then
      onStore (Method.read host.deferredCutoverSignalExists)
    else pure (.ok (false, false))
  match signal with
  | .error message => throw ⟨"verify engine cutover signal before recovering deferred cutover apply: " ++ message,
      .unnamed⟩
  | .ok (true, true) => do
    let (apply, tasks) ← markApplyRecovering ctx apply tasks
    resumeGrouped host n ctx apply tasks plan options false releaseAtCutoverBarrier
  | .ok (_, supported) => do
    let replanOut ← onStore (Method.read host.planWithEngine)
    let (rp, _) ← onStore (replanAndFilterTasks replanOut ctx tasks)
    if supported = true ∧ rp.activeTasks ≠ [] then do
      failApplyWithTasks ctx apply rp.activeTasks
        "deferred cutover signal is absent but live schema does not match desired schema; manual reconciliation required"
      notifyTerminalObserver apply
    else do
      let startRequested ← onStore (Method.read (·.hasPending apply.id .start))
      if rp.activeTasks = [] then completeResume ctx apply startRequested
      else resumeActiveTasks host n ctx apply rp.activeTasks plan options startRequested releaseAtCutoverBarrier

/-- `resumeApplyWithTasks`: a queued apply is dispatched, a started one is recovered. -/
def resumeApplyWithTasks
    (options : ApplyOptions) (releaseAtCutoverBarrier forceCutoverResume : Bool) : DriveMethod Unit := do
  let (handled, apply) ← processPendingStopControlRequest host ctx apply
  if handled then pure ()
  else match host.plan apply with
    | none => failResume ctx apply "plan not found during recovery"
    | some plan =>
      if tasks = [] ∧ isTasklessVSchemaOnlyPlan tasks plan = false then
        failResume ctx apply "no tasks found during recovery"
      else if ← processPendingStartControlRequest host ctx apply options releaseAtCutoverBarrier then pure ()
      else if apply.state = .pending ∧ apply.startedAt = none then
        runApplyExecution host n ctx apply tasks plan options releaseAtCutoverBarrier
      else recoverStarted host n ctx apply tasks plan options releaseAtCutoverBarrier forceCutoverResume

/-! ## Resuming an operation -/

end

def finalizerVSchemaApplied (state : EngineState) : Bool := state = .completed || state = .revertWindow

section
variable (host : Host) (n : Nat) (ctx : Ctx) (apply : Apply) (operationId : Nat) (multiOperation : Bool)
  (op : ApplyOperation)

def persistResume (rs : ResumeState) : StoreMethod Unit :=
  Method.attempt (saveEngineResumeState ctx op.id op.id rs.migrationContext rs.metadata)

def persistStateChanges (ctx : Ctx) (op : ApplyOperation) : List EngineEvent → StoreMethod Unit
  | [] => pure ()
  | .phase _ :: events => persistStateChanges ctx op events
  | .stateChange rs :: events => do
    persistResume ctx op rs
    persistStateChanges ctx op events

/-- `driveFinalizerToTerminal`, over what the polls see. -/
def driveFinalizerToTerminal (ctx : Ctx) (op : ApplyOperation) :
    List AtomicPoll → StoreMethod (Except String EngineState)
  | [] => pure (.error "context canceled")
  | .permanent message :: _ => pure (.error ("group_finalizer progress poll failed permanently: " ++ message))
  | .transient _ _ :: polls => driveFinalizerToTerminal ctx op polls
  | .report result resumeState _ _ _ _ :: polls => do
    resumeState.elim (pure ()) (persistResume ctx op)
    if result.state.isTerminal ∨ result.state = .revertWindow then pure (.ok result.state)
    else driveFinalizerToTerminal ctx op polls

def namespaceFromFinalizerKey (operationKey : String) : String :=
  if operationKey.endsWith "/group_finalizer" then (operationKey.dropEnd "/group_finalizer".length).toString else ""

/-- `finalizerVSchemaChanges`: the namespaces whose VSchema a finalizer applies. -/
def finalizerVSchemaChanges (plan : Plan) (namespaceName : String) : Except String (List String) :=
  if namespaceName ≠ "" then
    if plan.namespaces.any fun ns => ns.1 = namespaceName && ns.2.vschema ≠ "" then .ok [namespaceName]
    else .error ("plan has no VSchema artifact for namespace " ++ namespaceName)
  else match plan.vschemaFinalizerNamespaces with
    | [] => .error "plan has no VSchema artifact for a deployment-scoped finalizer"
    | namespaces => .ok namespaces

/-- `failClosed`: the operation fails, and the drive with it. -/
def failClosed (message : String) : DriveMethod Unit := do
  Method.attempt (onStore (markFailed ctx op.id message))
  throw ⟨message, .unnamed⟩

/-- The request of `driveGroupFinalizer`, which goes on with the resume state that is stored. -/
def finalizerRequest (namespaces : List String) (op : ApplyOperation) : EngineApplyRequest where
  mode := .finalizer
  tasks := []
  changes := namespaces.map fun namespaceName => { namespaceName, vschemaChanged := true }
  migrationContext := op.resumeState.map (·.migrationContext)

/-- `driveGroupFinalizer`. A storage read that fails just ends the drive. -/
def driveGroupFinalizer : DriveMethod Unit := do
  match host.plan apply with
  | none => throw ⟨"plan not found for group_finalizer apply_operation " ++ toString op.id, .unnamed⟩
  | some plan =>
    match finalizerVSchemaChanges plan (namespaceFromFinalizerKey op.operationKey) with
    | .error message => throw ⟨"group_finalizer apply_operation " ++ toString op.id ++ ": " ++ message, .unnamed⟩
    | .ok namespaces =>
      match host.credentialsForGroupedApply plan with
      | .error message => throw ⟨"resolve credentials for group_finalizer: " ++ message, .unnamed⟩
      | .ok () => do
        onStore (markStarted ctx op.id)
        callEngine n (finalizerRequest namespaces op)
        let (events, reply) := host.engineApply []
        onStore (persistStateChanges ctx op events)
        match reply with
        | .failed message _ => failClosed ctx op ("apply VSchema for group_finalizer: " ++ message)
        | .rejected _ => failClosed ctx op "group_finalizer VSchema apply was not accepted"
        | .accepted none _ => onStore (markCompleted ctx op.id)
        | .accepted (some rs) _ => do
          onStore (persistResume ctx op rs)
          match ← onStore (driveFinalizerToTerminal ctx op (host.atomicPolls apply [])) with
          | .error message => failClosed ctx op ("await group_finalizer VSchema apply: " ++ message)
          | .ok state =>
            if finalizerVSchemaApplied state then onStore (markCompleted ctx op.id)
            else failClosed ctx op "group_finalizer VSchema apply ended in non-success state"

def shouldAutoDeferCutover : Bool :=
  multiOperation && op.cutoverPolicy = .barrier

def shouldReleaseAtCutoverBarrier : Bool :=
  !(apply.options.getD {}).deferCutover && shouldAutoDeferCutover multiOperation op

def effectiveCopyDriveOptions : ApplyOptions :=
  let options := apply.options.getD {}
  { options with deferCutover := options.deferCutover || shouldAutoDeferCutover multiOperation op }

def isCutoverDriveState : ApplyState → Bool
  | .waitingForCutover | .cuttingOver | .revertWindow => true
  | _ => false

def loadOperation : StoreMethod ApplyOperation := do
  match ← Method.read fun s => s.operations.find? (·.id = operationId) with
  | none => throw ⟨"apply_operation " ++ toString operationId ++ " row is missing", .unnamed⟩
  | some op =>
    if op.applyId = apply.id then pure op
    else throw ⟨"apply_operation " ++ toString operationId ++ " belongs to apply " ++ toString op.applyId, .unnamed⟩

def resumeApplyOperation : DriveMethod Unit := do
  let op ← onStore (loadOperation apply operationId)
  match ← onStore (Method.read (·.getByApplyOperationID operationId)) with
  | [] =>
    if op.operationKind = .groupFinalizer then driveGroupFinalizer host n ctx apply op
    else match host.plan apply with
      | none => throw ⟨"no tasks for apply_operation " ++ toString operationId, .unnamed⟩
      | some plan =>
        if isTasklessVSchemaOnlyPlan [] plan = false ∨ op.operationKind ≠ .work ∨ op.operationKey ≠ "" then
          throw ⟨"no tasks for apply_operation " ++ toString operationId, .unnamed⟩
        else resumeApplyWithTasks host n ctx apply [] (apply.options.getD {}) false false
  | tasks => do
    let siblings ← onStore (Method.read fun s => s.operations.filter (·.applyId = apply.id))
    let multiOperation : Bool := 1 < siblings.length
    resumeApplyWithTasks host n ctx apply tasks (effectiveCopyDriveOptions apply multiOperation op)
      (shouldReleaseAtCutoverBarrier apply multiOperation op) false

def resumeApplyOperationCutover : DriveMethod Unit := do
  let op ← onStore (loadOperation apply operationId)
  match ← onStore (Method.read (·.getByApplyOperationID operationId)) with
  | [] =>
    if op.operationKind = .groupFinalizer then driveGroupFinalizer host n ctx apply op
    else throw ⟨"no tasks for apply_operation " ++ toString operationId, .unnamed⟩
  | tasks =>
    if isCutoverDriveState op.state = false then
      throw ⟨"apply_operation " ++ toString operationId ++ " is not parked or recovering for cutover", .unnamed⟩
    else do
      let options := { apply.options.getD {} with deferCutover := false }
      resumeApplyWithTasks host n ctx apply tasks options false true

/-- `recoverSingleApplyOperation`: the operator that has claimed an operation claims its apply and drives the
operation under both leases. -/
def recoverSingleApplyOperation (owner : String) (locked : Nat → Bool)
    (op : ApplyOperation) : DriveMethod Unit := do
  match ← onStore (claimApplyByID op.applyId owner locked) with
  | none => pure ()
  | some apply =>
    if apply.lease.valid = false ∨ op.deployment = "" then pure ()
    else resumeApplyOperation host n { applyLease := some apply.lease, operationLease := some op.lease } apply op.id

end

end SchemaBot
