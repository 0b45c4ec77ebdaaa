import SchemaBot.Tern.Drive

/-!
# Control requests inside a drive

The owner of an apply polls the requests that others have left for it (`pkg/tern/local_control.go`,
`control_requests.go`).
-/

namespace SchemaBot

open Concurrent

/-! ## Stop -/

section
variable (host : Host) (ctx : Ctx) (apply : Apply) (tasks : List Task) (applyId : Nat)
  (applyIdentifier : String)

/-- `completePendingStopIfStoredApplyResolved`: the stored apply, where it is terminal. -/
def completePendingStopIfStoredApplyResolved : StoreMethod (Option Apply) := do
  match ← Method.read (·.getApply apply.id) with
  | none => throw ⟨"load apply " ++ apply.applyIdentifier ++ " before completing pending stop",
      .applyNotFound⟩
  | some stored =>
    if stored.state.isTerminal then do
      completePending ctx stored.id .stop
      pure (some stored)
    else pure none

def stopHandledUnlessStartPending : StoreMethod (Bool × Apply) := do
  let startPending ← Method.read (·.hasPending apply.id .start)
  pure (!startPending, apply)

def revertWindowStopRejectionMessage : String :=
  "schema change " ++ applyIdentifier ++ " is in the revert window and has already been applied: " ++
    "use revert to undo it or skip-revert to finalize it"

def hasLiveEngineWork : TaskState → Bool
  | .running | .waitingForCutover | .cuttingOver | .recovering | .waitingForDeploy | .failedRetryable => true
  | _ => false

/-- `stopEngineForTasks`: the first task with live work is stopped, which covers the apply. The answer says
whether the engine was asked. -/
def stopEngineForTasks : Except StoreError Bool :=
  match tasks.find? fun t => !t.state.isTerminal && hasLiveEngineWork t.state with
  | none => .ok false
  | some task =>
    match host.engineStop task with
    | .failed message =>
      if host.databaseType = databaseTypeVitess then
        .error ⟨"engine stop failed: cancel deploy request for task " ++ task.taskIdentifier ++ ": " ++ message,
          .unnamed⟩
      else .error ⟨"engine stop failed: stop local engine for task " ++ task.taskIdentifier ++ ": " ++ message,
          .unnamed⟩
    | _ => .ok true

/-- The row copy counters that `markTasksWithState` takes from the engine. -/
def withSnapshot (task : Task) (p : TaskProgress) : Task :=
  { task with progress := { task.progress with
      rowsCopied := p.rowsCopied, rowsTotal := p.rowsTotal, progressPercent := p.progressPercent
      etaSeconds := p.etaSeconds, checksumRowsChecked := p.checksumRowsChecked
      checksumRowsTotal := p.checksumRowsTotal } }

/-- `markTasksWithState`: how many tasks it has written, and how many were over. -/
def markTasksWithState (ctx : Ctx) (snapshot : Task → Option TaskProgress) (newState : TaskState) :
    List Task → StoreMethod (Nat × Nat)
  | [] => pure (0, 0)
  | task :: tasks => do
    if task.state.isTerminal then do
      let (stopped, skipped) ← markTasksWithState ctx snapshot newState tasks
      pure (stopped, skipped + 1)
    else do
      let _ ← transitionTaskState ctx ((snapshot task).elim task (withSnapshot task)) newState
      let (stopped, skipped) ← markTasksWithState ctx snapshot newState tasks
      pure (stopped + 1, skipped)

def loadForStop (purpose : String) : DriveMethod Apply := do
  match ← onStore (Method.read (·.getApply applyId)) with
  | none => throw ⟨"load apply " ++ toString applyId ++ purpose, .applyNotFound⟩
  | some apply => pure apply

def markApplyStopped : DriveMethod Unit := do
  let apply ← loadForStop applyId " for stopped state"
  if apply.state.isTerminal ∧ apply.state ≠ .stopped then pure ()
  else updateParent ctx { apply with state := .stopped, completedAt := none }

def markApplyCancelled : DriveMethod Unit := do
  let apply ← loadForStop applyId " for cancelled state"
  let now ← onStore (Method.read (·.now))
  updateParent ctx { apply with state := .cancelled, completedAt := some now }

/-- `firstFailedTaskError` of the client. -/
def clientFirstFailedTaskError : String :=
  match (tasks.filter fun t => t.state = .failed && t.errorMessage ≠ "") ++
      tasks.filter fun t => t.state = .failedRetryable && t.errorMessage ≠ "" with
  | [] => ""
  | task :: _ => "table " ++ task.tableName ++ " failed: " ++ task.errorMessage

/-- The apply that `handleStopAllTasksTerminal` writes: its state is the one its tasks derive. -/
def Apply.asDerived (now : Nat) : Apply :=
  let derived := deriveApplyState (taskStates tasks)
  { apply with
    state := derived
    errorMessage := if derived = .failed ∧ apply.errorMessage = "" then clientFirstFailedTaskError tasks
      else apply.errorMessage
    completedAt := if derived.isTerminal then some now else apply.completedAt }

def handleStopAllTasksTerminal : DriveMethod Unit := do
  let apply ← loadForStop applyId " after stop found all tasks terminal"
  if apply.state.isTerminal then pure ()
  else do
    let tasks ← onStore (Method.read (·.getByApplyID applyId))
    let now ← onStore (Method.read (·.now))
    updateParent ctx (apply.asDerived tasks now)

/-- `stopOwnedApply`, for the apply of a drive: whether the stop was accepted. The tasks of the client's
database that belong to the apply are all its tasks, those of its shards included. -/
def stopOwnedApply : DriveMethod Bool := do
  let all ← onStore (Method.read (·.tasks))
  match ← onStore (Method.read fun s => s.applies.find? (·.applyIdentifier = apply.applyIdentifier)) with
  | none => throw ⟨"apply " ++ apply.applyIdentifier ++ " not found", .unnamed⟩
  | some target => do
    let tasks := all.filter (·.applyId = target.id)
    if tasks.any (·.state = .revertWindow) then
      throw ⟨revertWindowStopRejectionMessage apply.applyIdentifier, .unnamed⟩
    else do
      let asked ← Method.lift (stopEngineForTasks host tasks)
      let terminates := host.databaseType = databaseTypeVitess
      let snapshot := fun task => if asked then host.snapshotEngineProgress task else none
      let (stopped, skipped) ← onStore (if terminates then markTasksWithState ctx (fun _ => none) .cancelled tasks
        else markTasksWithState ctx snapshot .stopped tasks)
      if 0 < stopped then do
        if terminates then markApplyCancelled ctx target.id else markApplyStopped ctx target.id
        pure true
      else if skipped = 0 then throw ⟨"no active schema change", .unnamed⟩
      else if target.state.isTerminal ∧ target.state ≠ .completed then pure true
      else do
        handleStopAllTasksTerminal ctx target.id
        pure true

/-- `processPendingStopControlRequest`: whether a stop was handled, and the apply as the drive holds it
afterwards. -/
def processPendingStopControlRequest : DriveMethod (Bool × Apply) := do
  match ← onStore (Method.read (·.getPending apply.id .stop)) with
  | none => pure (false, apply)
  | some _ =>
    match ← onStore (completePendingStopIfStoredApplyResolved ctx apply) with
    | some stored => onStore (stopHandledUnlessStartPending stored)
    | none =>
      if apply.state.isTerminal then do
        onStore (completePending ctx apply.id .stop)
        onStore (stopHandledUnlessStartPending apply)
      else if ← onStore (Method.read fun s => (s.getByApplyID apply.id).any (·.state = .revertWindow)) then do
        -- The change has cut over: the request fails for good instead of being retried.
        onStore (failPending ctx apply.id .stop (revertWindowStopRejectionMessage apply.applyIdentifier))
        pure (true, apply)
      else if ← stopOwnedApply host ctx apply then
        match ← onStore (completePendingStopIfStoredApplyResolved ctx apply) with
        | some stored => pure (true, stored)
        | none => throw ⟨"process pending stop for apply " ++ apply.applyIdentifier ++
            ": storage did not reach a resolved stop state", .unnamed⟩
      else throw ⟨"process pending stop for apply " ++ apply.applyIdentifier ++ ": not accepted",
        .unnamed⟩

/-- `getActiveTaskForDatabase`: the newest task of the client's database that is not over. -/
def Store.getActiveTaskForDatabase (s : Store) (database : String) : Option Task :=
  s.tasks.reverse.find? fun t => !t.state.isTerminal &&
    s.applies.any fun a => a.id = t.applyId && a.database = database

/-- `resolveStopApply`: the apply that is named, or else the one of the active task. -/
def resolveStopApply : StoreMethod Apply := do
  if applyIdentifier ≠ "" then
    match ← Method.read fun s => s.applies.find? (·.applyIdentifier = applyIdentifier) with
    | none => throw ⟨"load apply " ++ applyIdentifier ++ " before stop", .applyNotFound⟩
    | some apply => pure apply
  else
    match ← Method.read (·.getActiveTaskForDatabase host.database) with
    | none => throw ⟨"no active schema change", .unnamed⟩
    | some task =>
      match ← Method.read (·.getApply task.applyId) with
      | none => throw ⟨"load apply " ++ toString task.applyId ++ " before stop", .applyNotFound⟩
      | some apply => pure apply

/-- `Stop`: the request is recorded for the owner of the apply, unless the change has cut over. -/
def requestStop : StoreMethod Unit := do
  let apply ← resolveStopApply host applyIdentifier
  if ← Method.read fun s => (s.getByApplyID apply.id).any (·.state = .revertWindow) then
    throw ⟨revertWindowStopRejectionMessage apply.applyIdentifier, .unnamed⟩
  else do
    let _ ← requestPending apply.id .stop "tern-grpc" ""
    pure ()

/-! ## Cutover -/

def cutoverRequestResolvedByApplyState : ApplyState → Bool
  | .revertWindow | .completed | .reverted => true
  | _ => false

def applyReadyForCutoverRequest : StoreMethod Bool :=
  if apply.state = .waitingForCutover ∨ apply.state = .cuttingOver then pure true
  else if apply.state ≠ .running then pure false
  else Method.read fun s => (s.getByApplyID apply.id).any fun t =>
    t.state = .waitingForCutover || t.state = .cuttingOver

def markApplyCuttingOverForControlRequest : DriveMethod Apply :=
  if apply.state = .waitingForCutover ∨ apply.state = .running then do
    updateParent ctx { apply with state := .cuttingOver }
    pure { apply with state := .cuttingOver }
  else pure apply

/-- The task that `cutover` asks the engine about: the first that is not over, or the first at all of an apply
that is ready. -/
def cutoverTask : Option Task :=
  match tasks.find? fun t => !t.state.isTerminal with
  | some task => some task
  | none => if apply.state = .waitingForCutover ∨ apply.state = .cuttingOver then tasks.head? else none

/-- `cutover`: the error, unless the engine has accepted it. -/
def cutover (host : Host) (apply : Apply) : StoreMethod (Option String) := do
  match ← Method.read fun s => s.applies.find? (·.applyIdentifier = apply.applyIdentifier) with
  | none => pure (some ("load apply " ++ apply.applyIdentifier ++ " before cutover"))
  | some stored => do
    let tasks ← Method.read (·.getByApplyID stored.id)
    match cutoverTask stored tasks with
    | none => pure (some "no active schema change")
    | some task =>
      if stored.state = .recovering then
        pure (some "Schema change is recovering after restart; cutover will be available once recovery completes.")
      else if ← Method.read (·.hasPending stored.id .stop) then
        pure (some "schema change has a pending stop request; cutover is blocked until stop is processed")
      else match host.engineCutover task with
        | .failed message => pure (some ("cutover failed: " ++ message))
        | .rejected message => pure (some (if message = "" then "not accepted" else message))
        | .accepted => pure none

def processPendingCutoverControlRequest : DriveMethod Apply := do
  let refused := fun message : String =>
    (⟨"process pending cutover for apply " ++ apply.applyIdentifier ++ ": " ++ message, .unnamed⟩ : StoreError)
  match ← onStore (Method.read (·.getPending apply.id .cutover)) with
  | none => pure apply
  | some _ =>
    if cutoverRequestResolvedByApplyState apply.state then do
      onStore (completePending ctx apply.id .cutover)
      pure apply
    else if apply.state.isTerminal then do
      let message := "cutover request was not applied because apply is " ++ apply.state.text
      onStore (failPending ctx apply.id .cutover message)
      throw (refused message)
    else if apply.state = .recovering then pure apply
    else if (← onStore (applyReadyForCutoverRequest apply)) = false then pure apply
    else if ← onStore (Method.read (·.hasPending apply.id .stop)) then
      throw (refused "schema change has a pending stop request; cutover is blocked until stop is processed")
    else do
      let apply ← markApplyCuttingOverForControlRequest ctx apply
      match ← onStore (cutover host apply) with
      | some message => do
        onStore (failPending ctx apply.id .cutover message)
        throw (refused message)
      | none => do
        onStore (completePending ctx apply.id .cutover)
        pure apply

end

end SchemaBot
