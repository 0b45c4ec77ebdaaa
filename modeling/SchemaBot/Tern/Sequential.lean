import SchemaBot.Tern.Controls
import SchemaBot.Tern.Replan

/-!
# Sequential drives

In independent mode a drive runs one engine call per task (`pkg/tern/local_apply_sequential.go`), on a queued apply
(`executeApplySequential`) or on one that is resumed (`resumeApplySequential`, `local_control_resume.go`).
-/

namespace SchemaBot

open Concurrent

/-! ## One task -/

/-- `taskAction`. `taskAbort`, the exit of a drive that failed to process a control request, is an error here. -/
inductive TaskAction
  | continue | failed | stopped | skip
  deriving DecidableEq

def Site.freshTask (w : Site) (read : DriveRead) (task : Task) : Option Task :=
  if w.fails read then none else w.store.tasks.find? (·.taskIdentifier = task.taskIdentifier)

section
variable (host : Host) (n : Nat) (ctx : Ctx) (apply : Apply) (task : Task) (tasks : List Task)

def checkTaskReady : DriveMethod TaskAction := do
  if ← Method.read (·.cancelled n) then pure .stopped
  else match ← Method.read (·.freshTask .taskReady task) with
    | none => pure .skip
    | some fresh =>
      if fresh.state = .stopped then pure .stopped
      else if fresh.state.isTerminal then pure .skip
      else pure .continue

def withProgress (now : Nat) (task : Task) (result : ProgressResult) : Task :=
  let task := { task with
    state := taskStateFromProgressResult result, progress := result.table.getD task.progress }
  if result.state.isTerminal then
    { task with
      completedAt := if task.state = .failedRetryable then none else some now
      progress := if result.state = .completed then { task.progress with progressPercent := 100 }
        else task.progress
      errorMessage := if result.state = .failed ∧ progressFailureMessage result ≠ "" then
        progressFailureMessage result else task.errorMessage }
  else task

/-- `pollTaskToCompletion`, over what the polls see: `none` is a progress check that failed, the end of
the list the end of the context. -/
def pollTaskToCompletion (host : Host) (ctx : Ctx) (apply : Apply) (task : Task) :
    List (Option ProgressResult) → DriveMethod (Apply × Task × TaskAction)
  | [] => pure (apply, task, .stopped)
  | result :: results => do
    let (handled, apply) ← processPendingStopControlRequest host ctx apply
    if handled then pure (apply, { task with state := .stopped }, .stopped)
    else do
      let apply ← processPendingCutoverControlRequest host ctx apply
      let fresh ← Method.read (·.freshTask .taskPoll task)
      match fresh.filter (·.state.isTerminal), result with
      | some fresh, _ => pure (apply, { task with state := fresh.state }, .continue)
      | none, none => pollTaskToCompletion host ctx apply task results
      | none, some result => do
        let now ← onStore (Method.read (·.now))
        let task := withProgress now task result
        let task ← onStore (transitionTaskState ctx task task.state)
        if result.state.isTerminal then pure (apply, task, .continue)
        else pollTaskToCompletion host ctx apply task results

/-- The switch at the end of `runEngineTask`. -/
def actionAfterPoll : TaskAction → TaskAction
  | .stopped => .stopped
  | _ =>
    match task.state with
    | .failed | .failedRetryable => .failed
    | .stopped => .stopped
    | _ => .continue

def runEngineTask : DriveMethod (Apply × Task × TaskAction) := do
  let (handled, apply) ← processPendingStopControlRequest host ctx apply
  if handled then pure (apply, task, .stopped)
  else
    match if host.databaseType = databaseTypeMySQL then
        host.credentialsForMySQLNamespace task.namespaceName else .ok () with
    | .error errMsg => do
      let task ← onStore (markTaskFailed ctx task errMsg)
      pure (apply, task, .failed)
    | .ok () => do
      callEngine n (sequentialRequest task)
      match (host.engineApply [task]).2 with
      | .failed errMsg retryable => do
        let task ← onStore (if host.shouldRetryEngineError retryable then markTaskRetryable ctx task errMsg
          else markTaskFailed ctx task errMsg)
        pure (apply, task, .failed)
      | .rejected errMsg => do
        let task ← onStore (markTaskFailed ctx task errMsg)
        pure (apply, task, .failed)
      | .accepted _ _ => do
        let now ← onStore (Method.read (·.now))
        let task ← onStore (transitionTaskState ctx { task with startedAt := some now } .running)
        let (apply, task, action) ← pollTaskToCompletion host ctx apply task (host.progress task)
        pure (apply, task, actionAfterPoll task action)

/-! ## The loops -/

inductive LoopEnd
  | done
  | failed (task : Task)
  | stopped
  deriving DecidableEq

def tableStillNeedsChange (tableName : String) : DriveMethod (Except String Bool) := do
  match ← onStore (Method.read host.planWithEngine) with
  | .error message => pure (.error ("re-plan check failed: " ++ message))
  | .ok changes => pure (.ok ((flatTableChanges changes).any (·.table = tableName)))

/-- What a round of the loop does with a task that is ready. On a queued apply the engine runs it; a resumed one
first plans again, and completes a task whose table has no change left. -/
def runReadyTask (resumed : Bool) (apply : Apply) (task : Task) : DriveMethod (Apply × Task × TaskAction) :=
  if resumed then do
    match ← tableStillNeedsChange host task.tableName with
    | .ok false => do
      let now ← onStore (Method.read (·.now))
      let task ← onStore (transitionTaskState ctx
        { task with progress.progressPercent := 100, completedAt := some now } .completed)
      pure (apply, task, .continue)
    | _ => runEngineTask host n ctx apply task
  else runEngineTask host n ctx apply task

/-- The task loop of `executeApplySequential` and `resumeApplySequential`, with the tasks as the drive holds them
afterwards. -/
def runTasks (host : Host) (n : Nat) (ctx : Ctx) (resumed : Bool) (apply : Apply) :
    List Task → DriveMethod (Apply × List Task × LoopEnd)
  | [] => pure (apply, [], .done)
  | task :: tasks => do
    let (handled, apply) ← processPendingStopControlRequest host ctx apply
    if handled then pure (apply, task :: tasks, .stopped)
    else match ← checkTaskReady n task with
      | .stopped => pure (apply, task :: tasks, .stopped)
      | .skip => do
        let (apply, tasks, loopEnd) ← runTasks host n ctx resumed apply tasks
        pure (apply, task :: tasks, loopEnd)
      | _ => do
        let (apply, task, action) ← runReadyTask host n ctx resumed apply task
        match action with
        | .failed => pure (apply, task :: tasks, .failed task)
        | .stopped => pure (apply, task :: tasks, .stopped)
        | _ => do
          let (apply, tasks, loopEnd) ← runTasks host n ctx resumed apply tasks
          pure (apply, task :: tasks, loopEnd)

/-! ## The end of a drive -/

def cancelPendingTasks (ctx : Ctx) : List Task → StoreMethod Unit
  | [] => pure ()
  | task :: tasks => do
    if task.state = .pending then discard (transitionTaskState ctx task .cancelled) else pure ()
    cancelPendingTasks ctx tasks

/-- The apply that `finalizeSequentialApply` writes. -/
def finalizedApply (now : Nat) (apply : Apply) : LoopEnd → Apply
  | .failed task =>
    { apply with
      state := if task.state = .failedRetryable then .failedRetryable else .failed
      errorMessage := "table " ++ task.tableName ++ " failed: " ++ task.errorMessage
      completedAt := if task.state = .failedRetryable then none else some now }
  | .stopped => { apply with state := .stopped }
  | .done => { apply with state := .completed, completedAt := some now }

def finalizeSequentialApply (loopEnd : LoopEnd) : DriveMethod Unit := do
  let now ← onStore (Method.read (·.now))
  let fresh ← onStore (Method.read (·.getApply apply.id))
  if fresh.any (·.state.isTerminal) then onStore (completePending ctx apply.id .stop)
  else do
    let apply := finalizedApply now apply loopEnd
    if apply.state = .failed then onStore (cancelPendingTasks ctx tasks) else pure ()
    Method.attempt (updateParent ctx apply)
    if apply.state.isTerminal then onStore (completePending ctx apply.id .stop) else pure ()
    if apply.state = .failedRetryable then pure () else notifyTerminalObserver apply

def runSequential (resumed : Bool) (apply : Apply) (tasks : List Task) : DriveMethod Unit := do
  let (apply, tasks, loopEnd) ← runTasks host n ctx resumed apply tasks
  finalizeSequentialApply ctx apply tasks loopEnd

/-- `executeApplySequential`: the drive of a queued apply. -/
def executeApplySequential : DriveMethod Unit := do
  startApplyHeartbeat apply
  let apply ← markApplyStarted ctx apply
  runSequential host n ctx false apply tasks

/-- `resumeApplySequential`: the drive of an apply that was started before. -/
def resumeApplySequential : DriveMethod Unit := do
  startApplyHeartbeat apply
  runSequential host n ctx true apply tasks

end

end SchemaBot
