import SchemaBot.Lib.Threads
import SchemaBot.Plan.Groups
import SchemaBot.Storage.Tasks

/-!
# The drives of a local client

A drive runs the tasks of an apply through the engine (`pkg/tern/local_apply.go`, `local_apply_sequential.go`,
`local_apply_grouped.go`).
-/

namespace SchemaBot

open Concurrent

/-! ## The engine -/

inductive EngineState
  | pending | running | waitingForDeploy | waitingForCutover | cuttingOver | revertWindow
  | completed | failed | stopped | reverted
  deriving DecidableEq

/-- `State.IsTerminal` of the engine. -/
def EngineState.isTerminal : EngineState → Bool
  | .completed | .failed | .stopped | .reverted => true
  | _ => false

def engineStateToStorage : EngineState → TaskState
  | .pending => .pending
  | .running => .running
  | .waitingForDeploy => .waitingForDeploy
  | .waitingForCutover => .waitingForCutover
  | .cuttingOver => .cuttingOver
  | .revertWindow => .revertWindow
  | .completed => .completed
  | .failed => .failed
  | .stopped => .stopped
  | .reverted => .reverted

/-- `engine.ProgressResult`: the state, and the progress of the first table, if there is one. -/
structure ProgressResult where
  state : EngineState
  retryable : Bool := false
  message : String := ""
  errorMessage : String := ""
  table : Option TaskProgress := none

def taskStateFromProgressResult (result : ProgressResult) : TaskState :=
  if result.state = .failed ∧ result.retryable = true then .failedRetryable
  else engineStateToStorage result.state

def progressFailureMessage (result : ProgressResult) : String :=
  if result.errorMessage ≠ "" then result.errorMessage else result.message

structure ResumeState where
  migrationContext : String
  metadata : String := ""

/-- `engine.ShardProgress`, with the shard's state as `NormalizeShardStatus` reads it. -/
structure ShardProgress where
  shard : String
  state : TaskState
  progress : TaskProgress := {}

structure TableProgress where
  progress : TaskProgress := {}
  startedAt : Option Nat := none
  completedAt : Option Nat := none
  shards : List ShardProgress := []

/-- `engine.TableChange`, the operation as `StatementTypeToOp` names it. -/
structure EngineTableChange where
  table : String
  ddl : String
  operation : String := "alter"
  deriving DecidableEq

/-- `engine.SchemaChange`: the changes of a namespace, or of one shard of it. -/
structure EngineSchemaChange where
  namespaceName : String
  tableChanges : List EngineTableChange := []
  shard : String := ""
  vschemaChanged : Bool := false
  deriving DecidableEq

inductive EngineMode
  | sequential | grouped | finalizer
  deriving DecidableEq

/-- `engine.ApplyRequest`, with the tasks that it is issued for and the mode. -/
structure EngineApplyRequest where
  mode : EngineMode
  tasks : List Task
  changes : List EngineSchemaChange
  targetShards : List String := []
  migrationContext : Option String

def withNamespace (changes : List EngineSchemaChange) (namespaceName : String)
    (f : EngineSchemaChange → EngineSchemaChange) : List EngineSchemaChange :=
  if changes.any (·.namespaceName = namespaceName) then
    changes.map fun c => if c.namespaceName = namespaceName then f c else c
  else changes ++ [f { namespaceName }]

section
variable (ctx : Ctx) (apply : Apply) (tasks : List Task) (task : Task) (errMsg : String)

def groupedResumeChanges (plan : Plan) : List EngineSchemaChange :=
  let changes := (tasks.filter (·.ddl ≠ "")).foldl (fun changes task =>
    withNamespace changes task.namespaceName fun c =>
      { c with tableChanges := c.tableChanges ++ [⟨task.tableName, task.ddl, task.ddlAction⟩] }) []
  plan.vschemaFinalizerNamespaces.foldl (fun changes namespaceName =>
    withNamespace changes namespaceName fun c => { c with vschemaChanged := true }) changes

def taskTargetShards : List String :=
  ((tasks.map (·.shard)).filter (· ≠ "")).dedup.mergeSort fun a b => decide (a ≤ b)

/-- The request of `runEngineTask`. -/
def sequentialRequest : EngineApplyRequest where
  mode := .sequential
  tasks := [task]
  changes := [{ namespaceName := task.namespaceName, tableChanges := [⟨task.tableName, task.ddl, ""⟩] }]
  migrationContext := some task.taskIdentifier

def groupedRequest (plan : Plan) (resumeState : ResumeState) : EngineApplyRequest where
  mode := .grouped
  tasks := tasks
  changes := groupedResumeChanges tasks plan
  targetShards := taskTargetShards tasks
  migrationContext := some resumeState.migrationContext

/-- What the engine calls back with while `Apply` runs: `OnEvent` with a new state, `OnStateChange`. -/
inductive EngineEvent
  | phase (newState : ApplyState)
  | stateChange (resumeState : ResumeState)

/-- How `engine.Apply` returns. -/
inductive EngineReply
  | failed (message : String) (retryable : Bool)
  | rejected (message : String)
  | accepted (resumeState : Option ResumeState) (isInstant : Bool)

/-- How a control call of the engine (`Stop`, `Cutover`, `Start`) returns, with what is resolved for it. -/
inductive ControlReply
  | failed (message : String)
  | rejected (message : String)
  | accepted

/-- What a poll of a grouped apply sees: a progress check that failed, for good or not, or the progress of
all tables, with the resume state, what its metadata says, and whether `SkipRevert` would go through. -/
inductive AtomicPoll
  | permanent (message : String)
  | transient (message : String) (retryable : Bool)
  | report (result : ProgressResult) (resumeState : Option ResumeState) (isInstant : Bool)
      (deployedAt : Option Nat) (tables : Task → Option TableProgress) (skipRevert : Bool)

structure Host where
  database : String
  databaseType : String
  revertWindowDuration : Nat := 1800
  credentialsForMySQLNamespace : String → Except String Unit := fun _ => .ok ()
  credentialsForGroupedApply : Plan → Except String Unit := fun _ => .ok ()
  engineApply : List Task → List EngineEvent × EngineReply
  progress : Task → List (Option ProgressResult) := fun _ => []
  atomicPolls : Apply → List Task → List AtomicPoll := fun _ _ => []
  engineStop : Task → ControlReply := fun _ => .accepted
  engineCutover : Task → ControlReply := fun _ => .accepted
  engineStart : Task → ControlReply := fun _ => .accepted
  snapshotEngineProgress : Task → Option TaskProgress := fun _ => none
  deferredCutoverSignalExists : Store → Except String (Bool × Bool) := fun _ => .ok (false, false)
  planWithEngine : Store → Except String (List EngineSchemaChange) := fun _ => .ok []
  newTaskIdentifier : Store → String := fun s => "task-" ++ toString s.nextTask
  plan : Apply → Option Plan

def databaseTypeMySQL : String := "mysql"
def databaseTypeVitess : String := "vitess"

/-- What a drive asks of an apply: a write of its row, a heartbeat, or `OnTerminal` of its observer. -/
inductive ParentCall
  | update (applyId : Nat)
  | updateDerivedState (applyId : Nat)
  | setRevertSkipped (applyId : Nat)
  | heartbeat (applyId : Nat)
  | onTerminal (applyId : Nat)
  deriving DecidableEq

/-- The reads of a drive that goes on when they fail: the task in `checkTaskReady` and in the polls, the
apply before it is settled, and the operations next to the drive's own. -/
inductive DriveRead
  | taskReady | taskPoll | applySettle | siblings
  deriving DecidableEq

/-- What the drives share: the store, the drives that have called `engine.Apply`, in order, with their requests, the
applies that have an observer, and what has been asked of the applies. `fails` are the reads that fail at the moment,
`cancelled` the drives whose context has ended. -/
structure Site where
  store : Store := {}
  calls : List Nat := []
  requests : List EngineApplyRequest := []
  observers : List Nat := []
  parentCalls : List ParentCall := []
  fails : DriveRead → Bool := fun _ => false
  cancelled : Nat → Bool := fun _ => false

def Site.storePart : Part Site Store where
  get w := w.store
  set w s := { w with store := s }
  get_set _ _ := rfl
  set_get _ := rfl
  set_set _ _ _ := rfl

abbrev DriveMethod := Method Site StoreError

def onStore {α : Type} (m : StoreMethod α) : DriveMethod α := Method.zoom Site.storePart m

theorem onStore_bind {α β : Type} (m : StoreMethod α) (g : α → StoreMethod β) :
    onStore (m >>= g) = onStore m >>= fun a => onStore (g a) := Method.zoom_bind _ _ _

/-- Drive `n` calls `engine.Apply`. -/
def callEngine (n : Nat) (request : EngineApplyRequest) : DriveMethod Unit :=
  Method.write fun w => ({ w with calls := w.calls ++ [n], requests := w.requests ++ [request] }, ())

/-! ## What a drive asks of its apply -/

def callParent (call : ParentCall) : DriveMethod Unit :=
  Method.write fun w => ({ w with parentCalls := w.parentCalls ++ [call] }, ())

/-- `Applies().Update`. -/
def updateParent : DriveMethod Unit := do
  callParent (.update apply.id)
  onStore (update ctx apply)

/-- `startApplyHeartbeat`: from here on, and for as long as the drive runs, the apply is heartbeated. -/
def startApplyHeartbeat : DriveMethod Unit := callParent (.heartbeat apply.id)

/-- `notifyTerminalObserver`: the observer, if there is one, is told and removed. -/
def notifyTerminalObserver : DriveMethod Unit :=
  Method.write fun w =>
    if apply.id ∈ w.observers then
      ({ w with
          parentCalls := w.parentCalls ++ [.onTerminal apply.id]
          observers := w.observers.filter (· ≠ apply.id) }, ())
    else (w, ())

/-- `suppressParentApplyWrites`: the drive runs under an operation lease only. -/
def suppressParentApplyWrites : Bool := ctx.applyLease.isNone && ctx.operationLease.any (·.valid)

/-! ## Task and apply writes -/

/-- `transitionTaskState`: the task as the drive holds it afterwards. -/
def transitionTaskState (newState : TaskState) : StoreMethod Task := do
  let task := { task with state := newState }
  Method.attempt (updateTask ctx task)
  pure task

def markTaskFailed : StoreMethod Task := do
  let now ← Method.read (·.now)
  transitionTaskState ctx { task with errorMessage := errMsg, completedAt := some now } .failed

def markTaskRetryable : StoreMethod Task :=
  transitionTaskState ctx { task with errorMessage := errMsg, completedAt := none } .failedRetryable

def markTasksRunning (ctx : Ctx) : List Task → StoreMethod (List Task)
  | [] => pure []
  | task :: tasks => do
    let now ← Method.read (·.now)
    let task ← transitionTaskState ctx { task with startedAt := some now } .running
    let tasks ← markTasksRunning ctx tasks
    pure (task :: tasks)

/-- The task loop of `failApplyWithTasks` and `markApplyRetryableWithTasks`. -/
def settleTasks (ctx : Ctx) (newState : TaskState) (completedAt : Option Nat) (errMsg : String) :
    List Task → StoreMethod Unit
  | [] => pure ()
  | task :: tasks => do
    if task.state.isTerminal then pure ()
    else do
      let errorMessage := if task.errorMessage = "" then errMsg else task.errorMessage
      let _ ← transitionTaskState ctx { task with errorMessage, completedAt } newState
    settleTasks ctx newState completedAt errMsg tasks

def Apply.asSettled (newState : ApplyState) (completedAt : Option Nat) (errMsg : String) : Apply :=
  { apply with state := newState, errorMessage := errMsg, completedAt }

def settleApply (newState : ApplyState) (completedAt : Option Nat) (errMsg : String) : DriveMethod Unit := do
  let fresh ← Method.read fun w => if w.fails .applySettle then none else w.store.getApply apply.id
  if fresh.any (·.state.isTerminal) then pure ()
  else Method.attempt (updateParent ctx (apply.asSettled newState completedAt errMsg))

def failApplyWithTasks : DriveMethod Unit := do
  let now ← onStore (Method.read (·.now))
  onStore (settleTasks ctx .failed (some now) errMsg tasks)
  settleApply ctx apply .failed (some now) errMsg

def markApplyRetryableWithTasks : DriveMethod Unit := do
  onStore (settleTasks ctx .failedRetryable none errMsg tasks)
  settleApply ctx apply .failedRetryable none errMsg

def Apply.asStarted (now : Nat) : Apply :=
  { apply with state := .running, startedAt := some now }

def markApplyStarted : DriveMethod Apply := do
  let now ← onStore (Method.read (·.now))
  Method.attempt (updateParent ctx (apply.asStarted now))
  pure (apply.asStarted now)

def Host.shouldRetryEngineError (host : Host) (retryable : Bool) : Bool :=
  host.databaseType = databaseTypeMySQL && retryable

def taskStates : List ApplyState := tasks.map (·.state.toApply)

end

end SchemaBot
