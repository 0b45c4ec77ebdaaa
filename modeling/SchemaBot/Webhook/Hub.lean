import SchemaBot.Lib.Threads
import SchemaBot.Plan.Groups
import SchemaBot.Storage.Locks

/-!
# What the webhook handlers share

A deployment of SchemaBot answers the comments and events of pull requests.
-/

namespace SchemaBot.Webhook

open Concurrent

/-! ## Configuration -/

def defaultEnvironmentOrder : List String := ["staging", "production"]

/-- `ServerConfig`. Databases come with their environments; the base name of check runs and whether checks
are published depend on the repository. -/
structure ServerConfig where
  allowedEnvironments : List String := []
  environmentOrder : List String := []
  databases : List (String × List String) := []
  checkNameBase : String → String := fun _ => "SchemaBot"
  areChecksEnabled : String → Bool := fun _ => true
  appSlug : String := "schemabot"
  trustedCheckAppSlugs : List String := []
  priorEnvCheckMaxAttempts : Nat := 0
  requirePassingChecks : Option Bool := none
  requiredChecks : List String := []

namespace ServerConfig
variable (c : ServerConfig)

def isEnvironmentAllowed (environment : String) : Bool :=
  c.allowedEnvironments.isEmpty || c.allowedEnvironments.contains environment

def promotionEnvironmentOrder : List String :=
  if c.environmentOrder.isEmpty then defaultEnvironmentOrder else c.environmentOrder

/-- `OrderedEnvironments`: the enabled environments of the promotion order, then the others by name. -/
def orderedEnvironments (enabled : List String) : List String :=
  let enabled := enabled.filter (· ≠ "")
  (c.promotionEnvironmentOrder.filter enabled.contains).eraseDups ++
    (enabled.filter (!c.promotionEnvironmentOrder.contains ·)).eraseDups.insertionSort fun a b => ¬ b < a

def databaseEnvironments (database : String) : Except String (List String) :=
  match c.databases.lookup database with
  | none => .error ("database " ++ database ++ " is not configured on this server")
  | some environments => .ok (c.orderedEnvironments environments)

/-- `priorEnvCheckMaxAttemptCount`, with `defaultPriorEnvCheckMaxAttempts`. -/
def priorEnvCheckMaxAttemptCount : Nat :=
  if c.priorEnvCheckMaxAttempts = 0 then 4 else c.priorEnvCheckMaxAttempts

def equalFold (a b : String) : Bool := a.toList.map Char.toLower = b.toList.map Char.toLower

def isTrustedCheckAppSlug (slug : String) : Bool :=
  slug ≠ "" && ((c.appSlug ≠ "" && equalFold slug c.appSlug) || c.trustedCheckAppSlugs.any (equalFold slug))

def shouldRequirePassingChecks : Bool := c.requirePassingChecks.getD true

def isCheckRequired (name : String) : Bool := c.requiredChecks.isEmpty || c.requiredChecks.contains name

end ServerConfig

/-! ## Stored rows -/

inductive CheckStatus
  | queued | inProgress | completed
  deriving DecidableEq

/-- The conclusion of a check; `none` is the empty one of a check that runs. -/
inductive Conclusion
  | none | success | failure | actionRequired | neutral
  deriving DecidableEq

/-- A row of `checks`; the identifiers are 0 where the column is `NULL`. -/
structure Check where
  repository : String
  pullRequest : Nat
  headSHA : String
  environment : String
  databaseType : String
  databaseName : String
  checkRunId : Nat := 0
  applyId : Nat := 0
  hasChanges : Bool := false
  status : CheckStatus := .completed
  conclusion : Conclusion := .none
  blockingReason : String := ""
  errorMessage : String := ""
  basis : String := ""
  deriving DecidableEq

/-- A row of `plans`. -/
structure StoredPlan where
  planIdentifier : String
  database : String
  databaseType : String
  deployment : String := ""
  target : String := ""
  repository : String
  pullRequest : Nat
  environment : String
  headSHA : String := ""
  content : Plan := {}
  deriving DecidableEq

/-- A row of `applies`, as far as the handlers read it, with the commit of its plan. -/
structure PRApply where
  id : Nat
  applyIdentifier : String
  planIdentifier : String
  database : String
  databaseType : String
  repository : String
  pullRequest : Nat
  environment : String
  lockId : Nat := 0
  state : ApplyState := .pending
  rollback : Bool := false
  headSHA : String := ""
  deriving DecidableEq

/-! ## Requests and answers -/

/-- `SchemaRequestResult`: a database of the pull request, with its schema files at the head commit. -/
structure SchemaRequest where
  database : String
  type : String
  schemaFiles : List (String × String) := []
  schemaPath : String := ""
  headSHA : String
  environments : List String := []
  deriving DecidableEq

structure PlanRequest where
  database : String
  environment : String
  type : String
  schemaFiles : List (String × String) := []
  schemaPath : String := ""
  repository : String
  pullRequest : Nat
  headSHA : String := ""
  deriving DecidableEq

/-- `TableChangeResponse`. -/
structure PlannedTable where
  tableName : String
  ddl : String
  operation : String := "alter"
  isUnsafe : Bool := false
  deriving DecidableEq

/-- `SchemaChangeResponse`, with the metadata `vschema` and `vschema_changed`, and the file that is stored
with a changed VSchema. -/
structure SchemaChange where
  namespaceName : String := ""
  tableChanges : List PlannedTable := []
  vschemaDiff : String := ""
  vschemaChanged : Bool := false
  vschema : String := ""
  deriving DecidableEq

structure PlanResponse where
  planId : String := ""
  changes : List SchemaChange := []
  errors : List String := []
  deriving DecidableEq

def PlanResponse.flatTables (r : PlanResponse) : List PlannedTable := r.changes.flatMap (·.tableChanges)

def PlanResponse.unsafeChanges (r : PlanResponse) : List PlannedTable := r.flatTables.filter (·.isUnsafe)

structure Planned where
  deployment : String
  target : String
  response : PlanResponse
  shards : List ShardPlan := []
  deriving DecidableEq

/-- An error of the service; `transient` is `isTransientRemotePlanError`. -/
structure ServiceError where
  message : String
  transient : Bool := false
  deriving DecidableEq

def protoChangesToNamespaces :
    List SchemaChange → List (String × NamespacePlanData) → Except String (List (String × NamespacePlanData))
  | [], result => .ok result
  | sc :: rest, result =>
    let ns := if sc.namespaceName = "" then "default" else sc.namespaceName
    if (result.lookup ns).isSome then .error ("duplicate schema change namespace " ++ ns)
    else
      protoChangesToNamespaces rest (result ++ [(ns,
        { tables := sc.tableChanges.map fun t => { table := t.tableName, ddl := t.ddl, operation := t.operation }
          vschema := if sc.vschemaChanged then sc.vschema else "" })])

/-- The commands of `commandAction` that this model runs. -/
inductive CommandAction
  | plan | apply | applyConfirm | rollback | rollbackConfirm | unlock
  deriving DecidableEq

/-- `CommandResult`, what a comment asks for. -/
structure CommandResult where
  environment : String := ""
  database : String := ""
  applyId : String := ""
  requestedBy : String := ""
  autoConfirm : Bool := false
  allowUnsafe : Bool := false
  force : Bool := false
  deriving DecidableEq

/-! ## How a handling ends early -/

inductive Reply
  | ignored
  | commandError (action : CommandAction) (environment message : String)
  | schemaRequestError (action : CommandAction) (environment message : String)
  | reconciliationRequired (action : CommandAction)
  | unauthorized (action : CommandAction) (database : String)
  | reviewRequired (database environment : String)
  | checksNotPassing (environment : String)
  | schemaStale (action : CommandAction) (environment : String)
  | planStale (environment : String)
  | applyBlockedByUnlistedEnvironment (environment : String) (order : List String)
  | applyBlockedByPriorEnvCheckError (priorEnv operation : String)
  | applyBlockedByMissingPriorEnvCheck (priorEnv : String)
  | applyBlockedByUntrustedPriorEnvCheck (priorEnv checkName : String) (apps : List String)
  | applyBlockedByPriorEnvInProgress (database environment priorEnv : String)
  | applyBlockedByPriorEnv (database environment priorEnv status action : String)
  | applyBlockedByOtherPR (database environment lockOwner : String)
  | applyInProgress (database environment applyId : String)
  | planComment (environment : String) (downgradeReason : String)
  | unsafeChangesBlocked (environment : String)
  | applyConfirmNoLock (database environment : String)
  | applyConfirmNoChanges (database environment : String)
  | rollbackMissingApplyId
  | rollbackApplyNotFound (applyId : String)
  | rollbackRejected (applyId reason : String)
  | rollbackBlockedByLock (database environment lockOwner : String)
  | rollbackNothingToDo (database environment applyId : String)
  | rollbackConfirmNoLock (environment : String)
  | rollbackAlreadyRolledBack (database environment : String) (lockHeld : Bool)
  | noLocksFound
  | cannotUnlock (database environment applyId : String)
  deriving DecidableEq

/-! ## GitHub -/

/-- What a check run was computed from: the aggregate of an environment, or of all of them, from the rows of
its databases, a passing aggregate from the rows that might have blocked it. -/
inductive Made
  | aggregate (environment : Option String) (rows : List Check)
  | passing (environment : Option String) (rows : List Check)
  | other
  deriving DecidableEq

structure CheckRun where
  id : Nat := 0
  repository : String
  headSHA : String
  name : String
  app : String
  status : CheckStatus
  conclusion : Conclusion := .none
  basis : String := ""
  made : Made := .other
  deriving DecidableEq

structure GitHub where
  head : String → Nat → String := fun _ _ => ""
  runs : List CheckRun := []
  nextRun : Nat := 1

def GitHub.addRun (g : GitHub) (run : CheckRun) : GitHub :=
  { g with runs := g.runs ++ [{ run with id := g.nextRun }], nextRun := g.nextRun + 1 }

def GitHub.setRun (g : GitHub) (id : Nat) (f : CheckRun → CheckRun) : GitHub :=
  { g with runs := Table.update (fun r => r.id = id) f g.runs }

/-! ## The rest of the world -/

structure Outside where
  /-- The error of the calls to GitHub, when they fail. -/
  unavailable : Option String := none
  /-- `handleNoManagedSchemaChangesForCommand`: whether the command has been answered. -/
  noManagedSchemaChanges : CommandAction → String → Nat → Except String Bool := fun _ _ _ => .ok false
  /-- `createManagedSchemaRequestFromPR`, at a commit. -/
  discover : String → Nat → String → String → String → Except String SchemaRequest :=
    fun _ _ _ _ _ => .error "no schemabot.yaml found"
  /-- `FindConfigByDatabaseName` or `FindConfigForPR`: the database, at a commit. -/
  findConfig : String → Nat → String → String → Except String String :=
    fun _ _ _ _ => .error "no schemabot.yaml found"
  /-- `enforcePRCommandActorAuthorization`. -/
  authorized : CommandAction → String → Nat → String → String → Bool := fun _ _ _ _ _ => true
  /-- `enforceReviewGate`. -/
  reviewed : CommandAction → String → Nat → SchemaRequest → Bool := fun _ _ _ _ => true
  /-- `enforcePassingChecks`, of a commit. -/
  checksPass : String → Nat → String → String → Bool := fun _ _ _ _ => true
  /-- Target resolution, which knows the type of the database, and the planner. -/
  plan : PlanRequest → Except ServiceError Planned := fun _ => .error ⟨"no target", false⟩
  /-- `authorizeStoredPlanSource`, the execution targets, and the conflicts with other applies. -/
  queue : StoredPlan → Except String Unit := fun _ => .ok ()
  /-- `ValidateRollbackSourceApply` and what `ExecuteRollbackPlanForApply` reads of the source plan. -/
  rollbackSource : PRApply → String → String → Nat → Except String (List (String × String)) :=
    fun _ _ _ _ => .ok []
  /-- `inferUnlockDatabase`. -/
  unlockDatabase : String → Nat → Except String String := fun _ _ => .error "no database"

/-! ## Notes -/

inductive Evidence
  | row (check : Check)
  | run (run : CheckRun)
  deriving DecidableEq

inductive Origin
  | apply
  | applyConfirm (lock : Lock) (pending : Option StoredPlan)
  | rollbackConfirm
  deriving DecidableEq

structure GateRequest where
  repository : String
  pullRequest : Nat
  database : String
  databaseType : String
  headSHA : String
  deriving DecidableEq

structure Handle where
  deployment : Nat
  number : Nat
  deriving DecidableEq

inductive Note
  | passed (handling : Handle) (request : GateRequest) (priorEnv : String) (evidence : Evidence)
  | read (repo : String) (pr : Nat) (rows : List Check)
  | gathered (headSHA : String) (rows : List Check)
  | finished (apply : PRApply) (row : Check)
  deriving DecidableEq

/-- The record of a deployment.

* `created`: a command has stored an apply; `queued`: the API has; `turned`: an apply has got a new state.
* `held`: a command has taken a lock, or found it to be its own.
* `confirming`: `apply-confirm` has loaded the plan of its lock; `replanned`: an apply was planned again.
* `pinned`: `rollback` is about to pin its plan, for a target, on the lock; `takenUp`: `rollback-confirm` has
  loaded it.
* `started`: the start of an apply was recorded, with the apply and the row as they were stored then.
* `blocked`: a row was blocked as it had been read, with the row as it was stored then.
* `recovered`: a plan without changes has released the row of an apply that was in progress.
* `observed`: the observer of a command tells of the end of its apply.
* `recorded`: the ordinary result of an apply is about to be recorded.
* `delivered`: the result of an apply has come to its row, with whether it has changed it. -/
inductive Entry
  | created (handling : Handle) (origin : Origin) (apply : PRApply)
  | queued (apply : PRApply)
  | turned (apply : PRApply)
  | held (handling : Handle) (lock : Lock)
  | confirming (handling : Handle) (environment : String) (lock : Lock) (pending : Option StoredPlan)
  | replanned (handling : Handle) (planResp : PlanResponse)
  | pinned (planId database databaseType environment : String)
  | takenUp (handling : Handle) (plan : StoredPlan)
  | started (handling : Handle) (applyId : Nat) (now : Option PRApply) (row : Option Check)
  | blocked (row : Check) (stored : Option Check)
  | recovered (check : Check)
  | observed (apply : PRApply)
  | recorded (apply : PRApply)
  | delivered (apply : PRApply) (updated : Bool)
  deriving DecidableEq

/-! ## The state -/

structure Instance where
  locks : LockDb := {}
  plans : List StoredPlan := []
  nextPlan : Nat := 1
  applies : List PRApply := []
  nextApply : Nat := 1
  checks : List Check := []
  outside : Outside := {}
  log : List Entry := []

structure Hub where
  github : GitHub := {}
  notes : List Note := []
  inst : Instance := {}

abbrev Handling := Method Hub Reply

def lockPart : Part Hub LockDb where
  get h := h.inst.locks
  set h locks := { h with inst := { h.inst with locks := locks } }
  get_set _ _ := rfl
  set_get _ := rfl
  set_set _ _ _ := rfl

/-! ## Statements -/

def readStore {α : Type} (f : Instance → α) : Handling α := Method.read fun h => f h.inst

def writeStore {α : Type} (f : Instance → Instance × α) : Handling α :=
  Method.write fun h => ({ h with inst := (f h.inst).1 }, (f h.inst).2)

def leaveNote (n : Note) : Handling Unit := Method.write fun h => ({ h with notes := h.notes ++ [n] }, ())

def Instance.enter (s : Instance) (entries : List Entry) : Instance := { s with log := s.log ++ entries }

def leaveEntry (e : Entry) : Handling Unit := writeStore fun s => (s.enter [e], ())

def callLocks {α : Type} (m : LockMethod α) : Handling (Except LockError α) :=
  ExceptT.mk ((m.run.zoom lockPart) >>= fun r => pure (.ok r))

def locksAcquire (lock : Lock) : Handling (Except LockError Unit) := callLocks (acquireLock id lock)

def locksRelease (database dbType owner : String) : Handling (Except LockError Unit) :=
  callLocks (releaseLock id database dbType owner)

def locksGet (database dbType : String) : Handling (Option Lock) :=
  readStore (·.locks.get id database dbType)

def locksGetByPR (repo : String) (pr : Nat) : Handling (List Lock) :=
  readStore (·.locks.locks.filter fun l => l.repository = repo && l.pullRequest = pr)

def locksList : Handling (List Lock) := readStore (·.locks.locks)

def locksForceRelease (database dbType : String) : Handling Unit :=
  writeStore fun s =>
    ({ s with locks := { s.locks with locks := s.locks.locks.filter (!·.isFor id database dbType) } }, ())

/-- `Plans().Get`, in a state. -/
def Instance.plan (s : Instance) (planIdentifier : String) : Option StoredPlan :=
  s.plans.find? (·.planIdentifier = planIdentifier)

def plansGet (planIdentifier : String) : Handling (Option StoredPlan) := readStore (·.plan planIdentifier)

/-- The identifier of the `n`th plan. -/
def planIdentifier (n : Nat) : String := "plan-" ++ n.repr

def Instance.addPlan (s : Instance) (plan : StoredPlan) : Instance :=
  { s with
    plans := s.plans ++ [{ plan with planIdentifier := planIdentifier s.nextPlan }]
    nextPlan := s.nextPlan + 1 }

def plansCreate (plan : StoredPlan) : Handling String :=
  writeStore fun s => (s.addPlan plan, planIdentifier s.nextPlan)

def appliesGetByPR (repo : String) (pr : Nat) : Handling (List PRApply) :=
  readStore (·.applies.filter fun a => a.repository = repo && a.pullRequest = pr)

/-- `Applies().GetByDatabase`, of all environments. -/
def appliesGetByDatabase (database dbType : String) : Handling (List PRApply) :=
  readStore (·.applies.filter fun a => a.database = database && a.databaseType = dbType)

/-- `Applies().GetByApplyIdentifier`. -/
def appliesGetByIdentifier (identifier : String) : Handling (Option PRApply) :=
  readStore (·.applies.find? (·.applyIdentifier = identifier))

/-- `Applies().Get`, in a state. -/
def Instance.apply (s : Instance) (id : Nat) : Option PRApply := s.applies.find? (·.id = id)

def StoredPlan.newApply (plan : StoredPlan) (id lockId : Nat) (rollback : Bool) : PRApply :=
  { id := id, applyIdentifier := "apply-" ++ id.repr, planIdentifier := plan.planIdentifier
    database := plan.database, databaseType := plan.databaseType, repository := plan.repository
    pullRequest := plan.pullRequest, environment := plan.environment, lockId := lockId
    rollback := rollback, headSHA := plan.headSHA }

def Instance.addApply (s : Instance) (apply : PRApply) (entry : Entry) : Instance :=
  { s with applies := s.applies ++ [apply], nextApply := s.nextApply + 1, log := s.log ++ [entry] }

/-- `CreateWithGroupedOperations`, the row of the apply, for the command that is being handled. -/
def appliesCreate (handling : Handle) (origin : Origin) (plan : StoredPlan) (lockId : Nat) (rollback : Bool) :
    Handling PRApply :=
  writeStore fun s =>
    (s.addApply (plan.newApply s.nextApply lockId rollback)
      (.created handling origin (plan.newApply s.nextApply lockId rollback)),
      plan.newApply s.nextApply lockId rollback)

/-- `FetchPullRequestNoCache`: the head commit of a pull request as GitHub has it now. -/
def fetchPullRequestNoCache (repo : String) (pr : Nat) : Handling (Except String String) :=
  Method.read fun h =>
    match h.inst.outside.unavailable with
    | some e => .error e
    | none => .ok (h.github.head repo pr)

/-- `FetchPullRequest`, which answers with what the handling has cached. -/
def fetchPullRequest (cached : Option String) (repo : String) (pr : Nat) : Handling (Except String String) :=
  match cached with
  | some headSHA => pure (.ok headSHA)
  | none => fetchPullRequestNoCache repo pr

def ask {α : Type} (f : Outside → α) : Handling α := readStore fun s => f s.outside

def lockOwner (repo : String) (pr : Nat) : String := repo ++ "#" ++ pr.repr

end SchemaBot.Webhook
