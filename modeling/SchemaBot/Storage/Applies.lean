import SchemaBot.Storage.Leases

/-!
# The apply store: creation and updates

`pkg/storage/mysqlstore/applies.go`, except its claims (`SchemaBot.Storage.ApplyClaims`).
-/

namespace SchemaBot

open Concurrent

/-! ## States and targets -/

/-- `claimableApplyStates`: active states whose stale heartbeat means that the driver died. -/
def claimableApplyStates : List ApplyState :=
  [.running, .runningDegraded, .resuming, .waitingForDeploy, .waitingForCutover, .recovering,
    .recoveringCutover, .cuttingOver, .revertWindow, .preparingBranch, .applyingBranchChanges,
    .validatingBranch, .creatingDeployRequest, .validatingDeployRequest]

def maxRecoveryAttempts : Nat := 10

/-- `retryableRecoveryFreshnessDays`, in seconds. -/
def retryableRecoveryFreshness : Nat := 86400

/-- `INTERVAL 1 MINUTE`, the heartbeat window. -/
def heartbeatStaleness : Nat := 60

/-- `updated_at < NOW() - INTERVAL 1 MINUTE`. -/
def stale (now updatedAt : Nat) : Bool := updatedAt + heartbeatStaleness < now

structure Target where
  database : String
  databaseType : String
  environment : String
  deployment : String
  deriving DecidableEq

section
variable (ctx : Ctx) (lease : Option ApplyLease) (apply : Apply) (s : Store) (t : Target) (applyId : Nat)
  (a : Apply)

def Apply.target : Target := ⟨a.database, a.databaseType, a.environment, a.deployment⟩

def Target.hasApplyTarget : Bool :=
  t.database ≠ "" && t.databaseType ≠ "" && t.environment ≠ ""

/-- The `%s/%s/%s` rendering of a target in error texts. -/
def Target.path : String := t.database ++ "/" ++ t.databaseType ++ "/" ++ t.environment

def Store.operationDeploymentsForApply : List String :=
  (s.operations.filter (·.applyId = applyId)).map (·.deployment)

/-- The row that `checkNoActiveApplyForTargets` looks for: a non-terminal apply on the same database,
type and environment that owns one of the deployments, by its own column or by an operation. -/
def Store.blocks (deployments : List String) (excludeApplyId : Nat) (a : Apply) : Bool :=
  a.database = t.database && a.databaseType = t.databaseType && a.environment = t.environment &&
    !a.state.isTerminal &&
    (a.deployment ∈ deployments ||
      s.operations.any fun o => o.applyId = a.id && o.deployment ∈ deployments) &&
    (excludeApplyId = 0 || a.id ≠ excludeApplyId)

def Store.checkNoActiveApplyForTargets (deployments : List String)
    (excludeApplyId : Nat) : Except StoreError Unit :=
  if deployments = [] then
    .error ⟨"active apply target requires at least one deployment for " ++ t.path, .unnamed⟩
  else if s.applies.any (s.blocks t deployments excludeApplyId) then
    .error ⟨"active apply exists for " ++ t.path, .activeApplyExists⟩
  else .ok ()

theorem Store.checkNoActiveApplyForTargets_error {s : Store} {t : Target} {deployments : List String}
    {excludeApplyId : Nat} {e : StoreError} (hne : deployments ≠ [])
    (h : s.checkNoActiveApplyForTargets t deployments excludeApplyId = .error e) :
    e.sentinel = .activeApplyExists := by
  rw [checkNoActiveApplyForTargets, if_neg hne] at h
  split at h <;> cases h
  rfl

/-- `acquireApplyTargetLockConn`, on the target alone. -/
def acquireApplyTargetLock : Except StoreError Unit :=
  if t.hasApplyTarget then .ok ()
  else .error ⟨"active apply target is required for " ++ t.path, .unnamed⟩

/-! ## Creation -/

/-- The `INSERT INTO applies`: the columns it sets, and the defaults of the others. -/
def Store.insertApply : Except StoreError (Store × Nat) :=
  if s.applies.any (fun r => r.applyIdentifier = a.applyIdentifier ||
      (a.idempotencyKey ≠ "" && r.idempotencyKey = a.idempotencyKey)) then
    .error ⟨"create apply " ++ a.applyIdentifier, .applyIDExists⟩
  else
    let row : Apply :=
      { a with
        id := s.nextApply
        options := some (a.options.getD {})
        leaseOwner := "", leaseToken := 0, leaseAcquiredAt := none
        createdAt := s.now, updatedAt := s.now
        startedAt := none, completedAt := none, revertSkippedAt := none }
    .ok ({ s with applies := s.applies ++ [row], nextApply := s.nextApply + 1 }, s.nextApply)

/-- `insertApplyOperation`. The empty state, policies and kind of the source are the defaults of the
row type. -/
def Store.insertApplyOperation (op : ApplyOperation) : Except StoreError (Store × Nat) :=
  if s.operations.any (fun r => r.applyId = op.applyId && r.deployment = op.deployment &&
      r.operationKey = op.operationKey) then
    .error ⟨"apply operation already exists", .applyOperationExists⟩
  else
    let row : ApplyOperation :=
      { op with
        id := s.nextOperation
        attempt := 0
        leaseOwner := "", leaseToken := 0, leaseAcquiredAt := none
        createdAt := s.now, updatedAt := s.now }
    .ok ({ s with operations := s.operations ++ [row], nextOperation := s.nextOperation + 1 },
      s.nextOperation)

def Store.insertTask (t : Task) : Except StoreError (Store × Nat) :=
  if s.tasks.any (fun r => r.taskIdentifier = t.taskIdentifier) then
    .error ⟨"insert task " ++ t.taskIdentifier, .unnamed⟩
  else
    .ok ({ s with tasks := s.tasks ++ [{ t with id := s.nextTask }], nextTask := s.nextTask + 1 },
      s.nextTask)

/-- `ApplyOperationWithTasks`: one operation and the tasks it runs. -/
structure ApplyOperationWithTasks where
  operation : ApplyOperation
  tasks : List Task
  allowTaskless : Bool := false
  deriving DecidableEq

/-- The task loop of `insertApplyGroupedOperations`: each task is linked to the apply and to the
operation just inserted. -/
def Store.insertGroupTasks (applyId operationId : Nat) : List Task → Store → Except StoreError Store
  | [], s => .ok s
  | t :: ts, s => do
    let (s, _) ← s.insertTask { t with applyId, applyOperationId := some operationId }
    insertGroupTasks applyId operationId ts s

/-- The group loop of `insertApplyGroupedOperations`. A work operation without tasks is refused unless
the group allows it. -/
def Store.insertGroups (applyId : Nat) : List ApplyOperationWithTasks → Store → Except StoreError Store
  | [], s => .ok s
  | g :: gs, s =>
    if g.tasks = [] ∧ g.operation.operationKind ≠ .groupFinalizer ∧ g.allowTaskless = false then
      .error ⟨"create apply deployment " ++ g.operation.deployment ++
        ": grouped work operation has no tasks", .unnamed⟩
    else do
      let (s, operationId) ← s.insertApplyOperation { g.operation with applyId }
      let s ← Store.insertGroupTasks applyId operationId g.tasks s
      insertGroups applyId gs s

def Store.insertApplyGroupedOperations (groups : List ApplyOperationWithTasks) : Except StoreError Store :=
  if groups = [] then .error ⟨"create apply: grouped operations are empty", .unnamed⟩
  else Store.insertGroups applyId groups s

/-- The operation loop of `insertApplyTasksAndOperations`, with the inserted identifiers. -/
def Store.insertOperations (applyId : Nat) : List ApplyOperation → Store → Except StoreError (Store × List Nat)
  | [], s => .ok (s, [])
  | op :: ops, s => do
    let (s, id) ← s.insertApplyOperation { op with applyId }
    let (s, ids) ← insertOperations applyId ops s
    .ok (s, id :: ids)

def linkTask (ids : List Nat) (t : Task) : Except StoreError Task :=
  match ids, t.applyOperationId with
  | [], none => .ok t
  | [], some _ => .error ⟨"task has apply_operation_id but apply has no operations", .unnamed⟩
  | [id], none => .ok { t with applyOperationId := some id }
  | _, none => .error ⟨"task missing apply_operation_id", .unnamed⟩
  | ids, some id =>
    if id ∈ ids then .ok t
    else .error ⟨"task apply_operation_id does not match any inserted operation", .unnamed⟩

/-- The task loop of `insertApplyTasksAndOperations`. -/
def Store.insertTasks (applyId : Nat) : List Task → Store → Except StoreError Store
  | [], s => .ok s
  | t :: ts, s => do
    let (s, _) ← s.insertTask { t with applyId }
    insertTasks applyId ts s

/-- `insertApplyTasksAndOperations`: operations first, so that tasks can be linked to them. -/
def Store.insertApplyTasksAndOperations (tasks : List Task)
    (operations : List ApplyOperation) : Except StoreError Store := do
  let (s, ids) ← Store.insertOperations applyId operations s
  let tasks ← tasks.mapM (linkTask ids)
  Store.insertTasks applyId tasks s

/-- The first step of `createWithRows`: an active apply takes the target lock and must find its
deployments free. -/
def Store.checkCreate (newDeployments : List String) : Except StoreError Unit :=
  if a.state.isTerminal = false then do
    acquireApplyTargetLock a.target
    s.checkNoActiveApplyForTargets a.target newDeployments 0
  else .ok ()

/-- `createWithRows`: the overlap check of an active apply, the apply row, and its child rows, in one
transaction. -/
def createWithRows (newDeployments : List String)
    (writeRows : Store → Nat → Except StoreError Store) : StoreMethod Nat :=
  Method.transaction fun s => do
    s.checkCreate a newDeployments
    let (s, id) ← s.insertApply a
    let s ← writeRows s id
    .ok (s, id)

def create : StoreMethod Nat := createWithRows a [a.deployment] fun s _ => .ok s

def createWithTasksAndOperations (tasks : List Task) (operations : List ApplyOperation) : StoreMethod Nat :=
  createWithRows a (a.deployment :: operations.map (·.deployment)) fun s id =>
    s.insertApplyTasksAndOperations id tasks operations

def createWithGroupedOperations (groups : List ApplyOperationWithTasks) : StoreMethod Nat :=
  createWithRows a (a.deployment :: groups.map (·.operation.deployment)) fun s id =>
    s.insertApplyGroupedOperations id groups

/-! ## Updates -/

/-- `applyTargetForUpdate`: the apply's own target columns, or the stored ones where they are
incomplete, empty where there is no row. -/
def Store.applyTargetForUpdate : Target :=
  if a.target.hasApplyTarget = true ∧ a.deployment ≠ "" then a.target
  else match s.getApply a.id with
    | some row => row.target
    | none => ⟨"", "", "", ""⟩

/-- The `AND lease_token = ?` of a write that may carry an apply lease. -/
def leasePredicate : Bool :=
  match lease with
  | none => true
  | some l => a.leaseToken = l.token

def assignUpdate : Apply :=
  { a with
    state := apply.state, errorMessage := apply.errorMessage, attempt := apply.attempt
    externalId := apply.externalId
    options := if apply.options = none then a.options else apply.options
    startedAt := apply.startedAt, completedAt := apply.completedAt, updatedAt := s.now }

/-- The overlap check of `Update`, for a write that leaves the apply active on a known target. -/
def Store.checkUpdate (apply : Apply) (t : Target) : Except StoreError Unit :=
  if apply.state.isTerminal = false ∧ t.hasApplyTarget = true then
    s.checkNoActiveApplyForTargets t (s.operationDeploymentsForApply apply.id ++ [t.deployment])
      apply.id
  else .ok ()

theorem Store.checkUpdate_error {s : Store} {apply : Apply} {t : Target} {e : StoreError}
    (h : s.checkUpdate apply t = .error e) : e.sentinel = .activeApplyExists := by
  unfold checkUpdate at h
  split at h
  · exact checkNoActiveApplyForTargets_error (by simp) h
  · cases h

def updateRow (apply a : Apply) : Bool :=
  a.id = apply.id && leasePredicate lease a

def Store.confirmUpdate (lease : Option ApplyLease) (rows : Nat) : Except StoreError Unit :=
  match lease with
  | none => .ok ()
  | some l =>
    if rows = 0 ∧ s.applyLeaseMatches l = false then
      .error (leaseLost ("apply lease for apply " ++ toString l.applyId ++ " is no longer current"))
    else .ok ()

/-- The transaction of `Update` on the resolved target: the overlap check of an active state, the
guarded write, and the lease check of a write that changed nothing. -/
def updateTx (s : Store) : Except StoreError (Store × Unit) := do
  s.checkUpdate apply t
  s.confirmUpdate lease (Table.affected (updateRow lease apply) (assignUpdate apply s) s.applies)
  .ok (s.updateApplies (fun _ => updateRow lease apply) (assignUpdate apply), ())

def refuseOperationLeaseOnly (message : String) : Except StoreError Unit :=
  if ctx.operationLease.isSome = true ∧ ctx.applyLease = none then .error (leaseLost message)
  else .ok ()

/-- `Update`: the direct write of a drive that owns the whole apply. -/
def update (ctx : Ctx) (apply : Apply) : StoreMethod Unit := do
  Method.lift (refuseOperationLeaseOnly ctx
    ("operation lease does not authorize a direct update of apply " ++ toString apply.id))
  let lease ← Method.lift (applyLeaseFromContext ctx apply.id)
  let target ← Method.read fun s =>
    if apply.state.isTerminal = false then s.applyTargetForUpdate apply else apply.target
  Method.transaction (updateTx lease apply target)

theorem call_update : (∃ e, Method.call (update ctx apply) s = (s, .error e)) ∨
      ∃ lease, applyLeaseFromContext ctx apply.id = .ok lease ∧
        s.checkUpdate apply (if apply.state.isTerminal = false then s.applyTargetForUpdate apply
          else apply.target) = .ok () ∧
        s.confirmUpdate lease (Table.affected (updateRow lease apply) (assignUpdate apply s) s.applies) = .ok () ∧
        Method.call (update ctx apply) s =
          (s.updateApplies (fun _ => updateRow lease apply) (assignUpdate apply), .ok ()) := by
  unfold update
  cases refuseOperationLeaseOnly ctx _ with
  | error e => exact .inl ⟨e, rfl⟩
  | ok _ =>
    cases hlease : applyLeaseFromContext ctx apply.id with
    | error e => exact .inl ⟨e, rfl⟩
    | ok lease =>
      rw [Method.call_bind_ok (Method.call_lift _ _), Method.call_bind_ok (Method.call_lift _ _),
        Method.call_bind_ok (Method.call_read _ _), Method.call_transaction]
      split
      · next t _ hf =>
        obtain ⟨_, hcheck, hf⟩ := bind_eq_ok hf
        obtain ⟨_, hconfirm, hf⟩ := bind_eq_ok hf
        cases hf
        exact .inr ⟨lease, rfl, hcheck, hconfirm, rfl⟩
      · exact .inl ⟨_, rfl⟩

theorem Store.confirmUpdate_ok {ctx : Ctx} {s : Store} {apply : Apply} {lease : Option ApplyLease}
    (hlease : applyLeaseFromContext ctx apply.id = .ok lease)
    (h : s.confirmUpdate lease (Table.affected (updateRow lease apply) (assignUpdate apply s) s.applies) = .ok ()) :
    lease = none ∨ ∃ r ∈ s.applies, updateRow lease apply r = true := by
  cases lease with
  | none => exact .inl rfl
  | some l =>
    right
    by_cases hzero : Table.affected (updateRow (some l) apply) (assignUpdate apply s) s.applies = 0
    · have hmatch : s.applyLeaseMatches l = true := by
        by_contra hlost
        simp [Store.confirmUpdate, hzero, hlost] at h
      obtain ⟨r, hr, hheld⟩ := List.any_eq_true.1 hmatch
      rw [applyLeaseFromContext_applyId hlease] at hheld
      exact ⟨r, hr, hheld⟩
    · exact Table.exists_of_affected_ne_zero hzero

/-- `derivedStateGuardForContext`: an operation lease of the apply takes precedence over its apply
lease. -/
def derivedStateGuardForContext : Except StoreError WriteGuard :=
  match ctx.operationLease with
  | some lease =>
    if lease.valid = false then
      .error (leaseLost ("invalid operation lease for apply " ++ toString applyId))
    else if lease.applyId ≠ applyId then
      .error (leaseLost ("operation lease for apply " ++ toString lease.applyId ++
        " cannot write derived state for apply " ++ toString applyId))
    else .ok (.operation lease)
  | none =>
    match applyLeaseFromContext ctx applyId with
    | .error e => .error e
    | .ok (some lease) => .ok (.apply lease)
    | .ok none => .ok .unguarded

/-- `derivedStateGuard.predicate`. -/
def WriteGuard.derivedStatePredicate (g : WriteGuard) (s : Store) (a : Apply) : Bool :=
  match g with
  | .unguarded => true
  | .apply lease => a.leaseToken = lease.token
  | .operation lease => s.operationLeaseOwnsApply lease a.id

def WriteGuard.ensureStillOwned (g : WriteGuard) (applyId : Nat) : StoreMethod Unit :=
  match g with
  | .unguarded => pure ()
  | .apply lease => ensureApplyLeaseStillOwned lease
  | .operation lease => ensureOperationLeaseOwnsApply lease applyId

/-- The assignments of the projection: `started_at` is only ever stamped once. -/
def assignDerived (newState : ApplyState) (errorMessage : String) (startedAt completedAt : Option Nat)
    (s : Store) (a : Apply) : Apply :=
  { a with
    state := newState, errorMessage, startedAt := a.startedAt <|> startedAt, completedAt
    updatedAt := s.now }

def derivedStateRow (guard : WriteGuard) (applyId : Nat) (expected : ApplyState) (s : Store) (a : Apply) : Bool :=
  a.id = applyId && a.state = expected && guard.derivedStatePredicate s a

/-- `UpdateDerivedState`: the compare-and-swap of the projected state. It neither takes the target lock
nor repeats the overlap check. -/
def updateDerivedState (expected newState : ApplyState)
    (errorMessage : String) (startedAt completedAt : Option Nat) : StoreMethod Bool := do
  let guard ← Method.lift (derivedStateGuardForContext ctx applyId)
  let rows ← execApplies (derivedStateRow guard applyId expected)
    (assignDerived newState errorMessage startedAt completedAt)
  if 0 < rows then pure true
  else do
    guard.ensureStillOwned applyId
    if newState.normalize ≠ expected.normalize then pure false
    else Method.read fun s =>
      match s.getApply applyId with
      | none => false
      | some a => a.state.normalize = expected.normalize

/-- `SetRevertSkipped`: the context's leases are not consulted, and `updated_at` is pinned. -/
def setRevertSkipped (_ctx : Ctx) (applyId at' : Nat) : StoreMethod Unit := do
  let _ ← execApplies (fun _ a => a.id = applyId) fun _ a => { a with revertSkippedAt := some at' }
  pure ()

/-- `Heartbeat` of an apply. -/
def heartbeat (ctx : Ctx) (applyId : Nat) : StoreMethod Unit := do
  Method.lift (refuseOperationLeaseOnly ctx
    ("operation lease does not authorize a heartbeat of apply " ++ toString applyId))
  let lease ← Method.lift (applyLeaseFromContext ctx applyId)
  let rows ← execApplies (fun _ a => a.id = applyId && leasePredicate lease a)
    fun s a => { a with updatedAt := s.now }
  match lease with
  | none => pure ()
  | some l => do
    let _ ← confirmLeaseOnZeroRows rows l
    pure ()

/-! ## Expiry -/

/-- The applies `ExpireRetryable` selects: retry budget spent, or not touched for a day. -/
def Store.expired : Bool :=
  a.state = .failedRetryable &&
    (maxRecoveryAttempts ≤ a.attempt || a.updatedAt + retryableRecoveryFreshness < s.now)

def Store.expiredIds : List Nat := (s.applies.filter s.expired).map (·.id)

end

/-- `ExpireRetryable`: expired applies, their open tasks and their retryable operations become
failed. -/
def expireRetryable : StoreMethod (List Nat) :=
  Method.transaction fun s =>
    let ids := s.expiredIds
    let stamp := fun (c : Option Nat) => c <|> some s.now
    .ok ({ s with
      applies := Table.update (fun a => decide (a.id ∈ ids))
        (fun a => { a with state := .failed, completedAt := stamp a.completedAt, updatedAt := s.now })
        s.applies
      tasks := Table.update (fun t => !t.state.isTerminal && decide (t.applyId ∈ ids))
        (fun t => { t with state := .failed, completedAt := stamp t.completedAt, updatedAt := s.now })
        s.tasks
      operations := Table.update
        (fun o => decide (o.state = .failedRetryable) && decide (o.applyId ∈ ids))
        (fun o => { o with state := .failed, completedAt := stamp o.completedAt, updatedAt := s.now })
        s.operations }, ids)

end SchemaBot
