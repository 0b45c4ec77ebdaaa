import SchemaBot.Storage.Operations

/-!
# The task store and the control requests

`taskStore.Update`, `UpsertShardProgress` and the two task lists of `pkg/storage/mysqlstore/tasks.go`,
and `pkg/storage/mysqlstore/control_requests.go`, where one row per apply and operation is reused by
every later request.
-/

namespace SchemaBot

open Concurrent

/-! ## Tasks -/

section
variable (ctx : Ctx) (task : Task) (s : Store) (applyId : Nat) (operation : ControlOperation)

/-- The guard of `taskStore.Update`: an operation lease scopes the write to the operation's own tasks,
an apply lease to the apply's. The operation lease takes precedence. -/
def taskWriteGuardFromContext : Except StoreError WriteGuard :=
  match ctx.operationLease with
  | some lease =>
    if lease.valid then .ok (.operation lease)
    else .error (leaseLost ("invalid operation lease for task " ++ toString task.id))
  | none =>
    match applyLeaseFromContext ctx task.applyId with
    | .error e => .error e
    | .ok (some lease) => .ok (.apply lease)
    | .ok none => .ok .unguarded

/-- The lease predicate of the `UPDATE tasks`. -/
def WriteGuard.taskPredicate (g : WriteGuard) (s : Store) (t : Task) : Bool :=
  match g with
  | .unguarded => true
  | .apply lease => s.applies.any fun a => a.id = t.applyId && a.leaseToken = lease.token
  | .operation lease =>
    t.applyOperationId = some lease.operationId &&
      s.operationLeaseOwnsRow lease.operationId lease.token

/-- `verifyLeaseStillOwned`. -/
def WriteGuard.verifyStillOwned : WriteGuard → StoreMethod Unit
  | .unguarded => pure ()
  | .apply lease => ensureApplyLeaseStillOwned lease
  | .operation lease => ensureOperationLeaseStillOwned lease

/-- The columns `taskStore.Update` sets. -/
def assignTask (t : Task) : Task :=
  { t with
    state := task.state, errorMessage := task.errorMessage, attempt := task.attempt
    progress := task.progress, startedAt := task.startedAt, completedAt := task.completedAt
    updatedAt := s.now }

/-- `taskStore.Update`. -/
def updateTask : StoreMethod Unit := do
  let guard ← Method.lift (taskWriteGuardFromContext ctx task)
  let rows ← execTasks (fun s t => t.id = task.id && guard.taskPredicate s t) (assignTask task)
  if rows = 0 then guard.verifyStillOwned else pure ()

/-- `insertShardTaskGuarded`: the insert selects the leased operation, so a lost lease inserts
nothing. -/
def insertShardTaskGuarded (lease : OperationLease) : StoreMethod Unit := do
  let rows ← Method.transaction fun s =>
    if s.operationLeaseOwnsRow lease.operationId lease.token then do
      let (s, _) ← s.insertTask task
      .ok (s, 1)
    else .ok (s, 0)
  if rows = 0 then ensureOperationLeaseStillOwned lease else pure ()

/-- `UpsertShardProgress`: only the holder of the operation lease writes an operation's shard rows. -/
def upsertShardProgress : StoreMethod Unit :=
  match ctx.operationLease with
  | none => throw ⟨"upsert shard progress requires an operation lease", .unnamed⟩
  | some lease =>
    if lease.valid = false then throw (leaseLost "invalid operation lease for shard progress")
    else match task.applyOperationId with
      | none => throw ⟨"upsert shard progress requires apply_operation_id", .unnamed⟩
      | some operationId =>
        if operationId ≠ lease.operationId then
          throw ⟨"upsert shard progress targets another operation than the held lease", .unnamed⟩
        else if task.tableName = "" then
          throw ⟨"upsert shard progress requires a table name", .unnamed⟩
        else if task.shard = "" then
          throw ⟨"upsert shard progress requires a non-empty shard", .unnamed⟩
        else do
          let row ← Method.read fun s => s.tasks.find? fun t =>
            t.applyOperationId = some operationId && t.namespaceName = task.namespaceName &&
              t.tableName = task.tableName && t.shard = task.shard
          match row with
          | some t => updateTask ctx { task with id := t.id }
          | none => insertShardTaskGuarded task lease

/-- `GetByApplyID`: the per-table tasks of an apply, without the rows of a shard. -/
def Store.getByApplyID : List Task :=
  s.tasks.filter fun t => t.applyId = applyId && t.shard = ""

/-- `GetByApplyOperationID`: the tasks one operation drives, its shard row included. -/
def Store.getByApplyOperationID (operationId : Nat) : List Task :=
  s.tasks.filter fun t => t.applyOperationId = some operationId &&
    s.operations.any fun op => op.id = operationId &&
      (t.shard = "" || (op.operationKind = .work &&
        op.operationKey = t.namespaceName ++ "/" ++ t.shard ++ "/" ++ t.tableName))

/-! ## Control requests -/

/-- `requestPending`: a pending request is returned as it is, an older one is reset to pending, and the
first one is inserted. The flag says that a request was already pending. -/
def requestPending (requestedBy metadata : String) : StoreMethod (ControlRequest × Bool) :=
  Method.write fun s =>
    match s.controlRequests.find? fun cr => cr.applyId = applyId && cr.operation = operation with
    | some cr =>
      if cr.status = .pending then (s, cr, true)
      else
        let reset := fun (r : ControlRequest) =>
          { r with
            status := .pending, requestedBy, errorMessage := "", metadata, completedAt := none
            updatedAt := s.now }
        (s.updateControlRequests (fun _ r => r.id = cr.id) (fun _ => reset), reset cr, false)
    | none =>
      let row : ControlRequest :=
        { id := s.nextControl, applyId, operation, requestedBy, metadata, createdAt := s.now
          updatedAt := s.now }
      ({ s with controlRequests := s.controlRequests ++ [row], nextControl := s.nextControl + 1 },
        row, false)

def Store.getPending : Option ControlRequest :=
  s.controlRequests.find? fun cr =>
    cr.applyId = applyId && cr.operation = operation && cr.status = .pending

/-- The row that `CompletePending` and `FailPending` write, with the join of an apply lease. -/
def pendingRequestRow (lease : Option ApplyLease) (s : Store) (cr : ControlRequest) : Bool :=
  cr.applyId = applyId && cr.operation = operation && cr.status = .pending &&
    (match lease with | none => true | some l => s.applyLeaseMatches l)

end

section
variable (ctx : Ctx) (applyId : Nat) (operation : ControlOperation)

def settlePending (assign : Store → ControlRequest → ControlRequest) : StoreMethod Unit := do
  let lease ← Method.lift (applyLeaseFromContext ctx applyId)
  let rows ← execControlRequests (pendingRequestRow applyId operation lease) assign
  match lease with
  | none => pure ()
  | some l => do
    let _ ← confirmLeaseOnZeroRows rows l
    pure ()

def completePending : StoreMethod Unit :=
  settlePending ctx applyId operation fun s cr =>
    { cr with status := .completed, completedAt := cr.completedAt <|> some s.now, updatedAt := s.now }

def failPending (errorMessage : String) : StoreMethod Unit :=
  settlePending ctx applyId operation fun s cr =>
    { cr with
      status := .failed, errorMessage, completedAt := cr.completedAt <|> some s.now
      updatedAt := s.now }

end

end SchemaBot
