import SchemaBot.Lib.Prog
import SchemaBot.Lib.Table
import SchemaBot.State

/-!
# The rows of the store, leases and errors

The tables `applies`, `apply_operations`, `tasks` and `apply_control_requests`
(`pkg/schema/mysql`, `pkg/storage/types.go`), the two ownership leases and the context that carries
them (`pkg/storage/lease.go`), and the statements the store's methods are made of.
-/

namespace SchemaBot

open Concurrent (Method)

/-! ## Rows -/

inductive CutoverPolicy
  | rolling | barrier
  deriving DecidableEq

inductive OnFailure
  | halt | continue | pause
  deriving DecidableEq

inductive OperationKind
  | work | groupFinalizer
  deriving DecidableEq

inductive ControlOperation
  | start | stop | cutover
  deriving DecidableEq

inductive ControlStatus
  | pending | completed | failed
  deriving DecidableEq

/-- The durable options the modelled code reads: manual `--defer-cutover` and `--defer-deploy`. -/
structure ApplyOptions where
  deferCutover : Bool := false
  deferDeploy : Bool := false
  skipRevert : Bool := false
  deriving DecidableEq

/-- A row of `applies`. `options` is `none` for the empty byte slice of an apply in memory. -/
structure Apply where
  id : Nat := 0
  applyIdentifier : String := ""
  database : String := ""
  databaseType : String := ""
  environment : String := ""
  deployment : String := ""
  externalId : String := ""
  idempotencyKey : String := ""
  state : ApplyState := .pending
  errorMessage : String := ""
  options : Option ApplyOptions := none
  attempt : Nat := 0
  leaseOwner : String := ""
  leaseToken : Nat := 0
  leaseAcquiredAt : Option Nat := none
  createdAt : Nat := 0
  startedAt : Option Nat := none
  completedAt : Option Nat := none
  updatedAt : Nat := 0
  revertSkippedAt : Option Nat := none
  deriving DecidableEq

/-- A row of `apply_operations`: the part of an apply that one deployment (and shard) runs. -/
structure ApplyOperation where
  id : Nat := 0
  applyId : Nat := 0
  deployment : String := ""
  operationKey : String := ""
  operationKind : OperationKind := .work
  target : String := ""
  state : ApplyState := .pending
  errorMessage : String := ""
  cutoverPolicy : CutoverPolicy := .rolling
  onFailure : OnFailure := .halt
  attempt : Nat := 0
  leaseOwner : String := ""
  leaseToken : Nat := 0
  leaseAcquiredAt : Option Nat := none
  startedAt : Option Nat := none
  completedAt : Option Nat := none
  engineResumeContext : String := ""
  engineResumeMetadata : String := ""
  createdAt : Nat := 0
  updatedAt : Nat := 0
  deriving DecidableEq

structure TaskProgress where
  rowsCopied : Nat := 0
  rowsTotal : Nat := 0
  progressPercent : Nat := 0
  etaSeconds : Nat := 0
  checksumRowsChecked : Nat := 0
  checksumRowsTotal : Nat := 0
  cutoverAttempts : Nat := 0
  isInstant : Bool := false
  readyToComplete : Bool := false
  engineMigrationId : String := ""
  deriving DecidableEq

/-- A row of `tasks`. -/
structure Task where
  id : Nat := 0
  taskIdentifier : String := ""
  applyId : Nat := 0
  applyOperationId : Option Nat := none
  namespaceName : String := ""
  tableName : String := ""
  shard : String := ""
  ddl : String := ""
  ddlAction : String := ""
  state : TaskState := .pending
  errorMessage : String := ""
  attempt : Nat := 0
  progress : TaskProgress := {}
  startedAt : Option Nat := none
  completedAt : Option Nat := none
  createdAt : Nat := 0
  updatedAt : Nat := 0
  deriving DecidableEq

/-- A row of `apply_control_requests`: one per apply and operation, reused by later requests. -/
structure ControlRequest where
  id : Nat := 0
  applyId : Nat := 0
  operation : ControlOperation := .stop
  status : ControlStatus := .pending
  requestedBy : String := ""
  errorMessage : String := ""
  metadata : String := ""
  completedAt : Option Nat := none
  createdAt : Nat := 0
  updatedAt : Nat := 0
  deriving DecidableEq

/-- The store: the clock, the four tables, their `AUTO_INCREMENT` counters, and the next UUID. -/
structure Store where
  now : Nat := 0
  applies : List Apply := []
  operations : List ApplyOperation := []
  tasks : List Task := []
  controlRequests : List ControlRequest := []
  nextApply : Nat := 1
  nextOperation : Nat := 1
  nextTask : Nat := 1
  nextControl : Nat := 1
  nextToken : Nat := 1
  deriving DecidableEq

/-! ## Leases and errors -/

/-- `ApplyLease`: the capability of one claim of an apply. -/
structure ApplyLease where
  applyId : Nat
  token : Nat
  deriving DecidableEq

def ApplyLease.valid (l : ApplyLease) : Bool := 0 < l.applyId && l.token ≠ 0

/-- `OperationLease`: the capability of one claim of an operation. -/
structure OperationLease where
  applyId : Nat
  operationId : Nat
  token : Nat
  deriving DecidableEq

def OperationLease.valid (l : OperationLease) : Bool :=
  0 < l.applyId && 0 < l.operationId && l.token ≠ 0

/-- The leases a `context.Context` carries. -/
structure Ctx where
  applyLease : Option ApplyLease := none
  operationLease : Option OperationLease := none
  deriving DecidableEq

def Apply.lease (a : Apply) : ApplyLease := ⟨a.id, a.leaseToken⟩

def ApplyOperation.lease (op : ApplyOperation) : OperationLease := ⟨op.applyId, op.id, op.leaseToken⟩

/-- The sentinel errors of `pkg/storage/errors.go` that callers test with `errors.Is`, and the conflict
that the control handlers answer with (`controlConflictf`). -/
inductive Sentinel
  | applyNotFound | applyIDExists | activeApplyExists | applyLeaseLost
  | applyOperationNotFound | applyOperationExists | controlConflict | unnamed
  deriving DecidableEq

structure StoreError where
  message : String
  sentinel : Sentinel := .unnamed
  deriving DecidableEq

abbrev StoreMethod := Method Store StoreError

def leaseLost (message : String) : StoreError := ⟨message, .applyLeaseLost⟩

/-! ## Statements -/

section
variable {α : Type}

/-- `UPDATE applies`. The predicate and the assignments read the store (`NOW()`, joins). -/
def Store.updateApplies (p : Store → Apply → Bool) (f : Store → Apply → Apply) (s : Store) : Store :=
  { s with applies := Table.update (p s) (f s) s.applies }

/-- `UPDATE apply_operations`. -/
def Store.updateOperations (p : Store → ApplyOperation → Bool)
    (f : Store → ApplyOperation → ApplyOperation) (s : Store) : Store :=
  { s with operations := Table.update (p s) (f s) s.operations }

def Store.updateTasks (p : Store → Task → Bool) (f : Store → Task → Task) (s : Store) : Store :=
  { s with tasks := Table.update (p s) (f s) s.tasks }

/-- `UPDATE apply_control_requests`. -/
def Store.updateControlRequests (p : Store → ControlRequest → Bool)
    (f : Store → ControlRequest → ControlRequest) (s : Store) : Store :=
  { s with controlRequests := Table.update (p s) (f s) s.controlRequests }

/-- An `UPDATE applies` that reports its affected rows. -/
def execApplies (p : Store → Apply → Bool) (f : Store → Apply → Apply) : StoreMethod Nat :=
  Method.write fun s => (s.updateApplies p f, Table.affected (p s) (f s) s.applies)

/-- An `UPDATE apply_operations` that reports its affected rows. -/
def execOperations (p : Store → ApplyOperation → Bool)
    (f : Store → ApplyOperation → ApplyOperation) : StoreMethod Nat :=
  Method.write fun s => (s.updateOperations p f, Table.affected (p s) (f s) s.operations)

/-- An `UPDATE tasks` that reports its affected rows. -/
def execTasks (p : Store → Task → Bool) (f : Store → Task → Task) : StoreMethod Nat :=
  Method.write fun s => (s.updateTasks p f, Table.affected (p s) (f s) s.tasks)

/-- An `UPDATE apply_control_requests` that reports its affected rows. -/
def execControlRequests (p : Store → ControlRequest → Bool)
    (f : Store → ControlRequest → ControlRequest) : StoreMethod Nat :=
  Method.write fun s => (s.updateControlRequests p f, Table.affected (p s) (f s) s.controlRequests)

/-- The `ON UPDATE CURRENT_TIMESTAMP` of `apply_operations.updated_at`: a statement that does not set
the column refreshes it when it changes the row. -/
def touch (now : Nat) (f : ApplyOperation → ApplyOperation) (op : ApplyOperation) : ApplyOperation :=
  if f op = op then op else { f op with updatedAt := now }

/-- `SELECT ... WHERE id = ?` on `applies`. -/
def Store.getApply (s : Store) (id : Nat) : Option Apply := s.applies.find? (·.id = id)

/-- `SELECT ... WHERE id = ?` on `apply_operations`. -/
def Store.getOperation (s : Store) (id : Nat) : Option ApplyOperation :=
  s.operations.find? (·.id = id)

/-- `(earlier.created_at, earlier.id) < (later.created_at, later.id)`, the deployment order. -/
def ApplyOperation.before (a b : ApplyOperation) : Bool :=
  a.createdAt < b.createdAt || (a.createdAt = b.createdAt && a.id < b.id)

/-- `ORDER BY created_at`; the primary key breaks ties. -/
def Apply.before (a b : Apply) : Bool :=
  a.createdAt < b.createdAt || (a.createdAt = b.createdAt && a.id < b.id)

/-- `EXISTS (SELECT 1 FROM apply_control_requests ...)` of a pending request. -/
def Store.hasPending (s : Store) (applyId : Nat) (operation : ControlOperation) : Bool :=
  s.controlRequests.any fun cr =>
    cr.applyId = applyId && cr.operation = operation && cr.status = .pending

end

theorem Store.getApply_some {s : Store} {id : Nat} {a : Apply} (h : s.getApply id = some a) :
    a ∈ s.applies ∧ a.id = id := by
  have := List.find?_some h
  exact ⟨List.mem_of_find?_eq_some h, of_decide_eq_true this⟩

theorem Store.getApply_none {s : Store} {id : Nat} (h : s.getApply id = none) : ∀ a ∈ s.applies, a.id ≠ id :=
  fun a ha he => List.find?_eq_none.1 h a ha (decide_eq_true he)

theorem ApplyOperation.before_or_before {a b : ApplyOperation} (h : a.id ≠ b.id) :
    a.before b = true ∨ b.before a = true := by
  simp only [before, Bool.or_eq_true, Bool.and_eq_true, decide_eq_true_eq]
  omega

end SchemaBot
