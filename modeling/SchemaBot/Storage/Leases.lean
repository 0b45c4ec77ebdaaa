import SchemaBot.Storage.Rows

/-!
# Lease checks

The helpers with which the methods of the store enforce the leases of a context
(`pkg/storage/mysqlstore/applies.go` and `apply_operations.go`).
-/

namespace SchemaBot

open Concurrent

/-! ## The apply lease -/

/-- `applyLeaseFromContext`: the apply lease of the context, refused when it is invalid or belongs to
another apply. -/
def applyLeaseFromContext (ctx : Ctx) (applyId : Nat) : Except StoreError (Option ApplyLease) :=
  match ctx.applyLease with
  | none => .ok none
  | some lease =>
    if lease.valid = false then
      .error (leaseLost ("invalid apply lease for apply " ++ toString applyId))
    else if lease.applyId ≠ applyId then
      .error (leaseLost ("apply lease for apply " ++ toString lease.applyId ++
        " cannot write apply " ++ toString applyId))
    else .ok (some lease)

/-- `applyLeaseMatches`: the row still carries the lease's token. -/
def Store.applyLeaseMatches (s : Store) (lease : ApplyLease) : Bool :=
  s.applies.any fun a => a.id = lease.applyId && a.leaseToken = lease.token

def ensureApplyLeaseStillOwned (lease : ApplyLease) : StoreMethod Unit := do
  let owned ← Method.read (·.applyLeaseMatches lease)
  if owned then pure ()
  else throw (leaseLost ("apply lease for apply " ++ toString lease.applyId ++
    " is no longer current"))

/-- `confirmLeaseOnZeroRows`: a lease-scoped write that changed no row re-reads the lease. -/
def confirmLeaseOnZeroRows (rows : Nat) (lease : ApplyLease) : StoreMethod Nat :=
  if rows = 0 then do
    ensureApplyLeaseStillOwned lease
    pure rows
  else pure rows

/-! ## The operation lease -/

/-- `operationLeaseOwnsRow`: the operation row `id` carries `token`. -/
def Store.operationLeaseOwnsRow (s : Store) (id : Nat) (token : Nat) : Bool :=
  s.operations.any fun op => op.id = id && op.leaseToken = token

def ensureOperationLeaseStillOwned (lease : OperationLease) : StoreMethod Unit := do
  let owned ← Method.read (·.operationLeaseOwnsRow lease.operationId lease.token)
  if owned then pure ()
  else throw (leaseLost ("operation lease for apply_operation " ++ toString lease.operationId ++
    " is no longer current"))

/-- The `EXISTS` predicate of `derivedStateGuardForContext`: the operation holds the token and belongs
to the apply. -/
def Store.operationLeaseOwnsApply (s : Store) (lease : OperationLease) (applyId : Nat) : Bool :=
  s.operations.any fun op =>
    op.id = lease.operationId && op.applyId = applyId && op.leaseToken = lease.token

def ensureOperationLeaseOwnsApply (lease : OperationLease) (applyId : Nat) : StoreMethod Unit := do
  let owned ← Method.read (·.operationLeaseOwnsApply lease applyId)
  if owned then pure ()
  else throw (leaseLost ("operation lease for apply_operation " ++ toString lease.operationId ++
    " (apply " ++ toString applyId ++ ") is no longer current"))

/-- Which lease guards a write: `operationWriteGuard` of the operation rows, `derivedStateGuard` of the
projection, and the guard of a task update. -/
inductive WriteGuard
  | unguarded
  | apply (lease : ApplyLease)
  | operation (lease : OperationLease)
  deriving DecidableEq

/-- `operationWriteGuardFromContext`: an operation lease takes precedence over the apply lease. -/
def operationWriteGuardFromContext (ctx : Ctx) : Except StoreError WriteGuard :=
  match ctx.operationLease with
  | some lease =>
    if lease.valid then .ok (.operation lease) else .error (leaseLost "invalid operation lease")
  | none =>
    match ctx.applyLease with
    | some lease =>
      if lease.valid then .ok (.apply lease)
      else .error (leaseLost "invalid apply_operation lease")
    | none => .ok .unguarded

/-- `operationWriteGuard.predicate`, with the join it needs. -/
def WriteGuard.operationPredicate (g : WriteGuard) (s : Store) (op : ApplyOperation) : Bool :=
  match g with
  | .unguarded => true
  | .apply lease =>
    op.applyId = lease.applyId &&
      s.applies.any fun a => a.id = op.applyId && a.leaseToken = lease.token
  | .operation lease => op.leaseToken = lease.token

/-! ## Reading the checks -/

section
variable {ctx : Ctx} {id : Nat} {s : Store}

theorem applyLeaseFromContext_some {lease : ApplyLease} (id : Nat) (hc : ctx.applyLease = some lease) :
    (∃ e, applyLeaseFromContext ctx id = .error e ∧ e.sentinel = .applyLeaseLost) ∨
      applyLeaseFromContext ctx id = .ok (some lease) ∧ lease.valid = true ∧ lease.applyId = id := by
  unfold applyLeaseFromContext
  rw [hc]
  dsimp only
  split
  · exact .inl ⟨_, rfl, rfl⟩
  · next hv =>
    split
    · exact .inl ⟨_, rfl, rfl⟩
    · next hid => exact .inr ⟨rfl, by simpa using hv, not_not.1 hid⟩

theorem applyLeaseFromContext_applyId {l : ApplyLease} (h : applyLeaseFromContext ctx id = .ok (some l)) :
    l.applyId = id := by
  cases hlease : ctx.applyLease with
  | none =>
    unfold applyLeaseFromContext at h
    rw [hlease] at h
    cases h
  | some lease =>
    rcases applyLeaseFromContext_some id hlease with ⟨e, he, -⟩ | ⟨hok, -, hid⟩
    · rw [he] at h
      cases h
    · rw [hok] at h
      cases h
      exact hid

theorem applyLeaseFromContext_error {e : StoreError} (h : applyLeaseFromContext ctx id = .error e) :
    e.sentinel = .applyLeaseLost := by
  unfold applyLeaseFromContext at h
  split at h
  · cases h
  · split at h
    · cases h; rfl
    · split at h
      · cases h; rfl
      · cases h

end

end SchemaBot
