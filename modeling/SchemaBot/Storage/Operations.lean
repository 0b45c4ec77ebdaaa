import SchemaBot.Storage.Applies

/-!
# The operation store: state writes

`pkg/storage/mysqlstore/apply_operations.go`, except its claims (`SchemaBot.Storage.OperationClaims`).
-/

namespace SchemaBot

open Concurrent

/-! ## The guarded write -/

def applyOperationMissingResult (id : Nat) (missingOK : Bool) : StoreMethod Unit :=
  if missingOK then pure ()
  else throw ⟨"apply_operation " ++ toString id ++ " not found", .applyOperationNotFound⟩

/-- `checkUpdatedOrExists`: what a write that changed no row returns, by the guard it ran under. -/
def checkUpdatedOrExists (rows id : Nat) (guard : WriteGuard) (missingOK : Bool) : StoreMethod Unit :=
  if 0 < rows then pure ()
  else match guard with
    | .operation lease => do
      let ownsRow ← Method.read (·.operationLeaseOwnsRow id lease.token)
      if ownsRow then pure ()
      else do
        let row ← Method.read (·.getOperation id)
        match row with
        | none => applyOperationMissingResult id missingOK
        | some _ => throw (leaseLost ("apply_operation " ++ toString id ++
            " is no longer owned by its operation lease"))
    | .apply lease => do
      ensureApplyLeaseStillOwned lease
      let row ← Method.read (·.getOperation id)
      match row with
      | none => applyOperationMissingResult id missingOK
      | some op =>
        if op.applyId = lease.applyId then pure ()
        else throw (leaseLost ("apply_operation " ++ toString id ++ " is not owned by apply lease " ++
          toString lease.applyId))
    | .unguarded => do
      let row ← Method.read (·.getOperation id)
      match row with
      | none => applyOperationMissingResult id missingOK
      | some _ => pure ()

section
variable (ctx : Ctx)

/-- A guarded write of one operation row: the guard of the context, the `UPDATE`, and the check of a
write that changed nothing. -/
def writeOperation (id : Nat) (missingOK : Bool)
    (assign : Store → ApplyOperation → ApplyOperation) : StoreMethod Unit := do
  let guard ← Method.lift (operationWriteGuardFromContext ctx)
  let rows ← execOperations (fun s op => op.id = id && guard.operationPredicate s op) assign
  checkUpdatedOrExists rows id guard missingOK

/-- `execStateUpdate`. The statement does not set `updated_at`; the column's `ON UPDATE` does. -/
def execStateUpdate (id : Nat) (assign : Store → ApplyOperation → ApplyOperation) : StoreMethod Unit :=
  writeOperation ctx id false fun s => touch s.now (assign s)

def updateState (id : Nat) (newState : ApplyState) : StoreMethod Unit :=
  execStateUpdate ctx id fun _ op => { op with state := newState }

def markStarted (id : Nat) : StoreMethod Unit :=
  execStateUpdate ctx id fun s op =>
    { op with state := .running, startedAt := op.startedAt <|> some s.now }

def markTerminal (id : Nat) (newState : ApplyState) : StoreMethod Unit :=
  execStateUpdate ctx id fun s op =>
    { op with state := newState, completedAt := op.completedAt <|> some s.now }

def markCompleted (id : Nat) : StoreMethod Unit := markTerminal ctx id .completed

def markFailed (id : Nat) (errMsg : String) : StoreMethod Unit :=
  execStateUpdate ctx id fun s op =>
    { op with
      state := .failed, errorMessage := errMsg, completedAt := op.completedAt <|> some s.now }

/-- `SaveEngineResumeState`. `resumeId` is the operation the state says it belongs to, `0` for none. -/
def saveEngineResumeState (operationId resumeId : Nat) (migrationContext metadata : String) : StoreMethod Unit :=
  if resumeId ≠ 0 ∧ resumeId ≠ operationId then
    throw ⟨"resume state belongs to apply_operation " ++ toString resumeId, .unnamed⟩
  else
    execStateUpdate ctx operationId fun _ op =>
      { op with
        engineResumeContext := migrationContext
        engineResumeMetadata := if metadata = "" then "\x7b\x7d" else metadata }

/-- `Heartbeat` of an operation; a missing row is not an error. -/
def heartbeatOperation (id : Nat) : StoreMethod Unit :=
  writeOperation ctx id true fun s op => { op with updatedAt := s.now }

/-! ## The bulk stop -/

end

/-- The rows `MarkPendingStoppedByApply` writes: pending operations of the apply, where the lease, if
any, is still current. -/
def pendingStopRow (applyId : Nat) (authorized : Store → Bool) (s : Store) (op : ApplyOperation) : Bool :=
  op.applyId = applyId && op.state = .pending && authorized s

def stopPending (s : Store) (op : ApplyOperation) : ApplyOperation :=
  { op with state := .stopped, updatedAt := s.now }

/-- `MarkPendingStoppedByApply`: pending siblings become stopped, authorised by an operation of the
apply, by the apply, or unguarded. -/
def markPendingStoppedByApply (ctx : Ctx) (applyId : Nat) : StoreMethod Nat :=
  match ctx.operationLease with
  | some lease =>
    if lease.valid = false then
      throw (leaseLost ("invalid operation lease for stopping pending apply_operations of apply " ++
        toString applyId))
    else if lease.applyId ≠ applyId then
      throw (leaseLost ("operation lease for apply " ++ toString lease.applyId ++
        " does not authorize stopping pending operations of apply " ++ toString applyId))
    else do
      let rows ← execOperations
        (pendingStopRow applyId fun s => s.operationLeaseOwnsApply lease applyId) stopPending
      if rows = 0 then do
        ensureOperationLeaseStillOwned lease
        pure rows
      else pure rows
  | none => do
    let lease ← Method.lift (applyLeaseFromContext ctx applyId)
    match lease with
    | none => execOperations (pendingStopRow applyId fun _ => true) stopPending
    | some l => do
      let rows ← execOperations (pendingStopRow applyId (·.applyLeaseMatches l)) stopPending
      confirmLeaseOnZeroRows rows l

end SchemaBot
