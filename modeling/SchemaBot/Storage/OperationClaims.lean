import SchemaBot.Storage.ApplyClaims
import SchemaBot.Storage.Operations

/-!
# The operation store: claims

`FindNextApplyOperation`, which gates the copy phase, and `FindNextApplyOperationCutover`, which gates the swap of
a barrier rollout (`pkg/storage/mysqlstore/apply_operations.go`).
-/

namespace SchemaBot

open Concurrent

/-! ## The copy gate -/

/-- `SUBSTRING_INDEX(operation_key, '/', 1)`: the namespace of a key. -/
def keyNamespace (key : String) : List Char := key.toList.takeWhile (· ≠ '/')

def settledFor (policy : CutoverPolicy) (st : ApplyState) : Bool :=
  match policy with
  | .barrier => st ∈ [.waitingForCutover, .cuttingOver, .revertWindow, .completed]
  | .rolling => st = .completed

/-- An earlier sibling in another deployment that still blocks `op`. -/
def blocksStart (op earlier : ApplyOperation) : Bool :=
  earlier.applyId = op.applyId && earlier.deployment ≠ op.deployment && earlier.before op &&
    !settledFor op.cutoverPolicy earlier.state &&
    !(op.onFailure = .continue && earlier.state = .failed)

def blocksFinalizer (op sibling : ApplyOperation) : Bool :=
  sibling.applyId = op.applyId && sibling.deployment = op.deployment &&
    sibling.operationKind = .work && keyNamespace sibling.operationKey = keyNamespace op.operationKey &&
    sibling.state ≠ .completed

section
variable (s : Store) (op : ApplyOperation)

def Store.mayStart : Bool :=
  (op.operationKind ≠ .groupFinalizer && !s.operations.any (blocksStart op)) ||
  (op.operationKind = .groupFinalizer && !s.operations.any (blocksFinalizer op))

def Store.hasSibling : Bool :=
  s.operations.any fun o => o.applyId = op.applyId && o.id ≠ op.id

/-- Clause 1 of `FindNextApplyOperation`: a pending row whose turn it is, with no stop pending. -/
def Store.claimPending : Bool :=
  op.state = .pending && s.mayStart op && !s.hasPending op.applyId .stop

def Store.claimStale : Bool :=
  op.state ∈ claimableApplyStates && stale s.now op.updatedAt &&
    !(op.state = .waitingForCutover && op.cutoverPolicy = .barrier && s.hasSibling op)

def Store.claimStopped : Bool :=
  op.state = .stopped && s.hasPending op.applyId .start

def Store.claimDeferredDeploy : Bool :=
  op.state ∈ claimableApplyStates &&
    (s.applies.any fun a => a.id = op.applyId && a.state = .waitingForDeploy) &&
    s.deferredStart op.applyId op.leaseAcquiredAt op.updatedAt

def Store.claimRetryable : Bool :=
  op.state = .failedRetryable &&
    s.applies.any fun a => a.id = op.applyId &&
      ((a.state = .failedRetryable && a.attempt < maxRecoveryAttempts &&
          s.now ≤ a.updatedAt + retryableRecoveryFreshness) ||
        (a.state ∈ claimableApplyStates && stale s.now a.updatedAt))

/-- The `WHERE` of `FindNextApplyOperation`. -/
def Store.claimableOperation : Bool :=
  s.claimPending op || s.claimStale op || s.claimStopped op || s.claimDeferredDeploy op ||
    s.claimRetryable op

/-! ## The claim write -/

end

section
variable (s : Store) (op : ApplyOperation) (owner : String)

def leaseOperation (s : Store) (op : ApplyOperation) : ApplyOperation :=
  { op with
    updatedAt := s.now, leaseOwner := owner, leaseToken := s.nextToken
    leaseAcquiredAt := some s.now }

def claimedOperation (s : Store) (op : ApplyOperation) : ApplyOperation :=
  { op with leaseOwner := owner, leaseToken := s.nextToken, leaseAcquiredAt := some s.now }

/-- A claim that moves the row: the guarded `UPDATE` to `assign`, `none` when nothing matched. -/
def Store.moveClaim (allowed : Store → Bool) (assign : Store → ApplyOperation → ApplyOperation) :
    Store × Option ApplyOperation :=
  let p : Store → ApplyOperation → Bool := fun s r =>
    r.id = op.id && r.state = op.state && allowed s
  let f := fun s r => assign s (leaseOperation owner s r)
  if Table.affected (p s) (f s) s.operations = 0 then (s, none)
  else ({ s.updateOperations p f with nextToken := s.nextToken + 1 },
    some (claimedOperation owner s op))

def Store.releaseClaim : Store × Option ApplyOperation :=
  ({ s.updateOperations (fun _ r => r.id = op.id) (leaseOperation owner) with
      nextToken := s.nextToken + 1 }, some (claimedOperation owner s op))

def Store.parentRetryable (applyId : Nat) : Bool :=
  s.applies.any fun a => a.id = applyId && a.state = .failedRetryable

/-- The redispatch of a retryable row: the operation's own attempt, where its apply is retryable, and
one unit of the apply's retry budget, where the apply has several operations. -/
def Store.consumeRetry : Store :=
  let s' := s.updateOperations (fun s r => r.id = op.id && s.parentRetryable r.applyId)
    fun s r => { r with attempt := r.attempt + 1, updatedAt := s.now }
  s'.updateApplies
    (fun s a => a.id = op.applyId && a.state = .failedRetryable && a.attempt < maxRecoveryAttempts &&
      s.operations.any fun o => o.applyId = a.id && o.id ≠ op.id)
    fun s a => { a with attempt := a.attempt + 1, updatedAt := s.now }

/-- The write of `FindNextApplyOperation`, by the state the select read. -/
def Store.persistOperationClaim : Store × Option ApplyOperation :=
  match op.state with
  | .pending =>
    s.moveClaim op owner (fun s => !s.hasPending op.applyId .stop)
      fun s r => { r with state := .running, startedAt := r.startedAt <|> some s.now }
  | .stopped => s.moveClaim op owner (fun _ => true) fun _ r => { r with state := .resuming }
  | .failedRetryable =>
    let (s', claimed) := s.releaseClaim op owner
    let bumped := if s'.parentRetryable op.applyId then 1 else 0
    (s'.consumeRetry op, claimed.map fun c => { c with attempt := c.attempt + bumped })
  | _ => s.releaseClaim op owner

def claimOperation (wanted : Store → ApplyOperation → Bool)
    (persist : Store → ApplyOperation → String → Store × Option ApplyOperation)
    (locked : Nat → Bool) (owner message : String) : StoreMethod (Option ApplyOperation) :=
  if owner = "" then throw (leaseLost message)
  else do
    let row ← Method.read fun s =>
      Table.firstBy ApplyOperation.before (fun op => wanted s op && !locked op.id) s.operations
    match row with
    | none => pure none
    | some op => Method.write fun s => persist s op owner

def findNextApplyOperation (locked : Nat → Bool) : StoreMethod (Option ApplyOperation) :=
  claimOperation (·.claimableOperation) (·.persistOperationClaim) locked owner
    "operator owner is required to claim apply_operation"

end

/-! ## The cutover gate -/

/-- An earlier operation of the apply, in any deployment, that still blocks the swap of `op`. -/
def blocksCutover (op earlier : ApplyOperation) : Bool :=
  earlier.applyId = op.applyId && earlier.before op && earlier.state ≠ .completed &&
    !(op.onFailure = .continue && earlier.state = .failed)

section
variable (s : Store) (op : ApplyOperation)

/-- The population the cutover claim is responsible for: barrier operations of a multi-operation apply
that was not started with manual `--defer-cutover`. -/
def Store.cutoverEligible : Bool :=
  op.cutoverPolicy = .barrier && s.hasSibling op &&
    s.applies.any fun a => a.id = op.applyId && !(a.options.getD {}).deferCutover

def Store.claimCutoverStart : Bool :=
  op.state = .waitingForCutover && !s.operations.any (blocksCutover op) &&
    !s.hasPending op.applyId .stop

def Store.claimCutoverRecovery : Bool :=
  (op.state = .cuttingOver || op.state = .revertWindow) && stale s.now op.updatedAt

/-- The `WHERE` of `FindNextApplyOperationCutover`. -/
def Store.claimableCutover : Bool :=
  s.cutoverEligible op && (s.claimCutoverStart op || s.claimCutoverRecovery op)

/-- The write of `FindNextApplyOperationCutover`. -/
def Store.persistCutoverClaim (owner : String) : Store × Option ApplyOperation :=
  if op.state = .waitingForCutover then
    s.moveClaim op owner (fun s => !s.hasPending op.applyId .stop)
      fun _ r => { r with state := .cuttingOver }
  else s.releaseClaim op owner

end

def findNextApplyOperationCutover (owner : String) (locked : Nat → Bool) : StoreMethod (Option ApplyOperation) :=
  claimOperation (·.claimableCutover) (·.persistCutoverClaim) locked owner
    "operator owner is required to claim apply_operation cutover"

end SchemaBot
