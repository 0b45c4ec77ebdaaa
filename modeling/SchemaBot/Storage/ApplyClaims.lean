import SchemaBot.Storage.Applies

/-!
# The apply store: claims

`FindNextApply`, `ClaimApplyByID` and `FindNextApplyForStopReconciliation` (`pkg/storage/mysqlstore/applies.go`).
-/

namespace SchemaBot

open Concurrent

/-! ## Claimability -/

def Store.deferredStart (s : Store) (applyId : Nat) (leaseAcquiredAt : Option Nat) (updatedAt : Nat) : Bool :=
  s.controlRequests.any fun cr =>
    cr.applyId = applyId && cr.operation = .start && cr.status = .pending &&
      ((match leaseAcquiredAt with | none => true | some t => decide (t < cr.updatedAt)) ||
        stale s.now updatedAt)

/-- The `WHERE` of `FindNextApply`, clause by clause. -/
def Store.claimableApply (s : Store) (a : Apply) : Bool :=
  (a.state = .pending && s.tasks.any fun t => t.applyId = a.id) ||
  (a.state ∈ claimableApplyStates && stale s.now a.updatedAt) ||
  (a.state = .failedRetryable && a.attempt < maxRecoveryAttempts &&
    s.now ≤ a.updatedAt + retryableRecoveryFreshness) ||
  (a.state = .pending && s.hasPending a.id .start) ||
  (a.state = .stopped && s.hasPending a.id .start) ||
  (a.state = .waitingForDeploy && s.deferredStart a.id a.leaseAcquiredAt a.updatedAt)

/-- The `WHERE` of `FindNextApplyForStopReconciliation`. -/
def Store.needsStopReconciliation (s : Store) (a : Apply) : Bool :=
  (a.state = .pending || a.state ∈ claimableApplyStates) && s.hasPending a.id .stop &&
    (s.operations.any fun o => o.applyId = a.id && o.state = .pending) &&
    !(s.operations.any fun o => o.applyId = a.id && o.state ∈ claimableApplyStates)

/-! ## The claim -/

def leaseApply (owner : String) (s : Store) (a : Apply) : Apply :=
  { a with
    updatedAt := s.now, leaseOwner := owner, leaseToken := s.nextToken
    leaseAcquiredAt := some s.now }

/-- The assignments of `transitionClaimToState`. `read` is the state the select saw. -/
def transitionApply (read targetState : ApplyState) (owner : String) (s : Store) (a : Apply) : Apply :=
  { leaseApply owner s a with
    state := targetState
    attempt := if read = .failedRetryable then a.attempt + 1 else a.attempt
    completedAt := none
    errorMessage := if read = .failedRetryable then "" else a.errorMessage }

def claimedApply (owner : String) (s : Store) (a : Apply) : Apply :=
  { a with
    leaseOwner := owner, leaseToken := s.nextToken, leaseAcquiredAt := some s.now
    attempt := if a.state = .failedRetryable then a.attempt + 1 else a.attempt
    errorMessage := if a.state = .failedRetryable then "" else a.errorMessage }

/-- `transitionClaimToState`: the guarded move, `none` when another writer moved the row first. -/
def Store.transitionClaimToState (s : Store) (a : Apply) (targetState : ApplyState)
    (owner : String) : Store × Option Apply :=
  let p : Apply → Bool := fun r => r.id = a.id && r.state = a.state
  if Table.affected p (transitionApply a.state targetState owner s) s.applies = 0 then (s, none)
  else
    ({ s.updateApplies (fun _ => p) (transitionApply a.state targetState owner) with
        nextToken := s.nextToken + 1 }, some (claimedApply owner s a))

/-- `failPendingStartControlRequestTx`, the write of a refused start. -/
def Store.failPendingStart (s : Store) (applyId : Nat) (reason : String) : Store :=
  s.updateControlRequests
    (fun _ cr => cr.applyId = applyId && cr.operation = .start && cr.status = .pending)
    fun s cr => { cr with
      status := .failed, errorMessage := reason, completedAt := cr.completedAt <|> some s.now
      updatedAt := s.now }

/-- `claimStoppedApplyUnderTargetLock`: a stopped apply is not active, so a newer one may have taken its
target; the overlap check is repeated, and a refusal fails the start request. -/
def Store.claimStoppedApplyUnderTargetLock (s : Store) (a : Apply) (owner : String) :
    Except StoreError (Store × Option Apply) :=
  let t := s.applyTargetForUpdate a
  if t.hasApplyTarget = false then
    .error ⟨"stopped apply " ++ toString a.id ++ " is missing target metadata for claim re-check",
      .unnamed⟩
  else
    match s.checkNoActiveApplyForTargets t
        (s.operationDeploymentsForApply a.id ++ [t.deployment]) a.id with
    | .error e =>
      if e.sentinel = .activeApplyExists then
        .ok (s.failPendingStart a.id
          ("start refused: another active apply exists for " ++ t.path), none)
      else .error e
    | .ok () => .ok (s.transitionClaimToState a .resuming owner)

/-- `persistApplyClaim`: pending and retryable applies move to running, stopped ones resume under the
target lock, active ones keep their state; each gets a fresh lease. -/
def Store.persistApplyClaim (s : Store) (a : Apply) (owner : String) : Except StoreError (Store × Option Apply) :=
  if a.state = .stopped then s.claimStoppedApplyUnderTargetLock a owner
  else if a.state = .pending ∨ a.state = .failedRetryable then
    .ok (s.transitionClaimToState a .running owner)
  else
    .ok ({ s.updateApplies (fun _ r => r.id = a.id) (leaseApply owner) with
        nextToken := s.nextToken + 1 }, some (claimedApply owner s a))

theorem Store.persistApplyClaim_ok {s t : Store} {a : Apply} {owner : String} {r : Option Apply}
    (h : s.persistApplyClaim a owner = .ok (t, r)) : (∃ reason, t = s.failPendingStart a.id reason) ∨
      ∃ applies nextToken, t = { s with applies, nextToken } := by
  have htrans : ∀ st, s.transitionClaimToState a st owner = (t, r) →
      ∃ applies nextToken, t = { s with applies, nextToken } := by
    intro st h
    unfold transitionClaimToState at h
    dsimp only at h
    split at h <;> cases h <;> exact ⟨_, _, rfl⟩
  unfold persistApplyClaim at h
  split at h
  · unfold claimStoppedApplyUnderTargetLock at h
    dsimp only at h
    split at h
    · cases h
    · split at h
      · split at h
        · cases h; exact .inl ⟨_, rfl⟩
        · cases h
      · exact .inr (htrans _ (Except.ok.inj h))
  · split at h
    · exact .inr (htrans _ (Except.ok.inj h))
    · cases h; exact .inr ⟨_, _, rfl⟩

def claimApply (wanted : Store → Apply → Bool) (locked : Nat → Bool) (owner message : String) :
    StoreMethod (Option Apply) :=
  if owner = "" then throw (leaseLost message)
  else do
    let row ← Method.read fun s =>
      Table.firstBy Apply.before (fun a => wanted s a && !locked a.id) s.applies
    match row with
    | none => pure none
    | some a => Method.transaction fun s => s.persistApplyClaim a owner

def findNextApply (owner : String) (locked : Nat → Bool) : StoreMethod (Option Apply) :=
  claimApply (·.claimableApply) locked owner "operator owner is required to claim apply"

def claimApplyByID (applyId : Nat) (owner : String) (locked : Nat → Bool) : StoreMethod (Option Apply) :=
  claimApply (fun s a => a.id = applyId && s.claimableApply a) locked owner
    ("operator owner is required to claim apply " ++ toString applyId)

def findNextApplyForStopReconciliation (owner : String) (locked : Nat → Bool) : StoreMethod (Option Apply) :=
  claimApply (·.needsStopReconciliation) locked owner
    "operator owner is required to claim apply for stop reconciliation"

/-! ## Reading a claim back -/

theorem call_claimApply (wanted : Store → Apply → Bool) (locked : Nat → Bool) (owner message : String) (s : Store) :
    (Method.call (claimApply wanted locked owner message) s).1 = s ∨
      ∃ a ∈ s.applies, wanted s a = true ∧ ∃ r, s.persistApplyClaim a owner =
        .ok ((Method.call (claimApply wanted locked owner message) s).1, r) := by
  unfold claimApply
  split
  · exact .inl rfl
  · rw [Method.call_bind_ok (Method.call_read _ _)]
    split
    · exact .inl rfl
    · next a hsel =>
      rw [Method.call_transaction]
      split
      · next t r hp =>
        have hw := Table.firstBy_pred hsel
        simp only [Bool.and_eq_true] at hw
        exact .inr ⟨a, Table.firstBy_mem hsel, hw.1, r, hp⟩
      · exact .inl rfl

end SchemaBot
