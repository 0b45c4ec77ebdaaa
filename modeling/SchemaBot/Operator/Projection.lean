import Mathlib.Data.List.Sort
import SchemaBot.Storage.Operations

/-!
# The operator's writes on operations and on their apply

`pkg/api/operator.go`.
-/

namespace SchemaBot

open Concurrent

/-! ## The result of a drive -/

/-- `persistOperationState`: the row write that a derived state asks for. The resumable states keep
`completed_at` empty; a state that is still active is not written, so the row stays claimable. -/
def persistOperationState (ctx : Ctx) (id : Nat) (derived : ApplyState) (errorMessage : String) :
    StoreMethod Bool :=
  match derived with
  | .completed => do markCompleted ctx id; pure true
  | .failed => do markFailed ctx id errorMessage; pure true
  | .stopped | .failedRetryable | .waitingForCutover => do updateState ctx id derived; pure true
  | .cancelled | .reverted => do markTerminal ctx id derived; pure true
  | _ => pure false

/-! ## The projection -/

/-- `ListByApply`: the operations of an apply in deployment order. -/
def Store.listByApply (s : Store) (applyId : Nat) : List ApplyOperation :=
  (s.operations.filter (·.applyId = applyId)).insertionSort fun a b => b.before a = false

@[simp] theorem Store.mem_listByApply {s : Store} {applyId : Nat} {o : ApplyOperation} :
    o ∈ s.listByApply applyId ↔ o ∈ s.operations ∧ o.applyId = applyId := by
  simp [listByApply]

def ApplyOperation.rolloutChild (op : ApplyOperation) : RolloutChild :=
  { state := op.state, continueOnFailure := op.onFailure = .continue, pauseOnFailure := false }

def derivedState (ops : List ApplyOperation) : ApplyState :=
  deriveRolloutApplyState (ops.map (·.rolloutChild))

def firstFailedOperationMessage : List ApplyOperation → String
  | [] => ""
  | op :: ops =>
    if op.state = .failed ∧ op.errorMessage ≠ "" then
      "deployment " ++ op.deployment ++ " failed: " ++ op.errorMessage
    else firstFailedOperationMessage ops

/-- The one way out of a terminal state that a projection may take: a failed apply whose operations
still derive a continuable failure, on behalf of a caller that allows it. -/
def reopensContinuableFailedRollout (apply : Apply) (ops : List ApplyOperation) (reopen : Bool) : Bool :=
  reopen && apply.state = .failed && deriveApplyState (ops.map (·.state)) = .failed &&
    derivedState ops = .runningDegraded

structure Projected where
  state : ApplyState
  errorMessage : String
  startedAt : Option Nat
  completedAt : Option Nat
  deriving DecidableEq

def projectedStart (now : Nat) (apply : Apply) (derived : ApplyState) : Option Nat :=
  if apply.startedAt = none ∧ derived ≠ .pending then some now else none

/-- The decision of `updateApplyStateFromOperations` over the listed operations: an error, nothing to
write, or the columns to write. -/
def projectApply (now : Nat) (apply : Apply) (ops : List ApplyOperation) (reopen : Bool) :
    Except StoreError (Option Projected) :=
  let derived := derivedState ops
  let startedAt := projectedStart now apply derived
  if ops = [] then
    .error ⟨"derive apply state for apply " ++ apply.applyIdentifier ++ " (" ++ toString apply.id ++
      "): no apply_operations rows", .unnamed⟩
  else if apply.state.isTerminal = true ∧ derived.isTerminal = false ∧
      reopensContinuableFailedRollout apply ops reopen = false then
    .error ⟨"derive apply state for terminal apply " ++ apply.applyIdentifier ++ " (" ++
      toString apply.id ++ "): child operations derive non-terminal state", .unnamed⟩
  else if apply.state.normalize = derived.normalize ∧ startedAt = none then .ok none
  else .ok <| some
    { state := derived
      errorMessage :=
        if derived = .failed ∧ firstFailedOperationMessage ops ≠ "" then firstFailedOperationMessage ops
        else apply.errorMessage
      startedAt
      completedAt :=
        if derived = .stopped ∨ derived.isTerminal = false then none
        else apply.completedAt <|> some now }

/-- The second half of `updateApplyStateFromOperations`: the decision and the compare-and-swap, over
operations that were listed earlier. The result says whether the write went through. -/
def writeProjection (ctx : Ctx) (apply : Apply) (ops : List ApplyOperation) (reopen : Bool) : StoreMethod Bool := do
  let now ← Method.read (·.now)
  let projected ← Method.lift (projectApply now apply ops reopen)
  match projected with
  | none => pure false
  | some p => updateDerivedState ctx apply.id apply.state p.state p.errorMessage p.startedAt p.completedAt

/-- `updateApplyStateFromOperations`, for an apply as its caller read it. -/
def updateApplyStateFromOperations (ctx : Ctx) (apply : Apply) (reopen : Bool) : StoreMethod Bool := do
  let ops ← Method.read (·.listByApply apply.id)
  writeProjection ctx apply ops reopen

theorem projectApply_state {now : Nat} {apply : Apply} {ops : List ApplyOperation} {reopen : Bool}
    {p : Projected} (h : projectApply now apply ops reopen = .ok (some p)) : p.state = derivedState ops := by
  unfold projectApply at h
  dsimp only at h
  split at h
  · cases h
  · split at h
    · cases h
    · split at h
      · cases h
      · cases h; rfl

/-! ## Terminal verdicts -/

def ApplyOperation.endsRollout (op : ApplyOperation) : Bool :=
  (op.state = .failed && op.onFailure ≠ .continue) || op.state ∈ [.cancelled, .stopped, .reverted]

def ApplyOperation.settled (op : ApplyOperation) : Bool := op.state = .completed || op.state = .failed

theorem ApplyOperation.settled_congr {o o' : ApplyOperation} (h : o'.state = o.state) :
    o'.settled = o.settled := by rw [settled, settled, h]

section
variable {ops : List ApplyOperation}

def ApplyState.inFlight (st : ApplyState) : Bool :=
  st ∈ [.running, .resuming, .waitingForCutover, .cuttingOver, .recovering, .revertWindow]

theorem ApplyOperation.not_inFlight_of_settled {op : ApplyOperation} (h : op.settled = true) :
    op.state.inFlight = false := by
  simp only [settled, Bool.or_eq_true, decide_eq_true_eq] at h
  rcases h with h | h <;> rw [h] <;> rfl

/-- Without an operation that ends the rollout, a terminal projection means that every operation is settled. -/
theorem settled_of_derivedState_isTerminal (hno : ∀ o ∈ ops, o.endsRollout = false)
    (h : (derivedState ops).isTerminal = true) : ∀ o ∈ ops, o.settled = true := by
  intro o ho
  have hne : ops.map (·.rolloutChild) ≠ [] := List.ne_nil_of_mem (List.mem_map_of_mem ho)
  have hover : RolloutOver (ops.map (·.rolloutChild)) := by
    refine (deriveRolloutApplyState_isTerminal hne fun c hc => ?_).1 h
    obtain ⟨o', -, rfl⟩ := List.mem_map.1 hc
    rfl
  simp only [RolloutOver, List.mem_map, exists_exists_and_eq_and, forall_exists_index, and_imp,
    forall_apply_eq_imp_iff₂, ApplyOperation.rolloutChild, decide_eq_false_iff_not] at hover
  simp only [ApplyOperation.endsRollout, Bool.or_eq_false_iff, Bool.and_eq_false_iff, decide_eq_false_iff_not,
    not_not] at hno
  rcases hover with ⟨o', ho', hfailed, hends | hall⟩ | ⟨-, ⟨o', ho', hended⟩ | hall⟩
  · rcases (hno o' ho').1 with h' | h'
    · exact absurd hfailed h'
    · exact absurd h' hends
  · have hended := (hno o ho).2
    have hterm := hall o ho
    cases hst : o.state <;> simp_all [ApplyState.isTerminal, ApplyOperation.settled]
  · exact absurd hended (hno o' ho').2
  · simp [ApplyOperation.settled, hall o ho]

end

end SchemaBot
