import SchemaBot.Storage.Safety

/-!
# What the expiry of retryable applies touches

`ExpireRetryable` is one transaction over three tables with three filters.
-/

namespace SchemaBot

open Concurrent

/-! ## The rows that may change -/

section
variable (s : Store)

def Store.ExpiringOperation (o : ApplyOperation) : Prop :=
  o.state = .failedRetryable ∧ o.applyId ∈ s.expiredIds

def Store.ExpiringTask (k : Task) : Prop :=
  ∃ o ∈ s.operations, s.ExpiringOperation o ∧ k.applyOperationId = some o.id

instance (o : ApplyOperation) : Decidable (s.ExpiringOperation o) := inferInstanceAs (Decidable (_ ∧ _))

instance (k : Task) : Decidable (s.ExpiringTask k) :=
  inferInstanceAs (Decidable (∃ o ∈ s.operations, _ ∧ _))

/-- Row by row, `t` differs from `s` only in expired applies, their retryable operations and the tasks of
these; requests and counters are the same. -/
structure Store.ExpiresOnly (t : Store) : Prop where
  applies : List.Forall₂ (fun a a' => a' = a ∨ s.expired a = true) s.applies t.applies
  operations : List.Forall₂ (fun o o' => o' = o ∨ s.ExpiringOperation o) s.operations t.operations
  tasks : List.Forall₂ (fun k k' => k' = k ∨ s.ExpiringTask k) s.tasks t.tasks
  rest : t = { s with applies := t.applies, operations := t.operations, tasks := t.tasks }

end

/-! ## Reading the transaction -/

section
variable {s : Store}

theorem Store.mem_expiredIds {id : Nat} : id ∈ s.expiredIds ↔ ∃ a ∈ s.applies, s.expired a = true ∧ a.id = id := by
  simp [expiredIds, and_assoc]

theorem Store.expired_of_mem (hs : Table.KeysUnique (·.id) s.applies) {a : Apply} (ha : a ∈ s.applies)
    (hid : a.id ∈ s.expiredIds) : s.expired a = true := by
  obtain ⟨b, hb, hexp, hbid⟩ := mem_expiredIds.1 hid
  rw [hs.eq ha hb hbid.symm]
  exact hexp

theorem Store.expiry_tasks : List.Forall₂ (fun k k' => k' = k ∨ s.ExpiringTask k) s.tasks
        (Method.call expireRetryable s).1.tasks ↔
      ∀ k ∈ s.tasks, k.state.isTerminal = false → k.applyId ∈ s.expiredIds → s.ExpiringTask k := by
  refine Table.forall₂_update_frame.trans (forall₂_congr fun k _ => ?_)
  simp only [Bool.and_eq_true, Bool.not_eq_true', decide_eq_true_eq, and_imp]
  refine forall_congr' fun hstate => forall_congr' fun _ => or_iff_right fun heq => ?_
  -- a failed task is terminal
  have hfailed : TaskState.failed = k.state := congrArg Task.state heq
  rw [← hfailed] at hstate
  cases hstate

end

/-! ## The frame -/

/-- The expiry keeps to the expired applies, their retryable operations and the tasks of these exactly
when every open task of an expired apply belongs to one of its retryable operations. -/
theorem expiry_frame_iff {s : Store} (hs : Table.KeysUnique (·.id) s.applies) :
    s.ExpiresOnly (Method.call expireRetryable s).1 ↔
      ∀ k ∈ s.tasks, k.state.isTerminal = false → k.applyId ∈ s.expiredIds → s.ExpiringTask k := by
  rw [← Store.expiry_tasks]
  refine ⟨fun h => h.tasks, fun htasks => ⟨?_, ?_, htasks, rfl⟩⟩
  · refine Table.forall₂_update_frame.2 fun a ha hid => .inr ?_
    exact Store.expired_of_mem hs ha (of_decide_eq_true hid)
  · refine Table.forall₂_update_frame.2 fun o _ ho => .inr ?_
    simpa [Store.ExpiringOperation] using ho

def forgottenRetry (creation : Call) : Store :=
  Transition.run Store.after {}
    [creation, .findNextApplyOperation "operator-1" fun _ => false,
      .updateTask { operationLease := some ⟨1, 1, 1⟩ } { id := 1, applyId := 1, state := .failedRetryable },
      .updateState { operationLease := some ⟨1, 1, 1⟩ } 1 .failedRetryable,
      .updateDerivedState { operationLease := some ⟨1, 1, 1⟩ } 1 .pending .failedRetryable "" (some 0) none,
      .tick 86401]

/-- An apply with one operation. -/
theorem expiry_frame_iff_single : (forgottenRetry sampleCreate).expiredIds = [1] ∧
      (forgottenRetry sampleCreate).ExpiresOnly
        (Method.call expireRetryable (forgottenRetry sampleCreate)).1 :=
  ⟨by decide, (expiry_frame_iff (by unfold Table.KeysUnique; decide)).2 (by decide)⟩

/-- A rollout over two deployments, the second of which has not started: its task fails, its operation is
still pending. -/
theorem expiry_fails_pending_sibling : ((forgottenRetry (sampleRollout .rolling .halt)).operations.map (·.state) =
        [.failedRetryable, .pending] ∧
      (forgottenRetry (sampleRollout .rolling .halt)).tasks.map (fun k => (k.applyOperationId, k.state)) =
        [(some 1, .failedRetryable), (some 2, .pending)]) ∧
    ((Method.call expireRetryable (forgottenRetry (sampleRollout .rolling .halt))).1.operations.map
        (·.state) = [.failed, .pending] ∧
      (Method.call expireRetryable (forgottenRetry (sampleRollout .rolling .halt))).1.tasks.map
        (fun k => (k.applyOperationId, k.state)) = [(some 1, .failed), (some 2, .failed)]) ∧
    ¬ (forgottenRetry (sampleRollout .rolling .halt)).ExpiresOnly
      (Method.call expireRetryable (forgottenRetry (sampleRollout .rolling .halt))).1 :=
  ⟨by decide, by decide, fun h => absurd (Store.expiry_tasks.1 h.tasks) (by decide)⟩

end SchemaBot
