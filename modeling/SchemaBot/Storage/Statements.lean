import SchemaBot.Storage.OperationClaims
import SchemaBot.Storage.Tasks

/-!
# The statements of the store's methods

A method of the store is a few writing statements among reads and checks.
-/

namespace SchemaBot

open Concurrent

theorem call_readOnly {α : Type} {m : StoreMethod α} (h : Method.Only Eq m) (s : Store) : (Method.call m s).1 = s :=
  (Method.Ensures.call (fun _ => rfl) (fun _ _ _ => Eq.trans) h trivial).1.symm

section
variable {I : Store → Prop} {G : Store → Store → Prop} (hG : ∀ s, G s s) {applyId : Nat} {ctx : Ctx}
  {locked : Nat → Bool} {task : Task}
include hG

/-! ## The lease checks -/

theorem always_ensureApplyLeaseStillOwned (lease : ApplyLease) :
    Method.Always I G (ensureApplyLeaseStillOwned lease) := by
  refine .bind (.read hG _) fun owned => ?_
  split
  · exact .pure _
  · exact .throw _

theorem always_confirmLeaseOnZeroRows (rows : Nat) (lease : ApplyLease) :
    Method.Always I G (confirmLeaseOnZeroRows rows lease) := by
  unfold confirmLeaseOnZeroRows
  split
  · exact .bind (always_ensureApplyLeaseStillOwned hG lease) fun _ => .pure _
  · exact .pure _

theorem always_ensureOperationLeaseStillOwned (lease : OperationLease) :
    Method.Always I G (ensureOperationLeaseStillOwned lease) := by
  refine .bind (.read hG _) fun owned => ?_
  split
  · exact .pure _
  · exact .throw _

theorem always_ensureOperationLeaseOwnsApply (lease : OperationLease) (applyId : Nat) :
    Method.Always I G (ensureOperationLeaseOwnsApply lease applyId) := by
  refine .bind (.read hG _) fun owned => ?_
  split
  · exact .pure _
  · exact .throw _

/-! ## Applies -/

theorem always_update {apply : Apply}
    (h : ∀ lease target, Method.Always I G (Method.transaction (updateTx lease apply target))) :
    Method.Always I G (update ctx apply) :=
  .bind (.lift _) fun _ => .bind (.lift _) fun lease => .bind (.read hG _) fun target => h lease target

theorem always_updateDerivedState {expected newState : ApplyState}
    {errorMessage : String} {startedAt completedAt : Option Nat}
    (h : ∀ guard, Method.Always I G (execApplies (derivedStateRow guard applyId expected)
      (assignDerived newState errorMessage startedAt completedAt))) :
    Method.Always I G
      (updateDerivedState ctx applyId expected newState errorMessage startedAt completedAt) := by
  refine .bind (.lift _) fun guard => .bind (h guard) fun rows => ?_
  split
  · exact .pure _
  · refine .bind ?_ fun _ => ?_
    · cases guard with
      | unguarded => exact .pure _
      | apply lease => exact always_ensureApplyLeaseStillOwned hG lease
      | operation lease => exact always_ensureOperationLeaseOwnsApply hG lease applyId
    · split
      · exact .pure _
      · exact .read hG _

theorem always_heartbeat (h : ∀ lease, Method.Always I G (execApplies
      (fun _ a => a.id = applyId && leasePredicate lease a) fun s a => { a with updatedAt := s.now })) :
    Method.Always I G (heartbeat ctx applyId) := by
  refine .bind (.lift _) fun _ => .bind (.lift _) fun lease => .bind (h lease) fun rows => ?_
  cases lease with
  | none => exact .pure _
  | some l => exact .bind (always_confirmLeaseOnZeroRows hG rows l) fun _ => .pure _

theorem always_claimApply {wanted : Store → Apply → Bool} {owner message : String}
    (h : ∀ a, Method.Always I G (Method.transaction fun s => s.persistApplyClaim a owner)) :
    Method.Always I G (claimApply wanted locked owner message) := by
  unfold claimApply
  split
  · exact .throw _
  · refine .bind (.read hG _) fun row => ?_
    cases row with
    | none => exact .pure _
    | some a => exact h a

/-! ## Operations -/

omit hG in
theorem always_applyOperationMissingResult (id : Nat) (missingOK : Bool) :
    Method.Always I G (applyOperationMissingResult id missingOK) := by
  unfold applyOperationMissingResult
  split
  · exact .pure _
  · exact .throw _

theorem always_checkUpdatedOrExists (rows id : Nat) (guard : WriteGuard) (missingOK : Bool) :
    Method.Always I G (checkUpdatedOrExists rows id guard missingOK) := by
  unfold checkUpdatedOrExists
  split
  · exact .pure _
  · cases guard with
    | operation lease =>
      refine .bind (.read hG _) fun owned => ?_
      split
      · exact .pure _
      · refine .bind (.read hG _) fun row => ?_
        split
        · exact always_applyOperationMissingResult id missingOK
        · exact .throw _
    | apply lease =>
      refine .bind (always_ensureApplyLeaseStillOwned hG lease) fun _ =>
        .bind (.read hG _) fun row => ?_
      split
      · exact always_applyOperationMissingResult id missingOK
      · split
        · exact .pure _
        · exact .throw _
    | unguarded =>
      refine .bind (.read hG _) fun row => ?_
      split
      · exact always_applyOperationMissingResult id missingOK
      · exact .pure _

theorem always_writeOperation {id : Nat} {missingOK : Bool}
    {assign : Store → ApplyOperation → ApplyOperation} (h : ∀ guard : WriteGuard, Method.Always I G
      (execOperations (fun s op => op.id = id && guard.operationPredicate s op) assign)) :
    Method.Always I G (writeOperation ctx id missingOK assign) :=
  .bind (.lift _) fun guard => .bind (h guard) fun rows =>
    always_checkUpdatedOrExists hG rows id guard missingOK

theorem always_markPendingStoppedByApply (h : ∀ authorized, Method.Always I G
      (execOperations (pendingStopRow applyId authorized) stopPending)) :
    Method.Always I G (markPendingStoppedByApply ctx applyId) := by
  unfold markPendingStoppedByApply
  split
  · next lease _ =>
    split
    · exact .throw _
    · split
      · exact .throw _
      · refine .bind (h _) fun rows => ?_
        split
        · exact .bind (always_ensureOperationLeaseStillOwned hG lease) fun _ => .pure _
        · exact .pure _
  · refine .bind (.lift _) fun lease => ?_
    cases lease with
    | none => exact h _
    | some l => exact .bind (h _) fun rows => always_confirmLeaseOnZeroRows hG rows l

theorem always_claimOperation {wanted : Store → ApplyOperation → Bool}
    {persist : Store → ApplyOperation → String → Store × Option ApplyOperation} {owner message : String}
    (h : ∀ op, Method.Always I G (Method.write fun s => persist s op owner : StoreMethod _)) :
    Method.Always I G (claimOperation wanted persist locked owner message) := by
  unfold claimOperation
  split
  · exact .throw _
  · refine .bind (.read hG _) fun row => ?_
    cases row with
    | none => exact .pure _
    | some op => exact h op

/-! ## Tasks and control requests -/

theorem always_updateTask (h : ∀ guard : WriteGuard, Method.Always I G
      (execTasks (fun s t => t.id = task.id && guard.taskPredicate s t) (assignTask task))) :
    Method.Always I G (updateTask ctx task) := by
  refine .bind (.lift _) fun guard => .bind (h guard) fun rows => ?_
  split
  · cases guard with
    | unguarded => exact .pure _
    | apply lease => exact always_ensureApplyLeaseStillOwned hG lease
    | operation lease => exact always_ensureOperationLeaseStillOwned hG lease
  · exact .pure _

theorem always_upsertShardProgress (h : ∀ task : Task, ∀ guard : WriteGuard, Method.Always I G
      (execTasks (fun s t => t.id = task.id && guard.taskPredicate s t) (assignTask task)))
    (hi : ∀ s t id, I s → s.insertTask task = .ok (t, id) → G s t ∧ I t) :
    Method.Always I G (upsertShardProgress ctx task) := by
  have hinsert : ∀ lease, Method.Always I G (insertShardTaskGuarded task lease) := by
    intro lease
    refine .bind (.transaction hG fun s t rows hs hf => ?_) fun rows => ?_
    · split at hf
      · obtain ⟨⟨s', id⟩, hins, hf⟩ := bind_eq_ok hf
        cases hf
        exact hi s t id hs hins
      · cases hf; exact ⟨hG s, hs⟩
    · split
      · exact always_ensureOperationLeaseStillOwned hG lease
      · exact .pure _
  unfold upsertShardProgress
  split
  · exact .throw _
  · split
    · exact .throw _
    · split
      · exact .throw _
      · split
        · exact .throw _
        · split
          · exact .throw _
          · split
            · exact .throw _
            · refine .bind (.read hG _) fun row => ?_
              split
              · exact always_updateTask hG (h _)
              · exact hinsert _

theorem always_settlePending {operation : ControlOperation}
    {assign : Store → ControlRequest → ControlRequest} (h : ∀ lease, Method.Always I G
      (execControlRequests (pendingRequestRow applyId operation lease) assign)) :
    Method.Always I G (settlePending ctx applyId operation assign) := by
  refine .bind (.lift _) fun lease => .bind (h lease) fun rows => ?_
  cases lease with
  | none => exact .pure _
  | some l => exact .bind (always_confirmLeaseOnZeroRows hG rows l) fun _ => .pure _

end

end SchemaBot
