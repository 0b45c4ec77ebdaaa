import SchemaBot.Storage.Effects

/-!
# The calls, row by row

What an uninterrupted call does to the rows of `apply_operations`, said once.
-/

namespace SchemaBot

open Concurrent

/-! ## Background calls -/

def KeepsRows {α : Type} (m : StoreMethod α) : Prop :=
  Method.Only (fun s t => List.Forall₂ RowKept s.operations t.operations) m

section
variable {α : Type} {s t : Store}

theorem Call.keepsRows (c : Call) (hc : c.background = true) : KeepsRows c.method :=
  Prog.Ensures.imp (fun _ _ h => h.rows hc) c.effect

theorem KeepsRows.call {m : StoreMethod α} (h : KeepsRows m) (s : Store) :
    List.Forall₂ RowKept s.operations (Method.call m s).1.operations := by
  have htrans : ∀ s t u : Store, List.Forall₂ RowKept s.operations t.operations →
      List.Forall₂ RowKept t.operations u.operations → List.Forall₂ RowKept s.operations u.operations :=
    fun _ _ _ h h' => Table.forall₂_trans h h' fun _ _ _ => RowKept.trans
  exact (Method.Ensures.call (fun _ => rowKept_of_eq rfl) htrans h trivial).1

end

/-! ## State writes -/

section
variable {s : Store}

theorem call_execOperations_bind {β : Type} {p : Store → ApplyOperation → Bool}
    {f : Store → ApplyOperation → ApplyOperation} {g : Nat → StoreMethod β} (h : ∀ rows, Method.Only Eq (g rows)) :
    (Method.call (execOperations p f >>= g) s).1 = s.updateOperations p f := by
  exact call_readOnly (h _) _

def Ctx.Owns (ctx : Ctx) (o : ApplyOperation) : Prop :=
  ∀ lease, ctx.operationLease = some lease → o.leaseToken = lease.token

theorem Ctx.owns_of_guard {ctx : Ctx} {guard : WriteGuard} {o : ApplyOperation}
    (h : operationWriteGuardFromContext ctx = .ok guard)
    (ho : guard.operationPredicate s o = true) : ctx.Owns o := by
  intro lease hl
  unfold operationWriteGuardFromContext at h
  rw [hl] at h
  dsimp only at h
  split at h
  · cases h; exact of_decide_eq_true ho
  · cases h

section
variable (ctx : Ctx) (id : Nat)

theorem rows_execStateUpdate {st : ApplyState} {assign : Store → ApplyOperation → ApplyOperation}
    (h : ∀ s o, RowShift (fun _ q => q = st) o (assign s o)) (s : Store) :
    List.Forall₂ (RowShift fun o q => o.id = id ∧ ctx.Owns o ∧ q = st) s.operations
      (Method.call (execStateUpdate ctx id assign) s).1.operations := by
  unfold execStateUpdate writeOperation
  cases hg : operationWriteGuardFromContext ctx with
  | error e => exact List.forall₂_same.2 fun o _ => .refl o
  | ok guard =>
    rw [Method.call_bind_ok (Method.call_lift _ _), call_execOperations_bind fun rows =>
      always_checkUpdatedOrExists (fun _ => rfl) rows id guard false]
    refine rowShift_update fun o _ hp => rowShift_touch ?_
    simp only [Bool.and_eq_true, decide_eq_true_eq] at hp
    exact (h s o).mono fun hq => ⟨hp.1, Ctx.owns_of_guard hg hp.2, hq⟩

theorem rows_updateState (st : ApplyState) (s : Store) :
    List.Forall₂ (RowShift fun o q => o.id = id ∧ ctx.Owns o ∧ q = st) s.operations
      (Method.call (updateState ctx id st) s).1.operations := by
  refine rows_execStateUpdate ctx id (fun _ _ => ?_) s
  exact ⟨rfl, rfl, .inr rfl⟩

theorem rows_markStarted (s : Store) :
    List.Forall₂ (RowShift fun o q => o.id = id ∧ ctx.Owns o ∧ q = .running) s.operations
      (Method.call (markStarted ctx id) s).1.operations := by
  refine rows_execStateUpdate ctx id (fun _ _ => ?_) s
  exact ⟨rfl, rfl, .inr rfl⟩

theorem rows_markTerminal (st : ApplyState) (s : Store) :
    List.Forall₂ (RowShift fun o q => o.id = id ∧ ctx.Owns o ∧ q = st) s.operations
      (Method.call (markTerminal ctx id st) s).1.operations := by
  refine rows_execStateUpdate ctx id (fun _ _ => ?_) s
  exact ⟨rfl, rfl, .inr rfl⟩

theorem rows_markFailed (errMsg : String) (s : Store) :
    List.Forall₂ (RowShift fun o q => o.id = id ∧ ctx.Owns o ∧ q = .failed) s.operations
      (Method.call (markFailed ctx id errMsg) s).1.operations := by
  refine rows_execStateUpdate ctx id (fun _ _ => ?_) s
  exact ⟨rfl, rfl, .inr rfl⟩

end

end

/-! ## The bulk stop and the expiry -/

section
variable {s : Store}

theorem call_markPendingStoppedByApply (ctx : Ctx) (applyId : Nat) (s : Store) :
    (Method.call (markPendingStoppedByApply ctx applyId) s).1 = s ∨
      (Method.call (markPendingStoppedByApply ctx applyId) s).1 =
        s.updateOperations (pendingStopRow applyId fun _ => true) stopPending := by
  -- a lease that is not current makes the predicate false on every row
  have hauth : ∀ authorized : Store → Bool,
      s.updateOperations (pendingStopRow applyId authorized) stopPending = s ∨
        s.updateOperations (pendingStopRow applyId authorized) stopPending =
          s.updateOperations (pendingStopRow applyId fun _ => true) stopPending := by
    intro authorized
    unfold Store.updateOperations pendingStopRow
    cases authorized s with
    | false =>
      refine .inl ?_
      rw [Table.update_eq_self fun _ _ => by simp]
    | true => exact .inr rfl
  unfold markPendingStoppedByApply
  split
  · next lease _ =>
    split
    · exact .inl rfl
    · split
      · exact .inl rfl
      · rw [call_execOperations_bind]
        · exact hauth _
        · intro rows
          split
          · exact .bind (always_ensureOperationLeaseStillOwned (fun _ => rfl) lease) fun _ => .pure _
          · exact .pure _
  · cases applyLeaseFromContext ctx applyId with
    | error e => exact .inl rfl
    | ok lease =>
      rw [Method.call_bind_ok (Method.call_lift _ _)]
      cases lease with
      | none => exact .inr rfl
      | some l =>
        rw [call_execOperations_bind fun rows => always_confirmLeaseOnZeroRows (fun _ => rfl) rows l]
        exact hauth _

theorem rows_markPendingStoppedByApply (ctx : Ctx) (applyId : Nat) (s : Store) :
    List.Forall₂ (RowShift fun o q => o.state = .pending ∧ q = .stopped ∧
        ∀ r ∈ (Method.call (markPendingStoppedByApply ctx applyId) s).1.operations,
          r.applyId = o.applyId → r.state ≠ .pending) s.operations
      (Method.call (markPendingStoppedByApply ctx applyId) s).1.operations := by
  rcases call_markPendingStoppedByApply ctx applyId s with h | h <;> rw [h]
  · exact List.forall₂_same.2 fun o _ => .refl o
  · refine rowShift_update fun o _ hp => ⟨rfl, rfl, .inr ?_⟩
    simp only [pendingStopRow, Bool.and_eq_true, decide_eq_true_eq] at hp
    refine ⟨hp.1.2, rfl, fun r hr hid hst => ?_⟩
    obtain ⟨r', -, rfl⟩ := Table.mem_update.1 hr
    split at hst
    · cases hst
    · next hn =>
      rw [if_neg hn, hp.1.1] at hid
      simp [pendingStopRow, hid, hst] at hn

theorem rows_expireRetryable (s : Store) :
    List.Forall₂ (RowShift fun o q => o.state = .failedRetryable ∧ o.applyId ∈ s.expiredIds ∧ q = .failed)
      s.operations (Method.call expireRetryable s).1.operations := by
  refine rowShift_update fun o _ hp => ⟨rfl, rfl, .inr ?_⟩
  simp only [Bool.and_eq_true, decide_eq_true_eq] at hp
  exact ⟨hp.1, hp.2, rfl⟩

end

/-! ## Claims -/

theorem call_claimOperation (wanted : Store → ApplyOperation → Bool)
    (persist : Store → ApplyOperation → String → Store × Option ApplyOperation) (locked : Nat → Bool)
    (owner message : String) (s : Store) :
    ((Method.call (claimOperation wanted persist locked owner message) s).1 = s ∧
      ∀ c, (Method.call (claimOperation wanted persist locked owner message) s).2 ≠ .ok (some c)) ∨
    ∃ op ∈ s.operations, wanted s op = true ∧
      Method.call (claimOperation wanted persist locked owner message) s =
        ((persist s op owner).1, .ok (persist s op owner).2) := by
  unfold claimOperation
  split
  · exact .inl ⟨rfl, fun _ => by simp⟩
  · rw [Method.call_bind_ok (Method.call_read _ _)]
    split
    · exact .inl ⟨rfl, fun _ => by simp⟩
    · next op hsel =>
      have hw := Table.firstBy_pred hsel
      simp only [Bool.and_eq_true] at hw
      exact .inr ⟨op, Table.firstBy_mem hsel, hw.1, rfl⟩

structure RowLeased (s : Store) (op : ApplyOperation) (st : ApplyState) (o o' : ApplyOperation) : Prop where
  identity : o'.identity = o.identity
  lease : (o'.leaseToken = o.leaseToken ∧ o'.state = o.state) ∨
    (o.id = op.id ∧ o'.leaseToken = s.nextToken ∧ o'.state = st)

/-- What a persisted claim of `op` that ends in state `st` did. -/
structure Store.Claims (s : Store) (op : ApplyOperation) (st : ApplyState) (t : Store)
    (c : Option ApplyOperation) : Prop where
  rows : List.Forall₂ (RowLeased s op st) s.operations t.operations
  none : c = none → t = s
  some : ∀ c', c = some c' → c'.lease = ⟨op.applyId, op.id, s.nextToken⟩ ∧
    t.nextToken = s.nextToken + 1

section
variable {s : Store} {op : ApplyOperation} {owner : String} {f : ApplyState → ApplyState}
  {persist : Store → ApplyOperation → String → Store × Option ApplyOperation} {wanted : Store → ApplyOperation → Bool}

theorem Store.claims_moveClaim {st : ApplyState} {allowed : Store → Bool}
    {assign : Store → ApplyOperation → ApplyOperation}
    (h : ∀ o, (assign s o).identity = o.identity ∧ (assign s o).leaseToken = o.leaseToken ∧
      (assign s o).state = st) :
    s.Claims op st (s.moveClaim op owner allowed assign).1 (s.moveClaim op owner allowed assign).2 := by
  refine ⟨?_, ?_, ?_⟩
  · rw [moveClaim_operations]
    refine Table.forall₂_update (fun o _ hp => ?_) fun o _ _ => ⟨rfl, .inl ⟨rfl, rfl⟩⟩
    simp only [Bool.and_eq_true, decide_eq_true_eq] at hp
    obtain ⟨hi, ht, hs⟩ := h (leaseOperation owner s o)
    exact ⟨hi, .inr ⟨hp.1.1, ht, hs⟩⟩
  · unfold moveClaim
    dsimp only
    split
    · exact fun _ => rfl
    · exact fun h => absurd h (Option.some_ne_none _)
  · unfold moveClaim
    dsimp only
    split
    · exact fun _ h => absurd h.symm (Option.some_ne_none _)
    · exact fun c h => Option.some.inj h ▸ ⟨rfl, rfl⟩

theorem Store.consumeRetry_rows : List.Forall₂ RowKept s.operations (s.consumeRetry op).operations :=
  rowShift_update fun _ _ _ => ⟨rfl, rfl, .inl rfl⟩

theorem Store.claims_releaseClaim (huniq : ∀ o ∈ s.operations, o.id = op.id → o = op) :
    s.Claims op op.state (s.releaseClaim op owner).1 (s.releaseClaim op owner).2 := by
  refine ⟨?_, fun h => absurd h (Option.some_ne_none _), fun c h => Option.some.inj h ▸ ⟨rfl, rfl⟩⟩
  refine Table.forall₂_update (fun o ho hp => ?_) fun o _ _ => ⟨rfl, .inl ⟨rfl, rfl⟩⟩
  have hid : o.id = op.id := of_decide_eq_true hp
  exact ⟨rfl, .inr ⟨hid, rfl, by rw [← huniq o ho hid]; rfl⟩⟩

def claimedState : ApplyState → ApplyState
  | .pending => .running
  | .stopped => .resuming
  | st => st

def cutoverState : ApplyState → ApplyState
  | .waitingForCutover => .cuttingOver
  | st => st

theorem Store.claims_persistOperationClaim (huniq : ∀ o ∈ s.operations, o.id = op.id → o = op) :
    s.Claims op (claimedState op.state) (s.persistOperationClaim op owner).1
      (s.persistOperationClaim op owner).2 := by
  unfold persistOperationClaim
  split
  · next hst => rw [hst]; exact claims_moveClaim fun _ => ⟨rfl, rfl, rfl⟩
  · next hst => rw [hst]; exact claims_moveClaim fun _ => ⟨rfl, rfl, rfl⟩
  · next hst =>
    have h : s.Claims op op.state (s.releaseClaim op owner).1 (s.releaseClaim op owner).2 :=
      s.claims_releaseClaim huniq
    have hclaimed : claimedState op.state = op.state := by rw [hst]; rfl
    rw [hclaimed]
    refine ⟨Table.forall₂_trans h.rows consumeRetry_rows fun a b c hab hbc => ?_,
      fun h => absurd h (Option.some_ne_none _), fun c h => Option.some.inj h ▸ ⟨rfl, rfl⟩⟩
    have hst' := hbc.state.resolve_right id
    refine ⟨hbc.identity.trans hab.identity, ?_⟩
    rw [hbc.leaseToken, hst']
    exact hab.lease
  · next h₁ h₂ h₃ =>
    have hclaimed : claimedState op.state = op.state := by
      cases hst : op.state <;> first | rfl | exact absurd hst h₁ | exact absurd hst h₂
    rw [hclaimed]
    exact s.claims_releaseClaim huniq

theorem Store.claims_persistCutoverClaim (huniq : ∀ o ∈ s.operations, o.id = op.id → o = op) :
    s.Claims op (cutoverState op.state) (s.persistCutoverClaim op owner).1
      (s.persistCutoverClaim op owner).2 := by
  unfold persistCutoverClaim
  split
  · next hst => rw [hst]; exact claims_moveClaim fun _ => ⟨rfl, rfl, rfl⟩
  · next hst =>
    have hcutover : cutoverState op.state = op.state := by
      cases hs : op.state <;> first | rfl | exact absurd hs hst
    rw [hcutover]
    exact s.claims_releaseClaim huniq

section
variable (hs : s.WF)
  (hclaims : ∀ op, (∀ o ∈ s.operations, o.id = op.id → o = op) → s.Claims op (f op.state) (persist s op owner).1 (persist s op owner).2)
include hs hclaims

theorem rows_claimOperation (locked : Nat → Bool) (message : String) {o' : ApplyOperation}
    (ho' : o' ∈ (Method.call (claimOperation wanted persist locked owner message) s).1.operations) :
    ∃ o ∈ s.operations, o'.identity = o.identity ∧
      ((o'.leaseToken = o.leaseToken ∧ o'.state = o.state) ∨
        (wanted s o = true ∧ o'.leaseToken = s.nextToken ∧ o'.state = f o.state)) := by
  rcases call_claimOperation wanted persist locked owner message s with ⟨h, -⟩ | ⟨op, hop, hw, h⟩
  · rw [h] at ho'
    exact ⟨o', ho', rfl, .inl ⟨rfl, rfl⟩⟩
  · rw [h] at ho'
    have huniq : ∀ o ∈ s.operations, o.id = op.id → o = op := fun o ho hid =>
      hs.operationIds.eq ho hop hid
    obtain ⟨o, ho, hrow⟩ := Table.forall₂_mem_right (hclaims op huniq).rows ho'
    refine ⟨o, ho, hrow.identity, hrow.lease.imp_right fun ⟨hid, ht, hst⟩ => ?_⟩
    rw [huniq o ho hid]
    exact ⟨hw, ht, hst⟩

theorem result_claimOperation {locked : Nat → Bool} {message : String} {c : ApplyOperation}
    (h : (Method.call (claimOperation wanted persist locked owner message) s).2 = .ok (some c)) :
    ∃ op ∈ s.operations, wanted s op = true ∧ c.lease = ⟨op.applyId, op.id, s.nextToken⟩ ∧
      (Method.call (claimOperation wanted persist locked owner message) s).1.nextToken =
        s.nextToken + 1 := by
  rcases call_claimOperation wanted persist locked owner message s with ⟨-, hn⟩ | ⟨op, hop, hw, he⟩
  · exact absurd h (hn c)
  · rw [he] at h ⊢
    have huniq : ∀ o ∈ s.operations, o.id = op.id → o = op := fun o ho hid =>
      hs.operationIds.eq ho hop hid
    obtain ⟨hl, hn⟩ := (hclaims op huniq).some c (Except.ok.inj h)
    exact ⟨op, hop, hw, hl, hn⟩

end

end

end SchemaBot
