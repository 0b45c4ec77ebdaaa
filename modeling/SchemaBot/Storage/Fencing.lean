import SchemaBot.Storage.Safety

/-!
# Fencing of superseded leases

A claim rotates a fresh token onto its row.
-/

namespace SchemaBot

open Concurrent

variable {f : Fence} {I : Store → Prop}

/-! ## The lease that guards a call -/

inductive Fence
  | apply (lease : ApplyLease)
  | operation (lease : OperationLease)
  deriving DecidableEq

def Ctx.writeFence (ctx : Ctx) : Option Fence :=
  match ctx.operationLease with
  | some lease => some (.operation lease)
  | none => ctx.applyLease.map .apply

def Call.fence : Call → Option Fence
  | .update ctx _ | .heartbeat ctx _ | .completePending ctx _ _ | .failPending ctx _ _ _ =>
    ctx.applyLease.map .apply
  | .updateDerivedState ctx .. | .updateState ctx .. | .markStarted ctx _ | .markTerminal ctx ..
  | .markFailed ctx .. | .saveEngineResumeState ctx .. | .heartbeatOperation ctx _
  | .markPendingStoppedByApply ctx _ | .updateTask ctx _ => ctx.writeFence
  | .upsertShardProgress ctx _ => ctx.operationLease.map .operation
  | _ => none

def Store.holds (s : Store) : Fence → Bool
  | .apply lease => s.applyLeaseMatches lease
  | .operation lease => s.operationLeaseOwnsRow lease.operationId lease.token

def Store.Dead (s : Store) : Fence → Prop
  | .apply lease => lease.token < s.nextToken ∧
      (lease.token ≠ 0 → ∀ a ∈ s.applies, a.leaseToken ≠ lease.token)
  | .operation lease => lease.token < s.nextToken ∧
      (lease.token ≠ 0 → ∀ o ∈ s.operations, o.leaseToken ≠ lease.token)

section
variable {s t : Store}

theorem Store.Dead.evolves (h : s.Dead f) (hst : s.Evolves t) : t.Dead f := by
  cases f with
  | apply lease =>
    refine ⟨Nat.lt_of_lt_of_le h.1 hst.nextToken_le, fun h0 a ha he => ?_⟩
    have hlt := h.1
    rcases hst.applies.origin ha with ⟨r, hr, -, hk | hk⟩ | ⟨-, hk | hk⟩
    · exact h.2 h0 r hr (hk.symm.trans he)
    all_goals omega
  | operation lease =>
    refine ⟨Nat.lt_of_lt_of_le h.1 hst.nextToken_le, fun h0 o ho he => ?_⟩
    have hlt := h.1
    rcases hst.operations.origin ho with ⟨r, hr, -, hk | hk⟩ | ⟨-, hk | hk⟩
    · exact h.2 h0 r hr (hk.symm.trans he)
    all_goals omega

theorem Store.dead_of_superseded (hs : s.WF) (hold : s.holds f = true) (hst : s.Evolves t)
    (hnot : t.holds f = false) : t.Dead f := by
  cases f with
  | apply lease =>
    simp only [holds, applyLeaseMatches, List.any_eq_true, Bool.and_eq_true, decide_eq_true_eq] at hold
    simp only [holds, applyLeaseMatches, List.any_eq_false, Bool.and_eq_true, decide_eq_true_eq,
      not_and] at hnot
    obtain ⟨r, hr, hid, htok⟩ := hold
    have hlt : r.leaseToken < s.nextToken := hs.applyTokens_lt r hr
    refine ⟨Nat.lt_of_lt_of_le (htok ▸ hlt) hst.nextToken_le, fun h0 a ha he => ?_⟩
    rcases hst.applies.origin ha with ⟨o, ho, hi, hk | hk⟩ | ⟨-, hk | hk⟩
    · -- the row that carries the token carried it before, so it is the lease's own row
      have hro : r.leaseToken = o.leaseToken := by rw [htok, ← hk, he]
      rcases hs.applyTokens r hr o ho hro with hz | hid'
      · exact h0 (htok.symm.trans hz)
      · exact hnot a ha ((Apply.id_eq_of_identity hi).trans (hid'.symm.trans hid)) he
    all_goals omega
  | operation lease =>
    simp only [holds, operationLeaseOwnsRow, List.any_eq_true, Bool.and_eq_true,
      decide_eq_true_eq] at hold
    simp only [holds, operationLeaseOwnsRow, List.any_eq_false, Bool.and_eq_true, decide_eq_true_eq,
      not_and] at hnot
    obtain ⟨r, hr, hid, htok⟩ := hold
    have hlt : r.leaseToken < s.nextToken := hs.operationTokens_lt r hr
    refine ⟨Nat.lt_of_lt_of_le (htok ▸ hlt) hst.nextToken_le, fun h0 a ha he => ?_⟩
    rcases hst.operations.origin ha with ⟨o, ho, hi, hk | hk⟩ | ⟨-, hk | hk⟩
    · have hro : r.leaseToken = o.leaseToken := by rw [htok, ← hk, he]
      rcases hs.operationTokens r hr o ho hro with hz | hid'
      · exact h0 (htok.symm.trans hz)
      · exact hnot a ha ((ApplyOperation.id_eq_of_identity hi).trans (hid'.symm.trans hid)) he
    all_goals omega

end

/-! ## Refusal -/

/-- As long as `I` holds, the method changes nothing and ends with an error of `P`. -/
def Refused {α : Type} (I : Store → Prop) (P : StoreError → Prop) (m : StoreMethod α) : Prop :=
  Method.Ensures I (fun s t => t = s) (fun r => ∃ e, r = .error e ∧ P e) m

namespace Refused
variable {α β : Type} {P : StoreError → Prop} {g : α → StoreMethod β}

theorem throw {e : StoreError} (h : P e) : Refused I P (throw e : StoreMethod α) := ⟨e, rfl, h⟩

theorem bind {m : StoreMethod α} (h : Refused I P m) : Refused I P (m >>= g) := by
  refine Method.Ensures.bind (h.mono fun r hr => ?_)
  obtain ⟨e, rfl, he⟩ := hr
  exact ⟨e, rfl, he⟩

theorem mono {P' : StoreError → Prop} {m : StoreMethod α} (h : Refused I P m)
    (hP : ∀ e, P e → P' e) : Refused I P' m :=
  Method.Ensures.mono (fun _ ⟨e, he, hp⟩ => ⟨e, he, hP e hp⟩) h

theorem bind_lift {r : Except StoreError α} (herr : ∀ e, r = .error e → P e)
    (hok : ∀ a, r = .ok a → Refused I P (g a)) : Refused I P (Method.lift r >>= g) := by
  refine Method.Ensures.bind (Method.Ensures.lift ?_)
  cases hr : r with
  | ok a => exact hok a hr
  | error e => exact ⟨e, rfl, herr e hr⟩

theorem bind_read {f : Store → α} (h : ∀ s, I s → Refused I P (g (f s))) : Refused I P (Method.read f >>= g) :=
  Method.Ensures.bind (Method.Ensures.read (fun _ => rfl) h)

theorem bind_write {w : Store → Store × α} {a : α} (hw : ∀ s, I s → w s = (s, a))
    (hg : Refused I P (g a)) : Refused I P (Method.write w >>= g) := by
  refine Method.Ensures.bind (Method.Ensures.write fun s hs => ?_)
  rw [hw s hs]
  exact ⟨rfl, hs, hg⟩

section
variable {g : Nat → StoreMethod β} (hg : Refused I P (g 0))
include hg

theorem bind_execApplies {p : Store → Apply → Bool} {f : Store → Apply → Apply}
    (hp : ∀ s, I s → ∀ a ∈ s.applies, p s a = false) : Refused I P (execApplies p f >>= g) := by
  refine bind_write (fun s hs => ?_) hg
  rw [Store.updateApplies, Table.update_eq_self (hp s hs), Table.affected_eq_zero_of_none (hp s hs)]

theorem bind_execOperations {p : Store → ApplyOperation → Bool} {f : Store → ApplyOperation → ApplyOperation}
    (hp : ∀ s, I s → ∀ o ∈ s.operations, p s o = false) : Refused I P (execOperations p f >>= g) := by
  refine bind_write (fun s hs => ?_) hg
  rw [Store.updateOperations, Table.update_eq_self (hp s hs),
    Table.affected_eq_zero_of_none (hp s hs)]

theorem bind_execTasks {p : Store → Task → Bool} {f : Store → Task → Task}
    (hp : ∀ s, I s → ∀ t ∈ s.tasks, p s t = false) : Refused I P (execTasks p f >>= g) := by
  refine bind_write (fun s hs => ?_) hg
  rw [Store.updateTasks, Table.update_eq_self (hp s hs), Table.affected_eq_zero_of_none (hp s hs)]

theorem bind_execControlRequests {p : Store → ControlRequest → Bool} {f : Store → ControlRequest → ControlRequest}
    (hp : ∀ s, I s → ∀ cr ∈ s.controlRequests, p s cr = false) : Refused I P (execControlRequests p f >>= g) := by
  refine bind_write (fun s hs => ?_) hg
  rw [Store.updateControlRequests, Table.update_eq_self (hp s hs),
    Table.affected_eq_zero_of_none (hp s hs)]

end

theorem transaction {f : Store → Except StoreError (Store × α)} (h : ∀ s, I s → ∃ e, f s = .error e ∧ P e) :
    Refused I P (Method.transaction f : StoreMethod α) := by
  refine Method.Ensures.transaction (fun _ => rfl) (fun s s' a hs hf => ?_) fun s e hs hf => ?_
  · obtain ⟨e, he, -⟩ := h s hs
    rw [he] at hf; cases hf
  · obtain ⟨e', he, hp⟩ := h s hs
    rw [he] at hf; cases hf
    exact ⟨e, rfl, hp⟩

end Refused

def Lost (e : StoreError) : Prop := e.sentinel = .applyLeaseLost

/-! ## The checks under a dead lease -/

section
variable {lease : ApplyLease} (hI : ∀ s, I s → s.Dead (.apply lease)) (hv : lease.valid = true)

include hI hv

theorem applyToken_ne (s : Store) (hs : I s) : ∀ a ∈ s.applies, a.leaseToken ≠ lease.token := by
  simp only [ApplyLease.valid, Bool.and_eq_true, decide_eq_true_eq] at hv
  exact (hI s hs).2 hv.2

theorem applies_any_dead (id : Nat) (s : Store) (hs : I s) :
    (s.applies.any fun a => a.id = id && a.leaseToken = lease.token) = false := by
  simp only [List.any_eq_false, Bool.and_eq_true, decide_eq_true_eq, not_and]
  exact fun a ha _ => applyToken_ne hI hv s hs a ha

theorem applyLeaseMatches_dead (s : Store) (hs : I s) : s.applyLeaseMatches lease = false :=
  applies_any_dead hI hv lease.applyId s hs

theorem refused_ensureApplyLeaseStillOwned : Refused I Lost (ensureApplyLeaseStillOwned lease) := by
  refine .bind_read fun s hs => ?_
  rw [applyLeaseMatches_dead hI hv s hs]
  exact .throw rfl

theorem refused_confirmLeaseOnZeroRows : Refused I Lost (confirmLeaseOnZeroRows 0 lease) := by
  exact .bind (refused_ensureApplyLeaseStillOwned hI hv)

end

section
variable {lease : OperationLease} (hI : ∀ s, I s → s.Dead (.operation lease)) (hv : lease.valid = true)

include hI hv

theorem operationToken_ne (s : Store) (hs : I s) : ∀ o ∈ s.operations, o.leaseToken ≠ lease.token := by
  simp only [OperationLease.valid, Bool.and_eq_true, decide_eq_true_eq] at hv
  exact (hI s hs).2 hv.2

theorem operationLeaseOwnsRow_dead (id : Nat) (s : Store) (hs : I s) :
    s.operationLeaseOwnsRow id lease.token = false := by
  simp only [Store.operationLeaseOwnsRow, List.any_eq_false, Bool.and_eq_true, decide_eq_true_eq,
    not_and]
  exact fun o ho _ => operationToken_ne hI hv s hs o ho

theorem operationLeaseOwnsApply_dead (applyId : Nat) (s : Store) (hs : I s) :
    s.operationLeaseOwnsApply lease applyId = false := by
  simp only [Store.operationLeaseOwnsApply, List.any_eq_false, Bool.and_eq_true, decide_eq_true_eq,
    not_and]
  exact fun o ho _ => operationToken_ne hI hv s hs o ho

theorem refused_ensureOperationLeaseStillOwned : Refused I Lost (ensureOperationLeaseStillOwned lease) := by
  refine .bind_read fun s hs => ?_
  rw [operationLeaseOwnsRow_dead hI hv _ s hs]
  exact .throw rfl

theorem refused_ensureOperationLeaseOwnsApply (applyId : Nat) :
    Refused I Lost (ensureOperationLeaseOwnsApply lease applyId) := by
  refine .bind_read fun s hs => ?_
  rw [operationLeaseOwnsApply_dead hI hv _ s hs]
  exact .throw rfl

end

/-! ## Methods guarded by the apply lease -/

theorem Refused.bind_applyLease {β : Type} {I : Store → Prop} {P : StoreError → Prop} {ctx : Ctx}
    {lease : ApplyLease} (hc : ctx.applyLease = some lease) (hP : ∀ e, Lost e → P e) {id : Nat}
    {g : Option ApplyLease → StoreMethod β} (h : lease.valid = true → Refused I P (g (some lease))) :
    Refused I P (Method.lift (applyLeaseFromContext ctx id) >>= g) := by
  refine .bind_lift (fun e he => hP e (applyLeaseFromContext_error he)) fun l hl => ?_
  rcases applyLeaseFromContext_some id hc with ⟨e, he, -⟩ | ⟨hok, hv, -⟩
  · rw [he] at hl; cases hl
  · rw [hok] at hl; cases hl
    exact h hv

section
variable {lease : ApplyLease} {ctx : Ctx} (hI : ∀ s, I s → s.Dead (.apply lease))
  (hc : ctx.applyLease = some lease)

include hI

theorem updateTx_dead (hv : lease.valid = true) (apply : Apply) (target : Target) (s : Store)
    (hs : I s) : ∃ e, updateTx (some lease) apply target s = .error e ∧
      (Lost e ∨ e.sentinel = .activeApplyExists) := by
  unfold updateTx
  cases hchk : s.checkUpdate apply target with
  | error e => exact ⟨e, rfl, .inr (Store.checkUpdate_error hchk)⟩
  | ok _ =>
    have hrow : ∀ a ∈ s.applies, updateRow (some lease) apply a = false := fun a ha => by
      simp [updateRow, leasePredicate, applyToken_ne hI hv s hs a ha]
    have hconf : s.confirmUpdate (some lease) 0 =
        .error (leaseLost ("apply lease for apply " ++ toString lease.applyId ++
          " is no longer current")) := by
      simp [Store.confirmUpdate, applyLeaseMatches_dead hI hv s hs]
    rw [Table.affected_eq_zero_of_none hrow, hconf]
    exact ⟨_, rfl, .inl rfl⟩

include hc

theorem refused_update (apply : Apply) :
    Refused I (fun e => Lost e ∨ e.sentinel = .activeApplyExists) (update ctx apply) := by
  refine .bind_lift (fun e he => ?_) fun _ _ => ?_
  · rw [refuseOperationLeaseOnly, hc] at he
    simp at he
  refine .bind_applyLease hc (fun _ => .inl) fun hv => .bind_read fun _ _ => ?_
  exact .transaction fun s hs => updateTx_dead hI hv apply _ s hs

theorem refused_heartbeat (applyId : Nat) : Refused I Lost (heartbeat ctx applyId) := by
  refine .bind_lift (fun e he => ?_) fun _ _ => ?_
  · rw [refuseOperationLeaseOnly, hc] at he
    simp at he
  refine .bind_applyLease hc (fun _ => id) fun hv => ?_
  refine .bind_execApplies (.bind (refused_confirmLeaseOnZeroRows hI hv)) fun s hs a ha => ?_
  simp [leasePredicate, applyToken_ne hI hv s hs a ha]

theorem refused_settlePending (applyId : Nat) (operation : ControlOperation)
    (assign : Store → ControlRequest → ControlRequest) :
    Refused I Lost (settlePending ctx applyId operation assign) := by
  refine .bind_applyLease hc (fun _ => id) fun hv => ?_
  refine .bind_execControlRequests (.bind (refused_confirmLeaseOnZeroRows hI hv)) fun s hs cr _ => ?_
  simp [pendingRequestRow, applyLeaseMatches_dead hI hv s hs]

end

/-! ## The choice of a guard -/

inductive Ctx.Guards (ctx : Ctx) : WriteGuard → Prop
  | operation {lease : OperationLease} :
      ctx.operationLease = some lease → lease.valid = true → ctx.Guards (.operation lease)
  | apply {lease : ApplyLease} :
      ctx.operationLease = none → ctx.applyLease = some lease → lease.valid = true →
        ctx.Guards (.apply lease)
  | unguarded : ctx.operationLease = none → ctx.applyLease = none → ctx.Guards .unguarded

def Ctx.Chooses (ctx : Ctx) : Except StoreError WriteGuard → Prop
  | .ok guard => ctx.Guards guard
  | .error e => Lost e

section
variable (ctx : Ctx)

theorem chooses_operationWriteGuard : ctx.Chooses (operationWriteGuardFromContext ctx) := by
  unfold operationWriteGuardFromContext
  split
  · next h =>
    split
    · exact .operation h ‹_›
    · exact rfl
  · next h =>
    split
    · next ha =>
      split
      · exact .apply h ha ‹_›
      · exact rfl
    · exact .unguarded h ‹_›

theorem chooses_applyLease (h : ctx.operationLease = none) (id : Nat) :
    ctx.Chooses (match applyLeaseFromContext ctx id with
      | .error e => .error e
      | .ok (some lease) => .ok (.apply lease)
      | .ok none => .ok .unguarded) := by
  cases ha : ctx.applyLease with
  | none =>
    have : applyLeaseFromContext ctx id = .ok none := by rw [applyLeaseFromContext, ha]
    rw [this]
    exact .unguarded h ha
  | some lease =>
    rcases applyLeaseFromContext_some id ha with ⟨e, he, hl⟩ | ⟨hok, hv, -⟩
    · rw [he]; exact hl
    · rw [hok]; exact .apply h ha hv

theorem chooses_derivedStateGuard (id : Nat) : ctx.Chooses (derivedStateGuardForContext ctx id) := by
  unfold derivedStateGuardForContext
  split
  · next h =>
    split
    · exact rfl
    · next hv =>
      split
      · exact rfl
      · exact .operation h (by simpa using hv)
  · exact chooses_applyLease ctx ‹_› id

theorem chooses_taskWriteGuard (task : Task) : ctx.Chooses (taskWriteGuardFromContext ctx task) := by
  unfold taskWriteGuardFromContext
  split
  · next h =>
    split
    · exact .operation h ‹_›
    · exact rfl
  · exact chooses_applyLease ctx ‹_› task.applyId

variable {ctx} {β : Type}

theorem Refused.bind_guard {r : Except StoreError WriteGuard} {g : WriteGuard → StoreMethod β}
    (hr : ctx.Chooses r) (hc : ctx.writeFence = some f) (hI : ∀ s, I s → s.Dead f)
    (hop : ∀ lease : OperationLease, lease.valid = true → (∀ s, I s → s.Dead (.operation lease)) →
      Refused I Lost (g (.operation lease)))
    (hap : ∀ lease : ApplyLease, lease.valid = true → (∀ s, I s → s.Dead (.apply lease)) →
      Refused I Lost (g (.apply lease))) :
    Refused I Lost (Method.lift r >>= g) := by
  refine .bind_lift (fun e he => by rw [he] at hr; exact hr) fun guard he => ?_
  rw [he] at hr
  cases hr with
  | operation h hv =>
    rw [Ctx.writeFence, h] at hc; cases hc
    exact hop _ hv hI
  | apply h ha hv =>
    rw [Ctx.writeFence, h, ha] at hc; cases hc
    exact hap _ hv hI
  | unguarded h ha => rw [Ctx.writeFence, h, ha] at hc; cases hc

end

/-! ## Methods that prefer the operation lease -/

section
variable {ctx : Ctx} (hI : ∀ s, I s → s.Dead f) (hc : ctx.writeFence = some f)

include hI hc

theorem refused_updateDerivedState (applyId : Nat) (expected newState : ApplyState)
    (errorMessage : String) (startedAt completedAt : Option Nat) : Refused I Lost
      (updateDerivedState ctx applyId expected newState errorMessage startedAt completedAt) := by
  refine .bind_guard (chooses_derivedStateGuard ctx applyId) hc hI (fun lease hv hd => ?_)
    fun lease hv hd => ?_
  · refine .bind_execApplies (.bind (refused_ensureOperationLeaseOwnsApply hd hv applyId))
      fun s hs a _ => ?_
    simp [derivedStateRow, WriteGuard.derivedStatePredicate, operationLeaseOwnsApply_dead hd hv _ s hs]
  · refine .bind_execApplies (.bind (refused_ensureApplyLeaseStillOwned hd hv)) fun s hs a ha => ?_
    simp [derivedStateRow, WriteGuard.derivedStatePredicate, applyToken_ne hd hv s hs a ha]

theorem refused_writeOperation (id : Nat) (missingOK : Bool) (assign : Store → ApplyOperation → ApplyOperation)
    (hrow : ∀ s, I s → (s.getOperation id).isSome = true) :
    Refused I Lost (writeOperation ctx id missingOK assign) := by
  refine .bind_guard (chooses_operationWriteGuard ctx) hc hI (fun lease hv hd => ?_)
    fun lease hv hd => ?_
  · refine .bind_execOperations ?_ fun s hs o ho => ?_
    · refine .bind_read fun s hs => ?_
      rw [operationLeaseOwnsRow_dead hd hv id s hs]
      refine .bind_read fun s hs => ?_
      obtain ⟨row, hr⟩ := Option.isSome_iff_exists.1 (hrow s hs)
      rw [hr]
      exact .throw rfl
    · simp [WriteGuard.operationPredicate, operationToken_ne hd hv s hs o ho]
  · refine .bind_execOperations (.bind (refused_ensureApplyLeaseStillOwned hd hv)) fun s hs o _ => ?_
    simp [WriteGuard.operationPredicate, applies_any_dead hd hv o.applyId s hs]

theorem refused_markPendingStoppedByApply (applyId : Nat) :
    Refused I Lost (markPendingStoppedByApply ctx applyId) := by
  unfold markPendingStoppedByApply
  cases hop : ctx.operationLease with
  | some lease =>
    rw [Ctx.writeFence, hop] at hc; cases hc
    dsimp only
    split
    · exact .throw rfl
    · next hv =>
      have hv : lease.valid = true := by simpa using hv
      split
      · exact .throw rfl
      · refine .bind_execOperations (.bind (refused_ensureOperationLeaseStillOwned hI hv))
          fun s hs o _ => ?_
        simp [pendingStopRow, operationLeaseOwnsApply_dead hI hv _ s hs]
  | none =>
    cases hap : ctx.applyLease with
    | none => rw [Ctx.writeFence, hop, hap] at hc; cases hc
    | some lease =>
      rw [Ctx.writeFence, hop, hap] at hc; cases hc
      refine .bind_applyLease hap (fun _ => id) fun hv => ?_
      refine .bind_execOperations (refused_confirmLeaseOnZeroRows hI hv) fun s hs o _ => ?_
      simp [pendingStopRow, applyLeaseMatches_dead hI hv s hs]

theorem refused_updateTask (task : Task) : Refused I Lost (updateTask ctx task) := by
  refine .bind_guard (chooses_taskWriteGuard ctx task) hc hI (fun lease hv hd => ?_)
    fun lease hv hd => ?_
  · refine .bind_execTasks (refused_ensureOperationLeaseStillOwned hd hv) fun s hs t _ => ?_
    simp [WriteGuard.taskPredicate, operationLeaseOwnsRow_dead hd hv _ s hs]
  · refine .bind_execTasks (refused_ensureApplyLeaseStillOwned hd hv) fun s hs t _ => ?_
    simp [WriteGuard.taskPredicate, applies_any_dead hd hv t.applyId s hs]

end

/-! ## Shard progress -/

/-- The shard row that `UpsertShardProgress` accepts under a lease. -/
def Task.shardRowOf (task : Task) (lease : OperationLease) : Bool :=
  task.applyOperationId = some lease.operationId && task.tableName ≠ "" && task.shard ≠ ""

section
variable {lease : OperationLease} (hI : ∀ s, I s → s.Dead (.operation lease))

include hI

theorem refused_insertShardTaskGuarded (hv : lease.valid = true) (task : Task) :
    Refused I Lost (insertShardTaskGuarded task lease) := by
  refine Method.Ensures.bind (Method.Ensures.transaction (fun _ => rfl) (fun s s' a hs hf => ?_)
    fun s e hs hf => ?_)
  all_goals rw [operationLeaseOwnsRow_dead hI hv _ s hs] at hf; cases hf
  exact ⟨rfl, hs, refused_ensureOperationLeaseStillOwned hI hv⟩

theorem refused_upsertShardProgress {ctx : Ctx} (hc : ctx.operationLease = some lease) (task : Task) :
    Refused I (fun e => Lost e ∨ task.shardRowOf lease = false) (upsertShardProgress ctx task) := by
  have hf : ctx.writeFence = some (.operation lease) := by rw [Ctx.writeFence, hc]
  rw [upsertShardProgress, hc]
  dsimp only
  split
  · exact .throw (.inl rfl)
  · next hv =>
    have hv : lease.valid = true := by simpa using hv
    split
    · next hnone => exact .throw (.inr (by simp [Task.shardRowOf, hnone]))
    · next operationId hsome =>
      split
      · next hne => exact .throw (.inr (by simp [Task.shardRowOf, hsome, hne]))
      · split
        · next htable => exact .throw (.inr (by simp [Task.shardRowOf, htable]))
        · split
          · next hshard => exact .throw (.inr (by simp [Task.shardRowOf, hshard]))
          · refine .bind_read fun s _ => ?_
            split
            · exact (refused_updateTask hI hf _).mono fun _ => .inl
            · exact (refused_insertShardTaskGuarded hI hv task).mono fun _ => .inl

end

/-! ## The law -/

def Call.operationId? : Call → Option Nat
  | .updateState _ id _ | .markStarted _ id | .markTerminal _ id _ | .markFailed _ id _
  | .saveEngineResumeState _ id _ _ _ | .heartbeatOperation _ id => some id
  | _ => none

def Call.RefusesFirst : Call → StoreError → Prop
  | .update .., e => e.sentinel = .activeApplyExists
  | .saveEngineResumeState _ operationId resumeId _ _, _ => resumeId ≠ 0 ∧ resumeId ≠ operationId
  | .upsertShardProgress ctx task, _ =>
    ∃ lease, ctx.operationLease = some lease ∧ task.shardRowOf lease = false
  | _, _ => False

theorem Call.refused (c : Call) {f : Fence} (hc : c.fence = some f) {I : Store → Prop} (hI : ∀ s, I s → s.Dead f)
    (hrow : ∀ id, c.operationId? = some id → ∀ s, I s → (s.getOperation id).isSome = true) :
    Refused I (fun e => Lost e ∨ c.RefusesFirst e) c.method := by
  cases c with
  | update ctx apply =>
    obtain ⟨lease, hl, rfl⟩ := Option.map_eq_some_iff.1 hc
    exact refused_update hI hl apply
  | heartbeat ctx applyId =>
    obtain ⟨lease, hl, rfl⟩ := Option.map_eq_some_iff.1 hc
    exact (refused_heartbeat hI hl applyId).mono fun _ => .inl
  | completePending ctx applyId operation | failPending ctx applyId operation =>
    obtain ⟨lease, hl, rfl⟩ := Option.map_eq_some_iff.1 hc
    exact (refused_settlePending hI hl applyId operation _).mono fun _ => .inl
  | updateDerivedState ctx applyId expected newState errorMessage startedAt completedAt =>
    exact (Refused.bind (refused_updateDerivedState hI hc applyId expected newState errorMessage
      startedAt completedAt)).mono fun _ => .inl
  | updateState ctx id | markStarted ctx id | markTerminal ctx id | markFailed ctx id
  | heartbeatOperation ctx id =>
    exact (refused_writeOperation hI hc id _ _ (hrow id rfl)).mono fun _ => .inl
  | saveEngineResumeState ctx id resumeId migrationContext metadata =>
    simp only [method, SchemaBot.saveEngineResumeState]
    split
    · exact .throw (.inr ‹_›)
    · exact (refused_writeOperation hI hc id _ _ (hrow id rfl)).mono fun _ => .inl
  | markPendingStoppedByApply ctx applyId =>
    exact (Refused.bind (refused_markPendingStoppedByApply hI hc applyId)).mono fun _ => .inl
  | updateTask ctx task => exact (refused_updateTask hI hc task).mono fun _ => .inl
  | upsertShardProgress ctx task =>
    obtain ⟨lease, hl, rfl⟩ := Option.map_eq_some_iff.1 hc
    exact (refused_upsertShardProgress hI hl task).mono fun _ h => h.imp_right fun h => ⟨lease, hl, h⟩
  | _ => cases hc

theorem Store.Evolves.operation_isSome {s t : Store} (h : s.Evolves t) {id : Nat}
    (hs : (s.getOperation id).isSome = true) : (t.getOperation id).isSome = true := by
  simp only [getOperation, List.find?_isSome, decide_eq_true_eq] at hs ⊢
  obtain ⟨o, ho, hid⟩ := hs
  obtain ⟨o', ho', hk⟩ := h.operations.persists ho
  exact ⟨o', ho', (ApplyOperation.id_eq_of_identity hk.1).trans hid⟩

/-- Once a lease has been superseded, a call that it guards changes nothing, in any interleaving with
the rest of the system, and reports the lost lease, unless it refuses its arguments first. -/
theorem superseded_lease_writes_nothing (c : Call) {f : Fence} (hc : c.fence = some f)
    {s₀ s s' : Store} (h₀ : s₀.Reachable) (hold : s₀.holds f = true)
    (hs : Relation.ReflTransGen Store.Other s₀ s) (hlost : s.holds f = false)
    (hrow : ∀ id, c.operationId? = some id → (s.getOperation id).isSome = true)
    {tr : List (Store × Store)} {r : Except StoreError Unit} (hrun : Prog.Runs Store.Other c.method.run s tr r s') :
    (∀ m ∈ tr, m.2 = m.1) ∧ ∃ e, r = .error e ∧ (e.sentinel = .applyLeaseLost ∨ c.RefusesFirst e) := by
  have hn := Store.next_of_other h₀.wf hs
  have hdead := Store.dead_of_superseded h₀.wf hold hn.evolves hlost
  let I := fun t : Store => t.WF ∧ t.Dead f ∧
    ∀ id, c.operationId? = some id → (t.getOperation id).isSome = true
  have hstable : ∀ t u : Store, I t → t.Other u → I u := by
    intro t u ⟨hwf, hd, hr⟩ htu
    have hnext := htu.next hwf
    exact ⟨hnext.wf, hd.evolves hnext.evolves, fun id hid => hnext.evolves.operation_isSome (hr id hid)⟩
  have href : Refused I (fun e => Lost e ∨ c.RefusesFirst e) c.method :=
    c.refused hc (fun t ht => ht.2.1) fun id hid t ht => ht.2.2 id hid
  exact Method.Ensures.runs hstable hrun href ⟨hn.wf, hdead, hrow⟩

def firstClaim : List Call :=
  [sampleCreate, .findNextApplyOperation "operator-1" fun _ => false,
    .claimApplyByID 1 "operator-1" fun _ => false]

def secondClaim : List Call :=
  [.tick 61, .findNextApplyOperation "operator-2" fun _ => false,
    .claimApplyByID 1 "operator-2" fun _ => false]

def claimedOnce : Store := Transition.run Store.after {} firstClaim

def claimedTwice : Store := Transition.run Store.after claimedOnce secondClaim

theorem reachable_claimedOnce : claimedOnce.Reachable := Store.wf_empty.others_run firstClaim

theorem others_claimedTwice : Relation.ReflTransGen Store.Other claimedOnce claimedTwice :=
  reachable_claimedOnce.wf.others_run secondClaim

def firstOperationLease : OperationLease := ⟨1, 1, 1⟩

def firstApplyLease : ApplyLease := ⟨1, 2⟩

/-- The first operator completes its operation after the second has claimed it. -/
theorem superseded_lease_writes_nothing_completion :
    ∃ e, (Method.call (markCompleted { operationLease := some firstOperationLease } 1)
      claimedTwice).2 = .error e ∧ e.sentinel = .applyLeaseLost := by
  let c := Call.markTerminal { operationLease := some firstOperationLease } 1 .completed
  obtain ⟨tr, hrun⟩ := Prog.runs_exec Store.Other c.method.run claimedTwice
  obtain ⟨-, e, he, hl | hl⟩ := superseded_lease_writes_nothing c
    rfl reachable_claimedOnce (by decide) others_claimedTwice (by decide)
    (fun id hid => by cases hid; decide) hrun
  · exact ⟨e, he, hl⟩
  · cases hl

/-- The write that no lease guards: the first operator still marks the skipped revert of the apply that
the second has claimed, and is told that it succeeded. -/
theorem superseded_lease_sets_revert_skipped :
    claimedOnce.Reachable ∧ claimedOnce.holds (.apply firstApplyLease) = true ∧
    Relation.ReflTransGen Store.Other claimedOnce claimedTwice ∧
    claimedTwice.holds (.apply firstApplyLease) = false ∧
    (Method.call (setRevertSkipped { applyLease := some firstApplyLease } 1 90) claimedTwice).2 = .ok () ∧
    (Method.call (setRevertSkipped { applyLease := some firstApplyLease } 1 90) claimedTwice).1.applies ≠
      claimedTwice.applies :=
  ⟨reachable_claimedOnce, by decide, others_claimedTwice, by decide, rfl, by decide⟩

/-! ## Tokens over time -/

/-- A lease token that was handed out and is on no row any more never comes back to one, whatever calls run and however
their statements are interleaved. -/
theorem lost_leases_stay_lost {s t : Store} (hs : s.Reachable) (h : Relation.ReflTransGen Store.Other s t) {k : Nat}
    (hk : 0 < k) (hold : k < s.nextToken) (ho : ∀ o ∈ s.operations, o.leaseToken ≠ k)
    (ha : ∀ a ∈ s.applies, a.leaseToken ≠ k) :
    (∀ o ∈ t.operations, o.leaseToken ≠ k) ∧ ∀ a ∈ t.applies, a.leaseToken ≠ k := by
  have hnext := (Store.next_of_other hs.wf h).evolves
  refine ⟨fun o' ho' htok => ?_, fun a' ha' htok => ?_⟩
  · rcases hnext.operations.origin ho' with ⟨o, hmem, -, hkept | hfresh⟩ | ⟨-, hnone | hfresh⟩
    · exact ho o hmem (hkept ▸ htok)
    all_goals omega
  · rcases hnext.applies.origin ha' with ⟨a, hmem, -, hkept | hfresh⟩ | ⟨-, hnone | hfresh⟩
    · exact ha a hmem (hkept ▸ htok)
    all_goals omega

theorem lost_leases_stay_lost_third : let t := Transition.run Store.after claimedTwice secondClaim
    (∀ o ∈ t.operations, o.leaseToken ≠ 1) ∧ ∀ a ∈ t.applies, a.leaseToken ≠ 1 :=
  have hs : claimedTwice.Reachable := reachable_claimedOnce.trans others_claimedTwice
  lost_leases_stay_lost hs (hs.wf.others_run secondClaim) (by decide) (by decide) (by decide) (by decide)

end SchemaBot
