import SchemaBot.Operator.World
import SchemaBot.Storage.Expiry

/-!
# Why an operation fails

The runs of `Operator.World` with the results of drives spelled out.
-/

namespace SchemaBot

open Concurrent

/-! ## The results of drives -/

section
variable (s : Store) (id : Nat)

/-- `GetByApplyOperationID`. -/
def Store.tasksOf : List Task := s.tasks.filter (·.applyOperationId = some id)

def Store.ownState : ApplyState := deriveApplyState ((s.tasksOf id).map (·.state.toApply))

end

def firstFailedTaskError : List Task → String
  | [] => ""
  | k :: ks => if k.state = .failed ∧ k.errorMessage ≠ "" then k.errorMessage else firstFailedTaskError ks

/-- What `markOperationFromOwnResult` persists, if anything. A finalizer has written its own outcome; an
operation of a plan without tables mirrors its apply, unless it is completed. -/
def Store.ownResult (s : Store) (id : Nat) (vschemaOnly : Bool) : Option (ApplyState × String) :=
  match s.getOperation id with
  | none => none
  | some op =>
    if op.operationKind = .groupFinalizer then none
    else if s.tasksOf id = [] ∧ vschemaOnly = true ∧ op.operationKey = "" then
      if op.state = .completed then none
      else (s.getApply op.applyId).map fun a => (a.state, a.errorMessage)
    else some (s.ownState id, firstFailedTaskError (s.tasksOf id))

inductive DriveAction
  | other (a : Action)
  | start (d : OperationLease)
  | ownResult (d : OperationLease) (vschemaOnly : Bool)
  | missingTasks (d : OperationLease)
  | finalize (d : OperationLease) (cause : Option String)

def Action.settles : Action → Bool
  | .settle .. => true
  | _ => false

def Store.isFinalizer (s : Store) (id : Nat) : Bool :=
  s.operations.any fun o => o.id = id && o.operationKind = .groupFinalizer

namespace World

def finish (w : World) (d : OperationLease) : Option (ApplyState × String) → World
  | some (derived, errorMessage) => w.step (.settle d derived errorMessage)
  | none => w.step (.crash d)

def drive (w : World) : DriveAction → World
  | .other a => if a.settles then w else w.step a
  -- the early return of `driveClaimedMultiOperation`; with an open parent the drive goes on
  | .start d =>
    match w.store.getApply d.applyId with
    | none => w.finish d none
    | some parent =>
      if parent.state.isTerminal then w.finish d (some (parent.state, parent.errorMessage)) else w
  -- only a plan with one target makes an operation without tasks and without tables
  | .ownResult d vschemaOnly =>
    w.finish d (w.store.ownResult d.operationId (vschemaOnly && w.store.isSingle d.operationId))
  | .missingTasks d =>
    if w.store.tasksOf d.operationId = [] then
      w.finish d (some (.failed, "operation has no tasks; invalid or stale claim"))
    else w
  | .finalize d cause =>
    if w.store.isFinalizer d.operationId then
      match cause with
      | none => w.finish d (some (.completed, ""))
      | some c => w.finish d (some (.failed, c))
    else w

end World

/-! ## What a failure leaves to others -/

structure Store.OnlyFails (s t : Store) : Prop where
  now : t.now = s.now
  controlRequests : t.controlRequests = s.controlRequests
  operations : List.Forall₂ (fun o o' => o' = o ∨
    (o.state ≠ .completed ∧ o'.state = .failed ∧ o'.identity = o.identity)) s.operations t.operations
  applies : List.Forall₂ (fun a a' => a' = a ∨
    (a.state = .failedRetryable ∧ a'.id = a.id ∧ a'.options = a.options)) s.applies t.applies

structure Store.Unharmed (s t : Store) (o : ApplyOperation) : Prop where
  row : o ∈ t.operations
  tasks : t.tasksOf o.id = s.tasksOf o.id
  claim : s.claimableOperation o = true → t.claimableOperation o = true
  cutover : s.claimableCutover o = true → t.claimableCutover o = true

section
variable {s t : Store} {y : ApplyOperation}

theorem Store.OnlyFails.hasPending (h : s.OnlyFails t) (id : Nat) (operation : ControlOperation) :
    t.hasPending id operation = s.hasPending id operation := by
  unfold Store.hasPending
  rw [h.controlRequests]

theorem Store.OnlyFails.identities (h : s.OnlyFails t) :
    List.Forall₂ (fun o o' => o'.identity = o.identity) s.operations t.operations :=
  h.operations.imp fun _ _ ho => ho.elim (congrArg _) fun ho => ho.2.2

theorem Store.OnlyFails.hasSibling (h : s.OnlyFails t) (y : ApplyOperation) : t.hasSibling y = s.hasSibling y := by
  have hkeep : ∀ o o' : ApplyOperation, o'.identity = o.identity →
      (decide (o'.applyId = y.applyId) && decide (o'.id ≠ y.id)) =
        (decide (o.applyId = y.applyId) && decide (o.id ≠ y.id)) := fun o o' ho => by
    rw [ApplyOperation.applyId_eq_of_identity ho, ApplyOperation.id_eq_of_identity ho]
  rw [Bool.eq_iff_iff]
  refine ⟨Table.any_of_forall₂ h.identities.flip fun o' o ho hp => ?_,
    Table.any_of_forall₂ h.identities fun o o' ho hp => ?_⟩
  · rw [← hkeep o o' ho]
    exact hp
  · rw [hkeep o o' ho]
    exact hp

theorem Store.OnlyFails.claimableOperation (h : s.OnlyFails t) (hy : y.state ∈ claimableApplyStates)
    (hc : s.claimableOperation y = true) : t.claimableOperation y = true := by
  have hne : y.state ≠ .pending ∧ y.state ≠ .stopped ∧ y.state ≠ .failedRetryable := by
    refine ⟨?_, ?_, ?_⟩ <;> intro hst <;> rw [hst] at hy <;> revert hy <;> decide
  simp only [Store.claimableOperation, Store.claimPending, Store.claimStopped, Store.claimRetryable,
    hne, decide_false, Bool.false_and, Bool.false_or, Bool.or_false, Bool.or_eq_true] at hc ⊢
  rcases hc with hc | hc
  · left
    unfold Store.claimStale at hc ⊢
    rw [h.now, h.hasSibling]
    exact hc
  · right
    simp only [Store.claimDeferredDeploy, Store.deferredStart, h.now, h.controlRequests,
      Bool.and_eq_true] at hc ⊢
    refine ⟨⟨hc.1.1, Table.any_of_forall₂ h.applies (fun a a' ha hp => ?_) hc.1.2⟩, hc.2⟩
    rcases ha with rfl | ⟨hst, -⟩
    · exact hp
    · simp [hst] at hp

/-- An operation that can be claimed for its cutover still can: an earlier one that fails does not block
it, or blocked it before. -/
theorem Store.OnlyFails.claimableCutover (h : s.OnlyFails t) (hc : s.claimableCutover y = true) :
    t.claimableCutover y = true := by
  simp only [Store.claimableCutover, Store.cutoverEligible, Store.claimCutoverStart,
    Store.claimCutoverRecovery, h.hasSibling, h.hasPending, h.now, Bool.and_eq_true] at hc ⊢
  obtain ⟨⟨hsib, happ⟩, hc⟩ := hc
  refine ⟨⟨hsib, Table.any_of_forall₂ h.applies (fun a a' ha hp => ?_) happ⟩, ?_⟩
  · rcases ha with rfl | ⟨-, hid, hopt⟩
    · exact hp
    · rw [hid, hopt]
      exact hp
  · simp only [Bool.or_eq_true, Bool.and_eq_true] at hc ⊢
    refine hc.imp_left fun ⟨⟨hst, hnone⟩, hstop⟩ => ⟨⟨hst, ?_⟩, hstop⟩
    rw [Bool.not_eq_true', ← Bool.not_eq_true] at hnone ⊢
    refine fun hblocks => hnone (Table.any_of_forall₂ h.operations.flip (fun o' o ho hp => ?_) hblocks)
    rcases ho with rfl | ⟨hcomp, hfail, hid⟩
    · exact hp
    · have happly := ApplyOperation.applyId_eq_of_identity hid
      have hopid := ApplyOperation.id_eq_of_identity hid
      have hcreated : o'.createdAt = o.createdAt := congrArg OperationIdentity.createdAt hid
      simp only [blocksCutover, ApplyOperation.before] at hp ⊢
      simp_all

end

/-! ## Where failures come from -/

section
variable {w : World} {o o' : ApplyOperation} {d : OperationLease} {a : Action}

theorem World.mem_drives_step (ha : a.settles = false) (hc : ∀ e, a ≠ .crash e)
    (hd : d ∈ w.drives) : d ∈ (w.step a).drives := by
  have hclaimed : ∀ r, d ∈ (w.claimed r).drives := by
    intro r
    unfold claimed
    split
    · exact .tail _ hd
    · exact hd
  cases a with
  | claim | claimCutover => exact hclaimed _
  | settle => cases ha
  | crash e => exact absurd rfl (hc e)
  | _ =>
    simp only [step]
    repeat' split
    all_goals exact hd

theorem World.failed_step (hw : w.store.WF) (ha : a.settles = false)
    (ho : o ∈ w.store.operations) (ho' : o' ∈ (w.step a).store.operations) (hid : o'.id = o.id)
    (hne : o.state ≠ .failed) (hf : o'.state = .failed) :
    (a = .call .expireRetryable ∧ o.state = .failedRetryable) ∨ w.store.hasSibling o = false := by
  rcases rows_step hw a ho' with ⟨r, hr, hident, hrow⟩ | hnew
  · have heq : r = o := hw.operationIds.eq hr ho
      ((ApplyOperation.id_eq_of_identity hident).symm.trans hid)
    subst heq
    cases hrow with
    | kept _ hs => exact absurd (hs.symm.trans hf) hne
    | stopped _ _ hs => cases hs.symm.trans hf
    | expired ha _ hst => exact .inl ⟨ha, hst⟩
    | claimed _ _ hs =>
      have hclaimed : claimedState r.state = .failed := hs.symm.trans hf
      unfold claimedState at hclaimed
      split at hclaimed <;> first | cases hclaimed | exact absurd hclaimed hne
    | cutover _ _ hs =>
      have hcut : cutoverState r.state = .failed := hs.symm.trans hf
      unfold cutoverState at hcut
      split at hcut <;> first | cases hcut | exact absurd hcut hne
    | driven e he _ _ _ hend =>
      by_cases hcrash : ∃ e, a = .crash e
      · -- losing a drive changes no row
        obtain ⟨e, rfl⟩ := hcrash
        rw [hw.operationIds.eq ho' hr hid] at hf
        exact absurd hf hne
      · have hset : o'.settled = true := by simp [ApplyOperation.settled, hf]
        exact absurd rfl (hend hset e
          (mem_drives_step ha (fun e' h => hcrash ⟨e', h⟩) he))
    | reconciled h => exact .inr h
  · cases hnew.state.symm.trans hf

theorem World.failed_finish (hw : w.store.WF) {result : Option (ApplyState × String)}
    (ho : o ∈ w.store.operations) (ho' : o' ∈ (w.finish d result).store.operations)
    (hid : o'.id = o.id) (hne : o.state ≠ .failed) (hf : o'.state = .failed) :
    ∃ errorMessage, result = some (.failed, errorMessage) ∧ o.id = d.operationId := by
  have hkept : o' ∈ w.store.operations → False := fun h =>
    hne (by rw [← hw.operationIds.eq h ho hid]; exact hf)
  cases result with
  | none => exact (hkept ho').elim
  | some x =>
    obtain ⟨derived, errorMessage⟩ := x
    simp only [finish, step] at ho'
    split at ho'
    · obtain ⟨r, hr, hrow⟩ := Table.forall₂_mem_right
        (rows_persistOperationState_eq d.ctx d.operationId derived errorMessage w.store) ho'
      have heq : r = o := hw.operationIds.eq hr ho
        ((ApplyOperation.id_eq_of_identity hrow.identity).symm.trans hid)
      subst heq
      rcases hrow.state with hs | ⟨⟨hrid, -, hq⟩, -⟩
      · exact absurd (hs.symm.trans hf) hne
      · rw [← hq, hf]
        exact ⟨errorMessage, rfl, hrid⟩
    · exact (hkept ho').elim

end

/-! ## Failures that stay where they are -/

inductive World.OwnFailure (w : World) (o : ApplyOperation) : DriveAction → Prop
  | tasks {d : OperationLease} {vschemaOnly : Bool} (hid : o.id = d.operationId)
      (h : w.store.ownState o.id = .failed) : OwnFailure w o (.ownResult d vschemaOnly)
  | missingTasks {d : OperationLease} (hid : o.id = d.operationId) (h : w.store.tasksOf o.id = []) :
      OwnFailure w o (.missingTasks d)
  | finalizer {d : OperationLease} {cause : String} (hid : o.id = d.operationId)
      (h : o.operationKind = .groupFinalizer) : OwnFailure w o (.finalize d (some cause))
  | expired (h : o.state = .failedRetryable) : OwnFailure w o (.other (.call .expireRetryable))

/-- In this step an operation of a rollout fails for a reason of its own only, and where one fails that
had not ended, its siblings that copy or wait for their cutover are unharmed. -/
structure World.FailuresStayOwn (w : World) (b : DriveAction) : Prop where
  own : ∀ o ∈ w.store.operations, ∀ o' ∈ (w.drive b).store.operations, o'.id = o.id →
    w.store.hasSibling o = true → o.state ≠ .failed → o'.state = .failed → w.OwnFailure o b
  siblings : ∀ o ∈ w.store.operations, ∀ o' ∈ (w.drive b).store.operations, o'.id = o.id →
    o.state.isTerminal = false → o'.state = .failed →
    ∀ y ∈ w.store.operations, y.applyId = o.applyId → y.id ≠ o.id → y.state ∈ claimableApplyStates →
      w.store.Unharmed (w.drive b).store y

def World.spreads (w : World) : DriveAction → Bool
  | .start d => (w.store.getApply d.applyId).any (·.state = .failed)
  | .other (.call .expireRetryable) =>
    w.store.tasks.any fun k => !k.state.isTerminal && decide (k.applyId ∈ w.store.expiredIds) &&
      !decide (w.store.ExpiringTask k)
  | _ => false

section
variable {w : World} {b : DriveAction} {o o' : ApplyOperation} {y : ApplyOperation}

theorem World.next_drive (hw : w.store.WF) (b : DriveAction) : w.store.Next (w.drive b).store := by
  have hfinish : ∀ d result, w.store.Next (w.finish d result).store := by
    intro d result
    cases result with
    | none => exact next_step hw (.crash d)
    | some x => exact next_step hw (.settle d x.1 x.2)
  cases b with
  | other a =>
    simp only [drive]
    split
    · exact .refl hw
    · exact next_step hw a
  | ownResult d vschemaOnly => exact hfinish d _
  | _ =>
    simp only [drive]
    repeat' split
    all_goals first | exact hfinish _ _ | exact .refl hw

theorem World.failed_drive (hw : w.store.WF) (hb : w.spreads b = false)
    (ho : o ∈ w.store.operations) (ho' : o' ∈ (w.drive b).store.operations) (hid : o'.id = o.id)
    (hne : o.state ≠ .failed) (hf : o'.state = .failed) :
    w.store.hasSibling o = false ∨ w.OwnFailure o b ∧ (b = .other (.call .expireRetryable) ∨
      ∃ d errorMessage, o.id = d.operationId ∧ w.drive b = w.finish d (some (.failed, errorMessage))) := by
  have hkept : o' ∈ w.store.operations → False := fun h =>
    hne (by rw [← hw.operationIds.eq h ho hid]; exact hf)
  cases b with
  | other a =>
    simp only [drive] at ho'
    split at ho'
    · exact (hkept ho').elim
    · next ha =>
      rcases failed_step hw (Bool.not_eq_true _ ▸ ha) ho ho' hid hne hf with ⟨rfl, hst⟩ | hsingle
      · exact .inr ⟨.expired hst, .inl rfl⟩
      · exact .inl hsingle
  | start d =>
    simp only [drive] at ho'
    split at ho'
    · exact (hkept ho').elim
    · next parent hparent =>
      split at ho'
      · -- the copy of a parent that is terminal, and not failed
        obtain ⟨_, hres, -⟩ := failed_finish hw ho ho' hid hne hf
        simp only [Option.some.injEq, Prod.mk.injEq] at hres
        simp [spreads, hparent, hres.1] at hb
      · exact (hkept ho').elim
  | ownResult d vschemaOnly =>
    obtain ⟨msg, hres, hoid⟩ := failed_finish hw ho ho' hid hne hf
    have hdrive : w.drive (.ownResult d vschemaOnly) = w.finish d (some (.failed, msg)) := by
      rw [drive, hres]
    by_cases hsib : w.store.hasSibling o = true
    · refine .inr ⟨.tasks hoid ?_, .inr ⟨d, msg, hoid, hdrive⟩⟩
      -- with a sibling, the state is that of the tasks
      have hmulti : w.store.isSingle d.operationId = false := by
        rw [Store.isSingle, List.all_eq_false]
        exact ⟨o, ho, by simp [hoid, hsib]⟩
      simp only [Store.ownResult, hmulti, Bool.and_false, Bool.false_eq_true, false_and, and_false,
        if_false] at hres
      split at hres
      · cases hres
      · split at hres
        · cases hres
        · rw [hoid]
          exact (Prod.mk.inj (Option.some.inj hres)).1
    · exact .inl (Bool.not_eq_true _ ▸ hsib)
  | missingTasks d =>
    simp only [drive] at ho'
    split at ho'
    · next hnone =>
      obtain ⟨msg, hres, hoid⟩ := failed_finish hw ho ho' hid hne hf
      refine .inr ⟨.missingTasks hoid (hoid ▸ hnone), .inr ⟨d, msg, hoid, ?_⟩⟩
      rw [drive, if_pos hnone, hres]
    · exact (hkept ho').elim
  | finalize d cause =>
    simp only [drive] at ho'
    split at ho'
    · next hfin =>
      cases cause with
      | none =>
        obtain ⟨_, hres, -⟩ := failed_finish hw ho ho' hid hne hf
        cases hres
      | some c =>
        obtain ⟨msg, hres, hoid⟩ := failed_finish hw ho ho' hid hne hf
        obtain ⟨r, hr, hrp⟩ := List.any_eq_true.1 hfin
        simp only [Bool.and_eq_true, decide_eq_true_eq] at hrp
        have heq : r = o := hw.operationIds.eq hr ho (hrp.1.trans hoid.symm)
        refine .inr ⟨.finalizer hoid (heq ▸ hrp.2), .inr ⟨d, c, hoid, ?_⟩⟩
        simp only [drive, if_pos hfin]
    · exact (hkept ho').elim

theorem call_markFailed (ctx : Ctx) (id : Nat) (errMsg : String) (s : Store) :
    ∃ ops, (Method.call (markFailed ctx id errMsg) s).1 = { s with operations := ops } ∧
      List.Forall₂ (fun o o' => o' = o ∨ (o.id = id ∧ o'.state = .failed ∧ o'.identity = o.identity))
        s.operations ops := by
  unfold markFailed execStateUpdate writeOperation
  cases hg : operationWriteGuardFromContext ctx with
  | error e => exact ⟨s.operations, rfl, List.forall₂_same.2 fun _ _ => .inl rfl⟩
  | ok guard =>
    rw [Method.call_bind_ok (Method.call_lift _ _), call_execOperations_bind fun rows =>
      always_checkUpdatedOrExists (fun _ => rfl) rows id guard false]
    refine ⟨_, rfl, Table.forall₂_update (fun o _ hp => ?_) fun _ _ _ => .inl rfl⟩
    simp only [Bool.and_eq_true, decide_eq_true_eq] at hp
    simp only [touch]
    split
    · exact .inl rfl
    · exact .inr ⟨hp.1, rfl, rfl⟩

theorem World.unharmed_finish (hw : w.store.WF) {d : OperationLease} {errorMessage : String}
    (ho : o ∈ w.store.operations) (hoid : o.id = d.operationId)
    (hne : o.state ≠ .completed) (hy : y ∈ w.store.operations) (hyid : y.id ≠ o.id)
    (hyst : y.state ∈ claimableApplyStates) :
    w.store.Unharmed (w.finish d (some (.failed, errorMessage))).store y := by
  simp only [finish, step]
  split
  · simp only [run, persistOperationState]
    rw [Method.call_bind_pure _ fun _ => true]
    obtain ⟨ops, h, hops⟩ := call_markFailed d.ctx d.operationId errorMessage w.store
    rw [h]
    have hfails : w.store.OnlyFails { w.store with operations := ops } := by
      refine ⟨rfl, rfl, ?_, List.forall₂_same.2 fun _ _ => .inl rfl⟩
      -- the only row that fails is that of the drive
      obtain ⟨hlen, hrows⟩ := List.forall₂_iff_zip.1 hops
      refine List.forall₂_iff_zip.2 ⟨hlen, fun {r r'} hr => (hrows hr).imp_right fun h => ?_⟩
      obtain ⟨hid, hrow⟩ := h
      have heq : r = o := hw.operationIds.eq (List.of_mem_zip hr).1 ho (hid.trans hoid.symm)
      exact ⟨heq ▸ hne, hrow⟩
    obtain ⟨y', hy', hrow⟩ := Table.forall₂_mem_left hops hy
    have hkept : y' = y := hrow.resolve_right fun hid => hyid (hid.1.trans hoid.symm)
    exact ⟨hkept ▸ hy', rfl, hfails.claimableOperation hyst, hfails.claimableCutover⟩
  · exact ⟨hy, rfl, id, id⟩

theorem Store.unharmed_expireRetryable {s : Store} (hs : s.WF)
    (htasks : ∀ k ∈ s.tasks, k.state.isTerminal = false → k.applyId ∈ s.expiredIds → s.ExpiringTask k)
    (hy : y ∈ s.operations) (hyst : y.state ∈ claimableApplyStates) :
    s.Unharmed (Method.call expireRetryable s).1 y := by
  have hactive : y.state ≠ .failedRetryable := by
    intro hst
    rw [hst] at hyst
    revert hyst
    decide
  have hfails : s.OnlyFails (Method.call expireRetryable s).1 := by
    refine ⟨rfl, rfl, Table.forall₂_update (fun r _ hp => .inr ⟨?_, rfl, rfl⟩) fun _ _ _ => .inl rfl,
      Table.forall₂_update (fun a ha hp => .inr ⟨?_, rfl, rfl⟩) fun _ _ _ => .inl rfl⟩
    · simp only [Bool.and_eq_true, decide_eq_true_eq] at hp
      rw [hp.1]
      decide
    · have hexp := Store.expired_of_mem hs.applyIds ha (of_decide_eq_true hp)
      simp only [Store.expired, Bool.and_eq_true, decide_eq_true_eq] at hexp
      exact hexp.1
  refine ⟨Table.mem_update_of_neg hy (by simp [hactive]), ?_, hfails.claimableOperation hyst,
    hfails.claimableCutover⟩
  refine Table.filter_update fun k hk hp => ?_
  simp only [Bool.and_eq_true, Bool.not_eq_true', decide_eq_true_eq] at hp
  -- the task belongs to a retryable operation, which is not this one
  obtain ⟨r, hr, hexp, hkr⟩ := htasks k hk hp.1 hp.2
  have hne : r.id ≠ y.id := fun h => hactive (by rw [← hs.operationIds.eq hr hy h]; exact hexp.1)
  simp [hkr, hne]

theorem World.failuresStayOwn_step (hw : w.store.WF) (hb : w.spreads b = false) : w.FailuresStayOwn b where
  own o ho o' ho' hid hsib hne hf := by
    rcases failed_drive hw hb ho ho' hid hne hf with h | ⟨h, -⟩
    · rw [h] at hsib
      cases hsib
    · exact h
  siblings o ho o' ho' hid hopen hf y hy hyapply hyid hyst := by
    have hne : o.state ≠ .failed := fun h => by rw [h] at hopen; cases hopen
    have hcomp : o.state ≠ .completed := fun h => by rw [h] at hopen; cases hopen
    rcases failed_drive hw hb ho ho' hid hne hf with h | ⟨-, rfl | ⟨d, msg, hoid, hdrive⟩⟩
    · -- `y` is a sibling
      rw [← Bool.not_eq_true] at h
      exact absurd (List.any_eq_true.2 ⟨y, hy, by simp [hyapply, hyid]⟩) h
    · have htasks : ∀ k ∈ w.store.tasks, k.state.isTerminal = false →
          k.applyId ∈ w.store.expiredIds → w.store.ExpiringTask k := by
        simp only [spreads, List.any_eq_false] at hb
        intro k hk hopen hid
        simpa [hopen, hid] using hb k hk
      have hstore : (w.drive (.other (.call .expireRetryable))).store =
          (Method.call expireRetryable w.store).1 := by
        rfl
      exact Store.unharmed_expireRetryable hw htasks hy hyst
    · rw [hdrive]
      exact unharmed_finish hw ho hoid hcomp hy hyid hyst

end

/-- In a run in which no drive starts under a failed parent and no expiry finds open tasks of operations
that are not retryable, every failure in a rollout stays with its operation. -/
theorem failures_stay_own {bs : List DriveAction}
    (h : Transition.Along World.drive (fun w b => w.spreads b = false) {} bs) :
    Transition.Along World.drive World.FailuresStayOwn {} bs :=
  Transition.Along.of_invariant
    (fun _ b hw _ => (World.next_drive hw b).wf) (fun _ _ hw hb => World.failuresStayOwn_step hw hb)
    Store.wf_empty h

def secondEnds (st : TaskState) : List DriveAction :=
  [.other (.call (sampleRollout .barrier .continue)), .other (.claim "operator-1" fun _ => false),
    .start ⟨1, 1, 1⟩,
    .other (.call (.updateTask (OperationLease.ctx ⟨1, 1, 1⟩)
      { id := 1, applyId := 1, state := .waitingForCutover })),
    .ownResult ⟨1, 1, 1⟩ false, .other (.claim "operator-1" fun _ => false), .start ⟨1, 2, 2⟩,
    .other (.call (.updateTask (OperationLease.ctx ⟨1, 2, 2⟩) { id := 2, applyId := 1, state := st })),
    .ownResult ⟨1, 2, 2⟩ false]

/-- The second operation fails; the first stays parked, and can be claimed for its cutover. -/
theorem failures_stay_own_parked :
    let w := Transition.run World.drive {} (secondEnds .failed)
    w.store.operations.map (fun o => (o.state, w.store.claimableCutover o)) =
        [(.waitingForCutover, true), (.failed, false)] ∧
      Transition.Along World.drive World.FailuresStayOwn {} (secondEnds .failed) :=
  ⟨by decide, failures_stay_own (by decide)⟩

def secondExpired : World :=
  Transition.run World.drive {} (secondEnds .failedRetryable ++
    [.other (.call (.updateDerivedState {} 1 .pending .failedRetryable "" (some 0) none)),
      .other (.call (.tick 86401)), .other (.call .expireRetryable)])

def firstCutover : World := secondExpired.drive (.other (.claimCutover "operator-1" fun _ => false))

/-- After the expiry the first operation is still parked and can be claimed. The claim for its cutover
hands it to a drive that finds the failed apply, and fails the operation. -/
theorem failed_parent_copied_to_sibling : secondExpired.store.operations.map (fun o =>
        (o.state, o.onFailure, secondExpired.store.claimableCutover o)) =
        [(.waitingForCutover, .continue, true), (.failed, .continue, false)] ∧
      firstCutover.store.operations.map (·.state) = [.cuttingOver, .failed] ∧
      ⟨1, 1, 3⟩ ∈ firstCutover.drives ∧
      (firstCutover.drive (.start ⟨1, 1, 3⟩)).store.operations.map (·.state) = [.failed, .failed] ∧
      ¬ firstCutover.FailuresStayOwn (.start ⟨1, 1, 3⟩) := by
  refine ⟨by decide, by decide, by decide, by decide, fun h => ?_⟩
  have hrows : ∃ o ∈ firstCutover.store.operations,
      ∃ o' ∈ (firstCutover.drive (.start ⟨1, 1, 3⟩)).store.operations, o'.id = o.id ∧
        firstCutover.store.hasSibling o = true ∧ o.state ≠ .failed ∧ o'.state = .failed := by decide
  obtain ⟨o, ho, o', ho', hid, hsib, hne, hf⟩ := hrows
  -- the start of a drive is no reason of an operation's own
  cases h.own o ho o' ho' hid hsib hne hf

end SchemaBot
