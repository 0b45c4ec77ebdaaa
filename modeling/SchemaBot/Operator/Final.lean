import SchemaBot.Operator.World

/-!
# Ended operations stay ended

Two invariants of the system of operators. `World.Sound` holds in every run.
-/

namespace SchemaBot

open Concurrent

namespace World

def held (w : World) (o : ApplyOperation) : Bool := w.drives.any (·.token = o.leaseToken)

theorem not_held {w : World} {o : ApplyOperation} (h : w.held o = false) {d : OperationLease}
    (hd : d ∈ w.drives) : o.leaseToken ≠ d.token := by
  intro he
  exact absurd he.symm (by simpa using List.any_eq_false.1 h d hd)

def spares (w : World) : Action → Bool
  | .call .expireRetryable =>
    w.store.operations.all fun o =>
      !(o.state = .failedRetryable && o.applyId ∈ w.store.expiredIds && w.held o)
  | _ => true

structure Sound (w : World) : Prop where
  wf : w.store.WF
  drives_pos : ∀ d ∈ w.drives, 0 < d.token
  drives_lt : ∀ d ∈ w.drives, d.token < w.store.nextToken
  pending : ∀ o ∈ w.store.operations, o.state = .pending → o.leaseToken = 0

structure Final (w : World) : Prop extends w.Sound where
  settled : ∀ o ∈ w.store.operations, o.settled = true → w.store.hasSibling o = true →
    w.held o = false

end World

/-! ## Steps -/

section
variable {s : Store} {o : ApplyOperation} {st : ApplyState}

theorem claimedState_ne_pending (st : ApplyState) : claimedState st ≠ .pending := by
  cases st <;> decide

theorem cutoverState_ne_pending
    (h : st ∈ [.waitingForCutover, .cuttingOver, .revertWindow]) : cutoverState st ≠ .pending := by
  revert h; cases st <;> decide

theorem driveStates_ne_pending (h : st ∈ driveStates) : st ≠ .pending := by
  rintro rfl
  exact absurd h (by decide)

theorem Store.state_of_claimableOperation (h : s.claimableOperation o = true) :
    o.state ∈ .pending :: .stopped :: .failedRetryable :: claimableApplyStates := by
  simp only [claimableOperation, claimPending, claimStale, claimStopped, claimDeferredDeploy,
    claimRetryable, Bool.or_eq_true, Bool.and_eq_true, decide_eq_true_eq] at h
  rcases h with (((h | h) | h) | h) | h
  · rw [h.1.1]; exact .head _
  · exact .tail _ (.tail _ (.tail _ h.1.1))
  · rw [h.1]; exact .tail _ (.head _)
  · exact .tail _ (.tail _ (.tail _ h.1.1))
  · rw [h.1]; exact .tail _ (.tail _ (.head _))

theorem Store.state_of_claimableCutover (h : s.claimableCutover o = true) :
    o.state ∈ [.waitingForCutover, .cuttingOver, .revertWindow] := by
  simp only [claimableCutover, claimCutoverStart, claimCutoverRecovery, Bool.and_eq_true,
    Bool.or_eq_true, decide_eq_true_eq] at h
  rcases h.2 with h | h
  · rw [h.1.1]; exact .head _
  · rcases h.1 with h | h <;> rw [h]
    · exact .tail _ (.head _)
    · exact .tail _ (.tail _ (.head _))

theorem ApplyOperation.settled_iff : o.settled = true ↔ o.state = .completed ∨ o.state = .failed := by
  simp [settled]

theorem Store.not_settled_of_claimableOperation (h : s.claimableOperation o = true) :
    o.settled = false ∧ ∀ o' : ApplyOperation, o'.state = claimedState o.state → o'.settled = false := by
  have hst := state_of_claimableOperation h
  unfold ApplyOperation.settled
  generalize o.state = st at hst
  refine ⟨?_, fun o' ho' => ?_⟩
  · revert hst; cases st <;> decide
  · rw [ho']; revert hst; cases st <;> decide

theorem Store.not_settled_of_claimableCutover (h : s.claimableCutover o = true) :
    o.settled = false ∧ ∀ o' : ApplyOperation, o'.state = cutoverState o.state → o'.settled = false := by
  have hst := state_of_claimableCutover h
  unfold ApplyOperation.settled
  generalize o.state = st at hst
  refine ⟨?_, fun o' ho' => ?_⟩
  · revert hst; cases st <;> decide
  · rw [ho']; revert hst; cases st <;> decide

end

/-! ## Earlier operations -/

/-- The operations before `y`, on the deployments that `Q` relates to the one of `y`, are completed, or
failed where `y` continues after failures. -/
def Store.EarlierEnded (s : Store) (Q : String → String → Prop) (y : ApplyOperation) : Prop :=
  ∀ e ∈ s.operations, e.applyId = y.applyId → e.before y = true → Q e.deployment y.deployment →
    e.state = .completed ∨ (y.onFailure = .continue ∧ e.state = .failed)

section
variable {s : Store} {y y' e e' : ApplyOperation}

theorem ApplyOperation.before_congr (he : e'.identity = e.identity) (hy : y'.identity = y.identity) :
    e'.before y' = e.before y := by
  have h₁ : e'.createdAt = e.createdAt := congrArg OperationIdentity.createdAt he
  have h₂ : y'.createdAt = y.createdAt := congrArg OperationIdentity.createdAt hy
  rw [before, before, h₁, h₂, id_eq_of_identity he, id_eq_of_identity hy]

theorem ApplyOperation.deployment_eq_of_identity (h : e'.identity = e.identity) : e'.deployment = e.deployment :=
  congrArg OperationIdentity.deployment h

theorem Store.hasSibling_iff : s.hasSibling y = true ↔ ∃ e ∈ s.operations, e.applyId = y.applyId ∧ e.id ≠ y.id := by
  simp only [hasSibling, List.any_eq_true, Bool.and_eq_true, decide_eq_true_eq]

theorem Store.WF.ne_of_before (hs : s.WF) (he : e ∈ s.operations) (hy : y ∈ s.operations)
    (h : e.before y = true) : e.id ≠ y.id := by
  intro hid
  rw [hs.operationIds.eq he hy hid] at h
  simp only [ApplyOperation.before, Bool.or_eq_true, Bool.and_eq_true, decide_eq_true_eq] at h
  omega

end

section
variable {w : World} {a : Action}

theorem World.Sound.step (hw : w.Sound) (a : Action) : (w.step a).Sound := by
  have hnext := next_step hw.wf a
  refine ⟨hnext.wf, fun d hd => ?_, fun d hd => ?_, fun o' ho' hp => ?_⟩
  · rcases drives_step hw.wf a hd with hd | ⟨ht, -⟩
    · exact hw.drives_pos d hd
    · rw [ht]; exact hw.wf.nextToken_pos
  · rcases drives_step hw.wf a hd with hd | ⟨ht, hlt⟩
    · exact Nat.lt_of_lt_of_le (hw.drives_lt d hd) hnext.evolves.nextToken_le
    · rw [ht]; exact hlt
  · rcases rows_step hw.wf a ho' with ⟨o, ho, -, hrow⟩ | hnew
    · cases hrow with
      | kept ht hs => rw [ht]; exact hw.pending o ho (hs ▸ hp)
      | stopped _ _ hs _ | expired _ _ _ _ hs => rw [hs] at hp; cases hp
      | claimed _ _ hs => exact absurd (hs ▸ hp) (claimedState_ne_pending _)
      | cutover h _ hs =>
        exact absurd (hs ▸ hp) (cutoverState_ne_pending (Store.state_of_claimableCutover h))
      | driven _ _ _ _ hs | reconciled _ _ hs => exact absurd hp (driveStates_ne_pending hs)
    · exact hnew.leaseToken

theorem World.Sound.hasSibling_of_step (hw : w.Sound) {o o' : ApplyOperation}
    (ho : o ∈ w.store.operations) (hid : o'.identity = o.identity)
    (h : (w.step a).store.hasSibling o' = true) : w.store.hasSibling o = true := by
  rw [Store.hasSibling_iff] at h ⊢
  obtain ⟨r', hr', happly, hne⟩ := h
  rw [ApplyOperation.applyId_eq_of_identity hid] at happly
  rw [ApplyOperation.id_eq_of_identity hid] at hne
  rcases rows_step hw.wf a hr' with ⟨r, hr, hrid, -⟩ | hnew
  · exact ⟨r, hr, (ApplyOperation.applyId_eq_of_identity hrid) ▸ happly,
      (ApplyOperation.id_eq_of_identity hrid) ▸ hne⟩
  -- a new row belongs to a new apply
  · have hlt : o.applyId < w.store.nextApply := hw.wf.parents_lt o ho
    have := hnew.applyId
    omega

theorem World.Final.rowStep_settled (hw : w.Final) {o o' : ApplyOperation}
    (ho : o ∈ w.store.operations) (hset : o.settled = true) (hsib : w.store.hasSibling o = true)
    (h : w.RowStep a o o') : o'.leaseToken = o.leaseToken ∧ o'.state = o.state := by
  have hst := ApplyOperation.settled_iff.1 hset
  cases h with
  | kept ht hs => exact ⟨ht, hs⟩
  | stopped _ hp _ _ | expired _ _ hp _ _ => rw [hp] at hst; simp at hst
  | claimed h _ _ => rw [(Store.not_settled_of_claimableOperation h).1] at hset; cases hset
  | cutover h _ _ => rw [(Store.not_settled_of_claimableCutover h).1] at hset; cases hset
  | driven d hd ht _ _ _ => exact absurd ht (not_held (hw.settled o ho hset hsib) hd)
  | reconciled h _ _ => rw [hsib] at h; cases h

theorem World.Final.earlierEnded_step (hw : w.Final) {Q : String → String → Prop}
    {y y' : ApplyOperation} (hy : y ∈ w.store.operations) (hid : y'.identity = y.identity)
    (h : w.store.EarlierEnded Q y) : (w.step a).store.EarlierEnded Q y' := by
  intro e' he' happly hbefore hQ
  have hpolicy : y'.onFailure = y.onFailure := congrArg OperationIdentity.onFailure hid
  rw [ApplyOperation.applyId_eq_of_identity hid] at happly
  rw [ApplyOperation.deployment_eq_of_identity hid] at hQ
  rcases rows_step hw.wf a he' with ⟨e, he, heid, hrow⟩ | hnew
  · rw [ApplyOperation.applyId_eq_of_identity heid] at happly
    rw [ApplyOperation.before_congr heid hid] at hbefore
    rw [ApplyOperation.deployment_eq_of_identity heid] at hQ
    have hended := h e he happly hbefore hQ
    have hset : e.settled = true := ApplyOperation.settled_iff.2 (hended.imp_right (·.2))
    have hsib := Store.hasSibling_iff.2 ⟨y, hy, happly.symm, (hw.wf.ne_of_before he hy hbefore).symm⟩
    rw [(hw.rowStep_settled he hset hsib hrow).2, hpolicy]
    exact hended
  -- a new operation belongs to a new apply
  · have hlt : y.applyId < w.store.nextApply := hw.wf.parents_lt y hy
    have := hnew.applyId
    omega

theorem World.not_held_of_spares (ha : w.spares (.call .expireRetryable) = true) {o : ApplyOperation}
    (ho : o ∈ w.store.operations) (hst : o.state = .failedRetryable)
    (hid : o.applyId ∈ w.store.expiredIds) : w.held o = false := by
  have := List.all_eq_true.1 ha o ho
  simpa [hst, hid] using this

theorem World.Final.step (hw : w.Final) (ha : w.spares a = true) : (w.step a).Final := by
  refine ⟨hw.toSound.step a, fun o' ho' hset hsib => ?_⟩
  rw [held, List.any_eq_false]
  intro d hd
  rw [decide_eq_true_eq]
  intro htok
  rcases rows_step hw.wf a ho' with ⟨o, ho, hid, hrow⟩ | hnew
  · have hsib' := hw.hasSibling_of_step ho hid hsib
    -- the lease of a row that was not claimed is older than that of a new drive
    have hold : o'.leaseToken = o.leaseToken → d ∈ w.drives := by
      intro ht
      rcases drives_step hw.wf a hd with hd | ⟨hnext, -⟩
      · exact hd
      · have : o.leaseToken < w.store.nextToken := hw.wf.operationTokens_lt o ho
        omega
    have hfree : w.held o = false → o'.leaseToken = o.leaseToken → False := fun hf ht =>
      not_held hf (hold ht) (ht ▸ htok.symm)
    cases hrow with
    | kept ht hs =>
      rw [ApplyOperation.settled_congr hs] at hset
      exact hfree (hw.settled o ho hset hsib') ht
    | stopped _ _ hs _ => rw [ApplyOperation.settled, hs] at hset; cases hset
    | expired ha' ht hst hexp _ =>
      subst ha'
      exact hfree (not_held_of_spares ha ho hst hexp) ht
    | claimed h _ hs => rw [(Store.not_settled_of_claimableOperation h).2 o' hs] at hset; cases hset
    | cutover h _ hs => rw [(Store.not_settled_of_claimableCutover h).2 o' hs] at hset; cases hset
    | driven e _ ho ht _ hend => exact hend hset d hd (htok.trans (ht.trans ho))
    | reconciled h _ _ => rw [hsib'] at h; cases h
  · rw [ApplyOperation.settled, hnew.state] at hset
    cases hset

end

/-! ## Runs -/

theorem World.sound_empty : ({} : World).Sound :=
  ⟨Store.wf_empty, List.forall_mem_nil _, List.forall_mem_nil _, List.forall_mem_nil _⟩

theorem World.final_empty : ({} : World).Final := ⟨sound_empty, List.forall_mem_nil _⟩

theorem World.sound_run (as : List Action) : (Transition.run World.step {} as).Sound :=
  Transition.run_invariant (fun _ a hw => hw.step a) sound_empty

theorem World.final_run {as : List Action} (h : Transition.Along World.step (fun w a => w.spares a = true) {} as) :
    (Transition.run World.step {} as).Final :=
  Transition.run_induction (fun _ _ hw => hw.step) final_empty h

end SchemaBot
