import SchemaBot.Storage.Safety

/-!
# Claims and stop requests

A stop request arrives while claims are under way.
-/

namespace SchemaBot

open Concurrent

/-! ## The writes of the claims, row by row -/

section
variable {s : Store} {op : ApplyOperation} {owner : String}

theorem Store.moveClaim_operations (allowed : Store → Bool) (assign : Store → ApplyOperation → ApplyOperation) :
    (s.moveClaim op owner allowed assign).1.operations =
      Table.update (fun r => decide (r.id = op.id) && decide (r.state = op.state) && allowed s)
        (fun r => assign s (leaseOperation owner s r)) s.operations := by
  unfold moveClaim
  dsimp only
  split
  · next h => exact (Table.update_eq_self_of_affected h).symm
  · rfl

theorem Store.releaseClaim_states :
    (s.releaseClaim op owner).1.operations.map (·.state) = s.operations.map (·.state) :=
  Table.map_update _ fun _ => rfl

theorem Store.consumeRetry_states : (s.consumeRetry op).operations.map (·.state) = s.operations.map (·.state) :=
  Table.map_update _ fun _ => rfl

theorem Store.persistApplyClaim_operations {a : Apply} {t : Store} {r : Option Apply}
    (h : s.persistApplyClaim a owner = .ok (t, r)) : t.operations = s.operations := by
  rcases persistApplyClaim_ok h with ⟨_, rfl⟩ | ⟨_, _, rfl⟩ <;> rfl

end

/-! ## The gate -/

def StopGated (s : Store) (o o' : ApplyOperation) : Prop :=
  (o.state = .pending ∧ o'.state = .running) ∨
      (o.state = .waitingForCutover ∧ o'.state = .cuttingOver) →
    s.hasPending o.applyId .stop = false

section
variable {s : Store} {op : ApplyOperation} {owner : String}

theorem StopGated.of_state_eq {o o' : ApplyOperation} (h : o'.state = o.state) : StopGated s o o' := by
  rintro (⟨h₁, h₂⟩ | ⟨h₁, h₂⟩) <;> rw [h, h₁] at h₂ <;> cases h₂

theorem stopGated_of_states {l l' : List ApplyOperation}
    (h : l'.map (·.state) = l.map (·.state)) : List.Forall₂ (StopGated s) l l' := by
  have := List.forall₂_eq_eq_eq.symm ▸ h
  rw [List.forall₂_map_left_iff, List.forall₂_map_right_iff] at this
  exact (this.imp fun _ _ => StopGated.of_state_eq).flip

theorem stopGated_moveClaim {allowed : Store → Bool} {assign : Store → ApplyOperation → ApplyOperation}
    (hid : ∀ o ∈ s.operations, o.id = op.id → o.applyId = op.applyId)
    (h : ∀ o, ((assign s o).state ≠ .running ∧ (assign s o).state ≠ .cuttingOver) ∨
      (allowed s = true → s.hasPending op.applyId .stop = false)) :
    List.Forall₂ (StopGated s) s.operations (s.moveClaim op owner allowed assign).1.operations := by
  rw [Store.moveClaim_operations]
  refine Table.forall₂_update (fun o ho hp => ?_) fun o _ _ => .of_state_eq rfl
  simp only [Bool.and_eq_true, decide_eq_true_eq] at hp
  rintro hmove
  rcases h (leaseOperation owner s o) with ⟨hr, hc⟩ | hgate
  · rcases hmove with ⟨-, hm⟩ | ⟨-, hm⟩
    · exact absurd hm hr
    · exact absurd hm hc
  · rw [hid o ho hp.1.1]
    exact hgate hp.2

theorem stopGated_persistOperationClaim (hid : ∀ o ∈ s.operations, o.id = op.id → o.applyId = op.applyId) :
    List.Forall₂ (StopGated s) s.operations (s.persistOperationClaim op owner).1.operations := by
  unfold Store.persistOperationClaim
  split
  · exact stopGated_moveClaim hid fun _ => .inr (by simp)
  · exact stopGated_moveClaim hid fun _ => .inl (by simp)
  · exact stopGated_of_states (Store.consumeRetry_states.trans Store.releaseClaim_states)
  · exact stopGated_of_states Store.releaseClaim_states

theorem stopGated_persistCutoverClaim (hid : ∀ o ∈ s.operations, o.id = op.id → o.applyId = op.applyId) :
    List.Forall₂ (StopGated s) s.operations (s.persistCutoverClaim op owner).1.operations := by
  unfold Store.persistCutoverClaim
  split
  · exact stopGated_moveClaim hid fun _ => .inr (by simp)
  · exact stopGated_of_states Store.releaseClaim_states

end

/-! ## Runs of the claims -/

section
variable {s s' : Store} {tr : List (Store × Store)} {owner message : String} {locked : Nat → Bool}
  {persist : Store → ApplyOperation → String → Store × Option ApplyOperation}
  {r : Except StoreError (Option ApplyOperation)} {wanted : Store → ApplyOperation → Bool}

theorem runs_claimOperation

    (hs : s.WF)
    (h : Prog.Runs Store.Other (claimOperation wanted persist locked owner message).run s tr r s') :
    ∀ m ∈ tr, m.2 = m.1 ∨ ∃ (t : Store) (op : ApplyOperation), t.WF ∧ op ∈ t.operations ∧ t.Next m.1 ∧
      m.2 = (persist m.1 op owner).1 := by
  unfold claimOperation at h
  split at h
  · rw [(Prog.runs_ret h).1]; exact nofun
  · obtain ⟨t, tr', hst, rfl, hrest⟩ := Method.runs_read_bind h
    have ht := (Store.next_of_other hs hst).wf
    split at hrest
    · rw [(Method.runs_pure hrest).1]
      exact fun m hm => .inl (by rw [List.mem_singleton.1 hm])
    · next op hsel =>
      obtain ⟨u, htu, rfl, -⟩ := Method.runs_write hrest
      intro m hm
      rcases List.mem_cons.1 hm with rfl | hm
      · exact .inl rfl
      · rw [List.mem_singleton.1 hm]
        exact .inr ⟨t, op, ht, Table.firstBy_mem hsel, Store.next_of_other ht htu, rfl⟩

theorem runs_claimOperation_gated


    (hp : ∀ (s : Store) op, (∀ o ∈ s.operations, o.id = op.id → o.applyId = op.applyId) →
      List.Forall₂ (StopGated s) s.operations (persist s op owner).1.operations) (hs : s.WF)
    (h : Prog.Runs Store.Other (claimOperation wanted persist locked owner message).run s tr r s') :
    ∀ m ∈ tr, List.Forall₂ (StopGated m.1) m.1.operations m.2.operations := by
  intro m hm
  rcases runs_claimOperation hs h m hm with he | ⟨t, op, ht, hop, hn, he⟩
  · rw [he]; exact stopGated_of_states rfl
  · rw [he]
    exact hp m.1 op fun o ho hid =>
      ApplyOperation.applyId_eq_of_identity (hn.evolves.operation_identity ht hop ho hid).1

theorem keepsOperations_claimApply (wanted : Store → Apply → Bool) :
    Method.Only (fun s t => t.operations = s.operations)
      (claimApply wanted locked owner message) := by
  have hrefl : ∀ s : Store, s.operations = s.operations := fun _ => rfl
  exact always_claimApply hrefl fun _ => .transaction hrefl fun _ _ _ _ h =>
    ⟨Store.persistApplyClaim_operations h, trivial⟩

theorem sparesClaimed_markPendingStoppedByApply (ctx : Ctx) (applyId : Nat) : Method.Only
      (fun s t => List.Forall₂ (fun o o' => o.state ≠ .pending → o' = o) s.operations t.operations)
      (markPendingStoppedByApply ctx applyId) := by
  refine always_markPendingStoppedByApply (fun s => List.forall₂_same.2 fun _ _ _ => rfl)
    fun authorized => .step fun s => ?_
  refine Table.forall₂_update (fun o _ hp hne => absurd ?_ hne) fun _ _ _ _ => rfl
  simp only [pendingStopRow, Bool.and_eq_true, decide_eq_true_eq] at hp
  exact hp.1.2

def Call.isClaim : Call → Bool
  | .findNextApply .. | .claimApplyByID .. | .findNextApplyForStopReconciliation ..
  | .findNextApplyOperation .. | .findNextApplyOperationCutover .. => true
  | _ => false

def Call.isBulkStop : Call → Bool
  | .markPendingStoppedByApply .. => true
  | _ => false

theorem runs_claim_gated {c : Call} (hc : c.isClaim = true) (hs : s.WF) {r : Except StoreError Unit}
    (h : Prog.Runs Store.Other c.method.run s tr r s') :
    ∀ m ∈ tr, List.Forall₂ (StopGated m.1) m.1.operations m.2.operations := by
  cases c with
  | findNextApply | claimApplyByID | findNextApplyForStopReconciliation =>
    intro m hm
    obtain ⟨a, t, h⟩ := Method.runs_discard h
    have := (Method.Ensures.runs (fun _ _ _ _ => trivial) h (keepsOperations_claimApply _) trivial).1 m hm
    rw [this]
    exact stopGated_of_states rfl
  | findNextApplyOperation =>
    obtain ⟨a, t, h⟩ := Method.runs_discard h
    exact runs_claimOperation_gated (fun _ _ => stopGated_persistOperationClaim) hs h
  | findNextApplyOperationCutover =>
    obtain ⟨a, t, h⟩ := Method.runs_discard h
    exact runs_claimOperation_gated (fun _ _ => stopGated_persistCutoverClaim) hs h
  | _ => cases hc

end

/-- In every interleaving of the store's methods, from the empty store on, no claim starts a pending
operation or releases a parked one while a stop is pending for its apply, and the bulk stop changes no
operation that is not pending. -/
theorem claims_respect_pending_stop (c : Call) {s' : Store} {tr : List (Store × Store)}
    {r : Except StoreError Unit} (h : Prog.Runs Store.Other c.method.run {} tr r s')
    (m : Store × Store) (hm : m ∈ tr) :
    (c.isClaim = true → List.Forall₂ (StopGated m.1) m.1.operations m.2.operations) ∧ (c.isBulkStop = true →
      List.Forall₂ (fun o o' => o.state ≠ .pending → o' = o) m.1.operations m.2.operations) := by
  refine ⟨fun hc => runs_claim_gated hc Store.wf_empty h m hm, fun hc => ?_⟩
  cases c with
  | markPendingStoppedByApply ctx applyId =>
    obtain ⟨a, t, h⟩ := Method.runs_discard h
    exact (Method.Ensures.runs (fun _ _ _ _ => trivial) h
      (sparesClaimed_markPendingStoppedByApply ctx applyId) trivial).1 m hm
  | _ => cases hc

/-- The claim of the only operation of a new apply, taken after another process created it. -/
theorem claims_respect_pending_stop_new_apply :
    ∃ s t : Store, s.operations.map (·.state) = [.pending] ∧ t.operations.map (·.state) = [.running] ∧
      List.Forall₂ (StopGated s) s.operations t.operations :=
  let s := (Method.call (createWithGroupedOperations sampleApply [sampleGroup]) {}).1
  let c := Call.findNextApplyOperation "operator-1" fun _ => false
  ⟨s, (Method.call c.method s).1, by decide, by decide,
    (claims_respect_pending_stop c
      (.other ⟨.createWithGroupedOperations sampleApply [sampleGroup], .here⟩
        (.own (.own .ret))) (s, (Method.call c.method s).1) (.tail _ (.head _))).1 rfl⟩

end SchemaBot
