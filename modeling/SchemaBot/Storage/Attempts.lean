import SchemaBot.Storage.OperationRows

/-!
# The retry counter of an apply

`applies.attempt` counts the redispatches of an apply and is bounded by `maxRecoveryAttempts`. Two claims raise it.
-/

namespace SchemaBot

open Concurrent

structure Apply.Charged (a a' : Apply) : Prop where
  id_eq : a'.id = a.id
  attempt_eq : a'.attempt = a.attempt ∨
    a'.attempt = a.attempt + 1 ∧ a.state = .failedRetryable ∧ a.attempt < maxRecoveryAttempts

theorem Apply.Charged.of_eq {a a' : Apply} (hid : a'.id = a.id) (h : a'.attempt = a.attempt) :
    a.Charged a' := ⟨hid, .inl h⟩

/-- The row may be charged only where `P` holds of it. -/
def Apply.ChargedIf (P : Apply → Prop) (a a' : Apply) : Prop :=
  a.Charged a' ∧ (a'.attempt ≠ a.attempt → P a)

theorem Apply.ChargedIf.of_eq {P : Apply → Prop} {a a' : Apply} (hid : a'.id = a.id)
    (h : a'.attempt = a.attempt) : a.ChargedIf P a' := ⟨.of_eq hid h, fun hne => absurd h hne⟩

theorem Apply.ChargedIf.refl {P : Apply → Prop} (a : Apply) : a.ChargedIf P a := .of_eq rfl rfl

theorem Apply.Charged.le {a a' : Apply} (h : a.Charged a') (ha : a.attempt ≤ maxRecoveryAttempts) :
    a'.attempt ≤ maxRecoveryAttempts := by
  rcases h.attempt_eq with h | ⟨h, -, hlt⟩ <;> omega

/-! ## Claims -/

section
variable {s t : Store} {a : Apply}

theorem Store.attempt_lt_of_claimable (h : s.claimableApply a = true)
    (ha : a.state = .failedRetryable) : a.attempt < maxRecoveryAttempts := by
  simp only [claimableApply, ha, claimableApplyStates, Bool.or_eq_true, Bool.and_eq_true,
    decide_eq_true_eq] at h
  rcases h with ((((h | h) | h) | h) | h) | h
  · cases h.1
  · exact absurd h.1 (by decide)
  · exact h.1.2
  · cases h.1
  · cases h.1
  · cases h.1

theorem Store.attempt_lt_of_needsStop (h : s.needsStopReconciliation a = true)
    (ha : a.state = .failedRetryable) : a.attempt < maxRecoveryAttempts := by
  simp only [needsStopReconciliation, ha, claimableApplyStates, Bool.and_eq_true, Bool.or_eq_true,
    decide_eq_true_eq] at h
  rcases h.1.1.1 with h | h
  · cases h
  · exact absurd h (by decide)

theorem Store.charged_transitionClaimToState (hs : s.WF) (ha : a ∈ s.applies)
    (hlt : a.state = .failedRetryable → a.attempt < maxRecoveryAttempts) (st : ApplyState) (owner : String) :
    List.Forall₂ (Apply.ChargedIf (· = a)) s.applies (s.transitionClaimToState a st owner).1.applies := by
  unfold transitionClaimToState
  dsimp only
  split
  · exact List.forall₂_same.2 fun x _ => .refl x
  · refine Table.forall₂_update (fun x hx hrow => ?_) fun x _ _ => .refl x
    simp only [Bool.and_eq_true, decide_eq_true_eq] at hrow
    have hxa : x = a := hs.applyIds.eq hx ha hrow.1
    subst hxa
    refine ⟨⟨rfl, ?_⟩, fun _ => rfl⟩
    by_cases hst : x.state = .failedRetryable
    · exact .inr ⟨by simp [transitionApply, hst], hst, hlt hst⟩
    · exact .inl (by simp [transitionApply, hst])

theorem Store.charged_persistApplyClaim (hs : s.WF) (ha : a ∈ s.applies)
    (hlt : a.state = .failedRetryable → a.attempt < maxRecoveryAttempts) {owner : String}
    {r : Option Apply} (h : s.persistApplyClaim a owner = .ok (t, r)) :
    List.Forall₂ (Apply.ChargedIf (· = a)) s.applies t.applies := by
  unfold persistApplyClaim at h
  split at h
  · unfold claimStoppedApplyUnderTargetLock at h
    dsimp only at h
    split at h
    · cases h
    · split at h
      · split at h
        · cases h; exact List.forall₂_same.2 fun x _ => .refl x
        · cases h
      · have hcharged := charged_transitionClaimToState hs ha hlt .resuming owner
        rwa [Except.ok.inj h] at hcharged
  · split at h
    · have hcharged := charged_transitionClaimToState hs ha hlt .running owner
      rwa [Except.ok.inj h] at hcharged
    · cases h
      exact Table.forall₂_update (fun x _ _ => .of_eq rfl rfl) fun x _ _ => .refl x

theorem Store.charged_claimApply (hs : s.WF) {wanted : Store → Apply → Bool}
    (hwanted : ∀ a, wanted s a = true → a.state = .failedRetryable → a.attempt < maxRecoveryAttempts)
    (locked : Nat → Bool) (owner message : String) : List.Forall₂ (Apply.ChargedIf (wanted s · = true)) s.applies
      (Method.call (claimApply wanted locked owner message) s).1.applies := by
  rcases call_claimApply wanted locked owner message s with he | ⟨a, ha, hw, r, hp⟩
  · rw [he]; exact List.forall₂_same.2 fun x _ => .refl x
  · exact (charged_persistApplyClaim hs ha (hwanted a hw) hp).imp fun x _ h => ⟨h.1, fun hne => h.2 hne ▸ hw⟩

theorem Store.charged_claimApplyByID (hs : s.WF) (applyId : Nat) (owner : String) (locked : Nat → Bool) :
    List.Forall₂ (Apply.ChargedIf (·.id = applyId)) s.applies
      (Method.call (claimApplyByID applyId owner locked) s).1.applies := by
  refine (charged_claimApply hs (fun a ha => ?_) locked owner _).imp fun a _ h => ⟨h.1, fun hne => ?_⟩
  · simp only [Bool.and_eq_true] at ha
    exact attempt_lt_of_claimable ha.2
  · have ha := h.2 hne
    simp only [Bool.and_eq_true, decide_eq_true_eq] at ha
    exact ha.1

section
variable (s : Store) (op : ApplyOperation) (owner : String)

theorem Store.moveClaim_applies (allowed : Store → Bool) (assign : Store → ApplyOperation → ApplyOperation) :
    (s.moveClaim op owner allowed assign).1.applies = s.applies := by
  unfold moveClaim
  dsimp only
  split <;> rfl

/-- The write of an operation claim: one unit at most, for a retryable operation of a retryable apply that
has other operations. -/
theorem Store.charged_persistOperationClaim : List.Forall₂ (Apply.ChargedIf fun a =>
        a.id = op.applyId ∧ op.state = .failedRetryable ∧ s.hasSibling op = true)
      s.applies (s.persistOperationClaim op owner).1.applies := by
  have hsame : ∀ {t : Store}, t.applies = s.applies →
      List.Forall₂ (Apply.ChargedIf fun a =>
        a.id = op.applyId ∧ op.state = .failedRetryable ∧ s.hasSibling op = true) s.applies t.applies := by
    intro t ht
    rw [ht]
    exact List.forall₂_same.2 fun x _ => .refl x
  unfold persistOperationClaim
  split
  · exact hsame (s.moveClaim_applies op owner _ _)
  · exact hsame (s.moveClaim_applies op owner _ _)
  · next hst =>
    refine Table.forall₂_update (fun x hx hrow => ?_) fun x _ _ => .refl x
    simp only [Bool.and_eq_true, decide_eq_true_eq] at hrow
    obtain ⟨⟨⟨hid, hretry⟩, hlt⟩, hsib⟩ := hrow
    refine ⟨⟨rfl, .inr ⟨rfl, hretry, hlt⟩⟩, fun _ => ⟨hid, hst, ?_⟩⟩
    -- the rows that the update of the counter sees are those before the claim, up to their leases
    obtain ⟨o, ho, hsib⟩ := List.any_eq_true.1 hsib
    simp only [Bool.and_eq_true, decide_eq_true_eq] at hsib
    obtain ⟨o', ho', rfl⟩ := Table.mem_update.1 ho
    obtain ⟨o'', ho'', rfl⟩ := Table.mem_update.1 ho'
    refine List.any_eq_true.2 ⟨o'', ho'', ?_⟩
    simp only [Bool.and_eq_true, decide_eq_true_eq]
    split at hsib <;> split at hsib <;> exact ⟨hsib.1.trans hid, hsib.2⟩
  · exact hsame rfl

theorem Store.persistCutoverClaim_applies : (s.persistCutoverClaim op owner).1.applies = s.applies := by
  unfold persistCutoverClaim
  split
  · exact s.moveClaim_applies op owner _ _
  · rfl

end

end

/-! ## Calls -/

theorem Store.keepsCounters_after (s : Store) {c : Call} (hc : c.claims = false) (hb : c.keepsBudget = true) :
    s.KeepsCounters (s.after c) :=
  (Method.Ensures.call Store.KeepsCounters.refl (fun _ _ _ => Store.KeepsCounters.trans)
    (Prog.Ensures.imp (fun _ _ h => h.counters hc hb) c.effect) trivial).1

theorem Call.charged {s : Store} (hs : s.WF) (c : Call) (hb : c.keepsBudget = true) :
    Table.Grows (Apply.ChargedIf fun _ => c.claims = true) (·.attempt = 0) s.applies
      (s.after c).applies := by
  by_cases hc : c.claims = true
  · have hrows : ∀ {P : Apply → Prop} {rows : List Apply},
        List.Forall₂ (Apply.ChargedIf P) s.applies rows →
        Table.Grows (Apply.ChargedIf fun _ => c.claims = true) (·.attempt = 0) s.applies rows := fun h =>
      .of_forall₂ (h.imp fun _ _ h => ⟨h.1, fun _ => hc⟩)
    unfold Store.after
    cases c with
    | findNextApply owner locked =>
      rw [method, Method.call_discard]
      exact hrows (Store.charged_claimApply hs (fun _ => Store.attempt_lt_of_claimable) _ _ _)
    | claimApplyByID applyId owner locked =>
      rw [method, Method.call_discard]
      exact hrows (Store.charged_claimApplyByID hs applyId owner locked)
    | findNextApplyForStopReconciliation owner locked =>
      rw [method, Method.call_discard]
      exact hrows (Store.charged_claimApply hs (fun _ => Store.attempt_lt_of_needsStop) _ _ _)
    | findNextApplyOperation owner locked =>
      rw [method, Method.call_discard, SchemaBot.findNextApplyOperation]
      rcases call_claimOperation _ _ locked owner _ s with ⟨he, -⟩ | ⟨op, -, -, he⟩
      · rw [he]
        exact .refl Apply.ChargedIf.refl
      · rw [he]
        exact hrows (s.charged_persistOperationClaim op owner)
    | findNextApplyOperationCutover owner locked =>
      rw [method, Method.call_discard, SchemaBot.findNextApplyOperationCutover]
      rcases call_claimOperation _ _ locked owner _ s with ⟨he, -⟩ | ⟨op, -, -, he⟩
      · rw [he]
        exact .refl Apply.ChargedIf.refl
      · rw [he, s.persistCutoverClaim_applies op owner]
        exact .refl Apply.ChargedIf.refl
    | _ => cases hc
  · obtain ⟨u, v, ht, hu, hv⟩ := s.keepsCounters_after (by simpa using hc) hb
    exact ⟨u, v, ht, hu.imp fun _ _ h => .of_eq h.1 h.2, hv⟩

end SchemaBot
