import SchemaBot.Operator.Final

/-!
# Claims and the holders of leases

A claim of an operation should leave alone what a live drive holds.
-/

namespace SchemaBot

open Concurrent

namespace World

def alive (w : World) (o : ApplyOperation) : Bool := w.held o && !stale w.store.now o.updatedAt

def claimsFreed (w : World) : Action → Bool
  | .claim owner locked =>
    match (Method.call (findNextApplyOperation owner locked) w.store).2 with
    | .ok (some c) => w.store.operations.all fun o =>
        o.id ≠ c.id || !w.alive o || w.store.claimDeferredDeploy o
    | _ => true
  | _ => true

def resumableFreed (w : World) : Action → Bool
  | .claim .. => w.store.operations.all fun o =>
      !((o.state = .failedRetryable || o.state = .stopped) && w.store.claimableOperation o && w.alive o)
  | _ => true

end World

section
variable {w : World} {o : ApplyOperation}

theorem World.Sound.not_held_of_pending (hw : w.Sound) (ho : o ∈ w.store.operations)
    (hp : o.state = .pending) : w.held o = false := by
  rw [held, List.any_eq_false]
  intro d hd htok
  have hzero := hw.pending o ho hp
  have hpos := hw.drives_pos d hd
  rw [decide_eq_true_eq] at htok
  omega

/-- What a copy claim can find: an operation without a live drive, a deferred deploy, or an operation in
a state that is resumed without a look at its heartbeat. -/
theorem World.Sound.claimable_cases (hw : w.Sound) (ho : o ∈ w.store.operations)
    (h : w.store.claimableOperation o = true) : w.alive o = false ∨ w.store.claimDeferredDeploy o = true ∨
      o.state = .failedRetryable ∨ o.state = .stopped := by
  simp only [Store.claimableOperation, Bool.or_eq_true] at h
  rcases h with (((h | h) | h) | h) | h
  · simp only [Store.claimPending, Bool.and_eq_true, decide_eq_true_eq] at h
    refine .inl ?_
    rw [alive, hw.not_held_of_pending ho h.1.1, Bool.false_and]
  · simp only [Store.claimStale, Bool.and_eq_true] at h
    refine .inl ?_
    rw [alive, h.1.2, Bool.not_true, Bool.and_false]
  · simp only [Store.claimStopped, Bool.and_eq_true, decide_eq_true_eq] at h
    exact .inr (.inr (.inr h.1))
  · exact .inr (.inl h)
  · simp only [Store.claimRetryable, Bool.and_eq_true, decide_eq_true_eq] at h
    exact .inr (.inr (.inl h.1))

theorem World.Sound.claimsFreed (hw : w.Sound) {a : Action} (ha : w.resumableFreed a = true) :
    w.claimsFreed a = true := by
  cases a with
  | claim owner locked =>
    simp only [World.claimsFreed]
    split
    · next c hc =>
      rw [List.all_eq_true]
      intro o ho
      simp only [Bool.or_eq_true, decide_eq_true_eq, Bool.not_eq_true']
      obtain ⟨op, hop, hclaim, hlease, -⟩ := result_claimOperation hw.wf
        (fun op => w.store.claims_persistOperationClaim) hc
      by_cases hid : o.id = c.id
      · have hc' : c.id = op.id := congrArg OperationLease.operationId hlease
        have : o = op := hw.wf.operationIds.eq ho hop (hid.trans hc')
        subst this
        have hfree := List.all_eq_true.1 ha o ho
        rcases hw.claimable_cases ho hclaim with h | h | h
        · exact .inl (.inr h)
        · exact .inr h
        · refine .inl (.inr ?_)
          rcases h with h | h <;> simpa [h, hclaim] using hfree
      · exact .inl (.inl hid)
    · rfl
  | _ => rfl

end

def retryableRollout : List Action :=
  [.call (sampleRollout .rolling .halt), .claim "operator-1" fun _ => false,
    .settle ⟨1, 1, 1⟩ .failedRetryable ""]

def retryableProjection : Projection :=
  { ctx := OperationLease.ctx ⟨1, 1, 1⟩, apply := { sampleApply with id := 1, options := some {} }
    reopen := true }

def reclaimedRollout : List Action :=
  retryableRollout ++
    [.loadParent retryableProjection.ctx 1 true, .listOperations retryableProjection,
      .project { retryableProjection with
        rows := some ((Transition.run World.step {} retryableRollout).store.listByApply 1) },
      .claim "operator-2" fun _ => false]

end SchemaBot
