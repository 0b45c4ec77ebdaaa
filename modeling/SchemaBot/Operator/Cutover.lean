import SchemaBot.Operator.Final

/-!
# Swaps in deployment order

An operation swaps its tables in the state `cutting_over`.
-/

namespace SchemaBot

open Concurrent

/-! ## The turn of an operation -/

/-- Every operation before `y`, on whatever deployment, is completed, or failed where `y` continues after
failures. -/
def Store.TurnToSwap (s : Store) (y : ApplyOperation) : Prop := s.EarlierEnded (fun _ _ => True) y

theorem Store.turnToSwap_of_gate {s : Store} {y : ApplyOperation}
    (h : s.operations.any (blocksCutover y) = false) : s.TurnToSwap y := by
  intro e he happly hbefore _
  have := List.any_eq_false.1 h e he
  simp only [blocksCutover, happly, hbefore, decide_true, Bool.true_and, Bool.and_eq_true,
    decide_eq_true_eq, Bool.not_eq_true', Bool.and_eq_false_iff, decide_eq_false_iff_not,
    not_and, not_or, not_not] at this
  by_cases hc : e.state = .completed
  · exact .inl hc
  · exact .inr (this hc)

/-! ## The invariant -/

structure World.InTurn (w : World) : Prop extends w.Final where
  swaps : ∀ y ∈ w.store.operations, y.state = .cuttingOver → w.store.TurnToSwap y

section
variable {w : World} {a : Action}

theorem World.InTurn.turn_of_rowStep (hw : w.InTurn) {y y' : ApplyOperation}
    (hy : y ∈ w.store.operations) (hrow : w.RowStep a y y') (hst : y'.state = .cuttingOver) :
    w.store.TurnToSwap y := by
  cases hrow with
  | kept _ hs => exact hw.swaps y hy (hs ▸ hst)
  | claimed _ _ hs =>
    refine hw.swaps y hy ?_
    rw [hs] at hst
    cases hy' : y.state <;> rw [hy'] at hst <;> first | rfl | cases hst
  | cutover h _ hs =>
    simp only [Store.claimableCutover, Store.claimCutoverStart, Bool.and_eq_true, Bool.or_eq_true,
      decide_eq_true_eq, Bool.not_eq_true'] at h
    rcases h.2 with hstart | hrecover
    · exact Store.turnToSwap_of_gate hstart.1.2
    -- the recovery branch takes over a swap that is under way
    · simp only [Store.claimCutoverRecovery, Bool.and_eq_true, Bool.or_eq_true,
        decide_eq_true_eq] at hrecover
      rcases hrecover.1 with hy' | hy'
      · exact hw.swaps y hy hy'
      · rw [hs, hy'] at hst; cases hst
  | stopped _ _ hs _ | expired _ _ _ _ hs => rw [hs] at hst; cases hst
  | driven _ _ _ _ hs _ | reconciled _ _ hs => rw [hst] at hs; exact absurd hs (by decide)

theorem World.InTurn.step (hw : w.InTurn) (ha : w.spares a = true) : (w.step a).InTurn := by
  refine ⟨hw.toFinal.step ha, fun y' hy' hst => ?_⟩
  rcases rows_step hw.wf a hy' with ⟨y, hy, hid, hrow⟩ | hnew
  · exact hw.earlierEnded_step hy hid (hw.turn_of_rowStep hy hrow hst)
  · rw [hnew.state] at hst; cases hst

theorem World.InTurn.eq_of_cuttingOver (hw : w.InTurn) {y z : ApplyOperation}
    (hy : y ∈ w.store.operations) (hz : z ∈ w.store.operations) (happly : y.applyId = z.applyId)
    (hys : y.state = .cuttingOver) (hzs : z.state = .cuttingOver) : y = z := by
  refine hw.wf.operationIds.eq hy hz (Classical.byContradiction fun hne => ?_)
  -- the later one has its turn, so the earlier one has ended
  rcases ApplyOperation.before_or_before hne with hb | hb
  · rcases hw.swaps z hz hzs y hy happly hb trivial with h | ⟨-, h⟩ <;> rw [hys] at h <;> cases h
  · rcases hw.swaps y hy hys z hz happly.symm hb trivial with h | ⟨-, h⟩ <;> rw [hzs] at h <;> cases h

end

/-! ## Runs -/

/-- A step lets an operation into `cutting_over` only in its turn. -/
def World.EntersInTurn (w : World) (a : Action) : Prop :=
  ∀ y ∈ w.store.operations, ∀ y' ∈ (w.step a).store.operations, y'.id = y.id →
    y.state ≠ .cuttingOver → y'.state = .cuttingOver → w.store.TurnToSwap y

theorem World.inTurn_empty : ({} : World).InTurn := ⟨final_empty, List.forall_mem_nil _⟩

theorem World.InTurn.entersInTurn {w : World} (hw : w.InTurn) (a : Action) : w.EntersInTurn a := by
  intro y hy y' hy' hid _ hst
  rcases rows_step hw.wf a hy' with ⟨r, hr, hrid, hrow⟩ | hnew
  · have : r.id = y.id := (ApplyOperation.id_eq_of_identity hrid).symm.trans hid
    rw [hw.wf.operationIds.eq hr hy this] at hrow
    exact hw.turn_of_rowStep hy hrow hst
  · rw [hnew.state] at hst; cases hst

/-- In every run whose expiries hit no operation that a drive holds, operations enter `cutting_over` in
their turn only, and no two operations of one apply are ever in `cutting_over` together. -/
theorem swaps_one_at_a_time {as : List Action}
    (h : Transition.Along World.step (fun w a => w.spares a = true) {} as) :
    Transition.Along World.step World.EntersInTurn {} as ∧
      ∀ y ∈ (Transition.run World.step {} as).store.operations,
        ∀ z ∈ (Transition.run World.step {} as).store.operations, y.applyId = z.applyId →
          y.state = .cuttingOver → z.state = .cuttingOver → y = z := by
  refine ⟨Transition.Along.of_invariant (fun _ _ hw => World.InTurn.step hw)
    (fun _ a hw _ => hw.entersInTurn a) World.inTurn_empty h, fun y hy z hz => ?_⟩
  exact (Transition.run_induction (fun _ _ hw => World.InTurn.step hw) World.inTurn_empty h).eq_of_cuttingOver
    hy hz

def sampleSwaps : List Action :=
  [.call (sampleRollout .barrier .continue),
    .claim "operator-1" fun _ => false, .settle ⟨1, 1, 1⟩ .waitingForCutover "",
    .claim "operator-2" fun _ => false, .settle ⟨1, 2, 2⟩ .waitingForCutover "",
    .claimCutover "operator-1" fun _ => false, .crash ⟨1, 1, 3⟩, .call (.tick 61),
    .claimCutover "operator-2" fun _ => false]

/-- A run in which one operation swaps and the other waits. -/
theorem swaps_one_at_a_time_reclaimed :
    (Transition.run World.step {} sampleSwaps).store.operations.map (fun o => (o.state, o.leaseToken)) =
        [(.cuttingOver, 4), (.waitingForCutover, 2)] ∧
      Transition.Along World.step World.EntersInTurn {} sampleSwaps :=
  ⟨by decide, (swaps_one_at_a_time (by decide)).1⟩

end SchemaBot
