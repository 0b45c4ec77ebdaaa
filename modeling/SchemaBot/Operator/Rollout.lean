import SchemaBot.Operator.Final
import SchemaBot.Storage.Overlap

/-!
# Projections that end a rollout

A projection derives the state of an apply from operations it listed a moment ago, and drives go on in the
meantime.
-/

namespace SchemaBot

open Concurrent

/-! ## The applies after a projection -/

/-- The state of the apply `k` may have been set to `st`. -/
def Store.AppliesSet (k : Nat) (st : ApplyState) (s t : Store) : Prop :=
  ∀ x' ∈ t.applies, ∃ x ∈ s.applies, x'.id = x.id ∧ (x'.state = x.state ∨ x.id = k ∧ x'.state = st)

section
variable {k : Nat} {st : ApplyState} {s t u : Store}

theorem Store.AppliesSet.refl (s : Store) : s.AppliesSet k st s := fun x hx => ⟨x, hx, rfl, .inl rfl⟩

theorem Store.AppliesSet.trans (h : s.AppliesSet k st t) (h' : t.AppliesSet k st u) : s.AppliesSet k st u := by
  intro x'' hx''
  obtain ⟨x', hx', hid', hst'⟩ := h' x'' hx''
  obtain ⟨x, hx, hid, hst⟩ := h x' hx'
  refine ⟨x, hx, hid'.trans hid, ?_⟩
  rcases hst' with hst' | ⟨hk, hst'⟩
  · rw [hst']; exact hst
  · exact .inr ⟨hid ▸ hk, hst'⟩

theorem appliesSet_updateDerivedState (ctx : Ctx) (applyId : Nat) (expected newState : ApplyState)
    (errorMessage : String) (startedAt completedAt : Option Nat) : Method.Only (Store.AppliesSet applyId newState)
      (updateDerivedState ctx applyId expected newState errorMessage startedAt completedAt) := by
  refine always_updateDerivedState Store.AppliesSet.refl fun guard =>
    Method.Always.step fun s => fun x' hx' => ?_
  obtain ⟨x, hx, rfl⟩ := Table.mem_update.1 hx'
  refine ⟨x, hx, ?_⟩
  split
  · next hp =>
    simp only [derivedStateRow, Bool.and_eq_true, decide_eq_true_eq] at hp
    exact ⟨rfl, .inr ⟨hp.1.1, rfl⟩⟩
  · exact ⟨rfl, .inl rfl⟩

theorem appliesSet_writeProjection (ctx : Ctx) (apply : Apply) (ops : List ApplyOperation)
    (reopen : Bool) (s : Store) :
    s.AppliesSet apply.id (derivedState ops) (Method.call (writeProjection ctx apply ops reopen) s).1 := by
  unfold writeProjection
  rw [Method.call_bind_ok (Method.call_read _ _)]
  cases hp : projectApply s.now apply ops reopen with
  | error e => exact .refl s
  | ok projected =>
    cases projected with
    | none => exact .refl s
    | some p =>
      rw [← projectApply_state hp]
      exact (Method.Ensures.call Store.AppliesSet.refl (fun _ _ _ => Store.AppliesSet.trans)
        (appliesSet_updateDerivedState ..) trivial).1

end

/-! ## Listed operations -/

structure World.Listed (w : World) : Prop extends w.Final where
  parents : ∀ p ∈ w.projections, p.apply.id < w.store.nextApply
  rows : ∀ p ∈ w.projections, ∀ l, p.rows = some l → ∀ o ∈ w.store.operations,
    o.applyId = p.apply.id → w.store.hasSibling o = true →
      ∃ r ∈ l, r.settled = true → o.state = r.state

section
variable {w : World} {a : Action}

theorem World.projections_step {p' : Projection} (hp' : p' ∈ (w.step a).projections) :
    p' ∈ w.projections ∨ (p'.rows = none ∧ p'.apply ∈ w.store.applies) ∨
      (∃ p ∈ w.projections, p' = { p with rows := some (w.store.listByApply p.apply.id) }) ∧
        (w.step a).store = w.store := by
  cases a with
  | claim owner locked | claimCutover owner locked =>
    rw [step, claimed] at hp'
    split at hp' <;> exact .inl hp'
  | loadParent ctx applyId reopen =>
    simp only [step] at hp'
    split at hp'
    · next apply happly =>
      rcases List.mem_cons.1 hp' with rfl | hp'
      · exact .inr (.inl ⟨rfl, (Store.getApply_some happly).1⟩)
      · exact .inl hp'
    · exact .inl hp'
  | listOperations p =>
    simp only [step] at hp' ⊢
    split at hp'
    · next hp =>
      rcases List.mem_cons.1 hp' with rfl | hp'
      · exact .inr (.inr ⟨⟨p, hp, rfl⟩, by rw [if_pos hp]⟩)
      · exact .inl (List.mem_of_mem_erase hp')
    · exact .inl hp'
  | project p =>
    simp only [step] at hp'
    split at hp'
    · split at hp'
      · exact .inl (List.mem_of_mem_erase hp')
      · exact .inl hp'
    · exact .inl hp'
  | crash d => exact .inl hp'
  | _ =>
    simp only [step] at hp'
    split at hp' <;> exact .inl hp'

theorem World.Listed.step (hw : w.Listed) (ha : w.spares a = true) : (w.step a).Listed := by
  have hnext := next_step hw.wf a
  refine ⟨hw.toFinal.step ha, fun p' hp' => ?_, fun p' hp' l hl o' ho' happly hsib => ?_⟩
  · rcases projections_step hp' with hp | ⟨-, hx⟩ | ⟨⟨p, hp, rfl⟩, -⟩
    · exact Nat.lt_of_lt_of_le (hw.parents p' hp) hnext.evolves.nextApply_le
    · exact Nat.lt_of_lt_of_le (hw.wf.applyIds_lt _ hx) hnext.evolves.nextApply_le
    · exact Nat.lt_of_lt_of_le (hw.parents p hp) hnext.evolves.nextApply_le
  · rcases projections_step hp' with hp | ⟨hnone, -⟩ | ⟨⟨p, hp, rfl⟩, hstore⟩
    · rcases rows_step hw.wf a ho' with ⟨o, ho, hid, hrow⟩ | hnew
      · have hsib' := hw.hasSibling_of_step ho hid hsib
        rw [ApplyOperation.applyId_eq_of_identity hid] at happly
        obtain ⟨r, hr, hst⟩ := hw.rows p' hp l hl o ho happly hsib'
        refine ⟨r, hr, fun hset => ?_⟩
        -- the operation is as listed, so it has ended and stays
        have hoset : o.settled = true := (ApplyOperation.settled_congr (hst hset)).trans hset
        rw [(hw.rowStep_settled ho hoset hsib' hrow).2, hst hset]
      · have := hw.parents p' hp
        have := hnew.applyId
        omega
    · rw [hnone] at hl; cases hl
    · rw [hstore] at ho'
      cases hl
      exact ⟨o', Store.mem_listByApply.2 ⟨ho', happly⟩, fun _ => rfl⟩

theorem World.listed_empty : ({} : World).Listed :=
  ⟨final_empty, List.forall_mem_nil _, List.forall_mem_nil _⟩

end

/-! ## Ending an apply -/

namespace World

/-- The step ends the apply `x`. -/
def Ends (w : World) (a : Action) (x : Apply) : Prop :=
  x.state.isTerminal = false ∧
    ∃ x' ∈ (w.step a).store.applies, x'.id = x.id ∧ x'.state.isTerminal = true

def isClean (w : World) : Action → Bool
  | .project p =>
    p ∈ w.projections && match p.rows with
      | some l => l.all (!·.endsRollout)
      | none => false
  | _ => false

def EndsSettled (w : World) (a : Action) : Prop :=
  w.isClean a = true → ∀ x ∈ w.store.applies, w.Ends a x → ∀ o ∈ (w.step a).store.operations,
    o.applyId = x.id → (w.step a).store.hasSibling o = true → o.settled = true

def EndsCleanly (w : World) (a : Action) : Prop :=
  ∀ x ∈ w.store.applies, w.Ends a x →
    (∃ o ∈ w.store.operations, o.applyId = x.id ∧ w.store.hasSibling o = true) → w.isClean a = true

instance (w : World) (a : Action) (x : Apply) : Decidable (w.Ends a x) :=
  inferInstanceAs (Decidable (_ ∧ ∃ x' ∈ (w.step a).store.applies, _))

instance (w : World) (a : Action) : Decidable (w.EndsCleanly a) :=
  inferInstanceAs (Decidable (∀ x ∈ w.store.applies, _))

theorem isClean_inv {w : World} {a : Action} (h : w.isClean a = true) :
    ∃ p ∈ w.projections, a = .project p ∧ ∃ l, p.rows = some l ∧ ∀ r ∈ l, r.endsRollout = false := by
  cases a with
  | project p =>
    obtain ⟨hp, hrows⟩ := Bool.and_eq_true_iff.1 h
    split at hrows
    · next l hl =>
      refine ⟨p, of_decide_eq_true hp, rfl, l, hl, fun r hr => ?_⟩
      simpa using List.all_eq_true.1 hrows r hr
    · cases hrows
  | _ => cases h

end World

structure World.Ended (w : World) : Prop extends w.Listed where
  ended : ∀ x ∈ w.store.applies, x.state.isTerminal = true → ∀ o ∈ w.store.operations,
    o.applyId = x.id → w.store.hasSibling o = true → o.settled = true

section
variable {w : World} {a : Action}

theorem World.Listed.endsSettled (hw : w.Listed) (a : Action) : w.EndsSettled a := by
  intro hisClean x hx ⟨hxst, x', hx', hid, hxst'⟩ o' ho' happly hsib
  obtain ⟨p, hp, rfl, l, hl, hclean⟩ := isClean_inv hisClean
  have hset := appliesSet_writeProjection p.ctx p.apply l p.reopen w.store
  have hstep : w.step (.project p) =
      { w.run (writeProjection p.ctx p.apply l p.reopen) with projections := w.projections.erase p } := by
    simp only [World.step, hl, if_pos hp]
  rw [hstep] at hx'
  obtain ⟨y, hy, hyid, hyst⟩ := hset x' hx'
  have : y = x := hw.wf.applyIds.eq hy hx (hyid.symm.trans hid)
  subst this
  rcases hyst with hyst | ⟨hk, hyst⟩
  · rw [hyst, hxst] at hxst'; cases hxst'
  · rw [hyst] at hxst'
    rcases rows_step hw.wf _ ho' with ⟨o, ho, hoid, hrow⟩ | hnew
    · have hsib' := hw.hasSibling_of_step ho hoid hsib
      rw [ApplyOperation.applyId_eq_of_identity hoid, hk] at happly
      obtain ⟨r, hr, hst⟩ := hw.rows p hp l hl o ho happly hsib'
      have hrset := settled_of_derivedState_isTerminal hclean hxst' r hr
      have hoset : o.settled = true := (ApplyOperation.settled_congr (hst hrset)).trans hrset
      have hkept := (hw.rowStep_settled ho hoset hsib' hrow).2
      exact (ApplyOperation.settled_congr hkept).trans hoset
    · have hlt : y.id < w.store.nextApply := hw.wf.applyIds_lt y hy
      have := hnew.applyId
      omega

theorem World.Ended.step (hw : w.Ended) (ha : w.spares a = true) (hends : w.EndsCleanly a) : (w.step a).Ended := by
  have hnext := next_step hw.wf a
  refine ⟨hw.toListed.step ha, fun x' hx' hterm o' ho' happly hsib => ?_⟩
  rcases rows_step hw.wf a ho' with ⟨o, ho, hid, hrow⟩ | hnew
  · have hsib' := hw.hasSibling_of_step ho hid hsib
    have happly' : o.applyId = x'.id := (ApplyOperation.applyId_eq_of_identity hid).symm.trans happly
    rcases hnext.evolves.applies.origin hx' with ⟨x, hx, hk⟩ | hnewApply
    · have hxid := Apply.id_eq_of_identity hk.1
      cases hxst : x.state.isTerminal with
      | true =>
        have hoset := hw.ended x hx hxst o ho (happly'.trans hxid) hsib'
        have hkept := (hw.rowStep_settled ho hoset hsib' hrow).2
        exact (ApplyOperation.settled_congr hkept).trans hoset
      | false =>
        have hend : w.Ends a x := ⟨hxst, x', hx', hxid, hterm⟩
        have hclean := hends x hx hend ⟨o, ho, happly'.trans hxid, hsib'⟩
        exact hw.toListed.endsSettled a hclean x hx hend o' ho' (happly.trans hxid) hsib
    · have hlt : o.applyId < w.store.nextApply := hw.wf.parents_lt o ho
      have := hnewApply.1
      omega
  -- a new apply is pending
  · rw [hnew.parent x' hx' (happly.symm.trans hnew.applyId)] at hterm
    cases hterm

theorem World.ended_empty : ({} : World).Ended := ⟨listed_empty, List.forall_mem_nil _⟩

end

/-! ## The overlap check -/

def Store.KeepsOff (s : Store) : Prop :=
  ∀ x ∈ s.applies, ∀ o ∈ s.operations, o.applyId = x.id → s.hasSibling o = true →
    o.state.inFlight = true → ∀ (b : Apply) (ds : List String), b.state.isTerminal = false →
      b.database = x.database → b.databaseType = x.databaseType → b.environment = x.environment →
        o.deployment ∈ ds → ∃ e, s.checkCreate b ds = .error e

theorem World.Ended.keepsOff {w : World} (hw : w.Ended) : w.store.KeepsOff := by
  intro x hx o ho happly hsib hflight b ds hb hdb hty henv hd
  -- an operation in flight has not ended, so its apply is active
  have hact : x.state.isTerminal = false := by
    cases hterm : x.state.isTerminal with
    | false => rfl
    | true =>
      have := ApplyOperation.not_inFlight_of_settled (hw.ended x hx hterm o ho happly hsib)
      rw [hflight] at this
      cases this
  cases hcheck : w.store.checkCreate b ds with
  | error e => exact ⟨e, rfl⟩
  | ok _ =>
    rw [Store.checkCreate, if_pos hb] at hcheck
    obtain ⟨_, -, hcheck⟩ := bind_eq_ok hcheck
    have hown : o.deployment ∈ w.store.deploymentsOf x :=
      .tail _ (List.mem_map.2 ⟨o, List.mem_filter.2 ⟨ho, decide_eq_true happly⟩, rfl⟩)
    exact absurd hd (w.store.not_mem_of_check hcheck hx hact (.inl rfl) hdb.symm hty.symm henv.symm _ hown)

/-! ## Runs -/

/-- In every run whose expiries hit no operation that a drive holds, a projection over operations none of
which ends the rollout by itself ends an apply only when all its operations have ended. If applies with
several operations are ended in this way only, the overlap check admits no new apply onto a deployment
where an operation of such an apply is in flight. -/
theorem clean_projections_end_settled {as : List Action}
    (h : Transition.Along World.step (fun w a => w.spares a = true) {} as) :
    Transition.Along World.step World.EndsSettled {} as ∧
      (Transition.Along World.step (fun w a => w.spares a = true ∧ w.EndsCleanly a) {} as →
        (Transition.run World.step {} as).store.KeepsOff) := by
  refine ⟨Transition.Along.of_invariant (fun _ _ hw => World.Listed.step hw)
    (fun _ a hw _ => hw.endsSettled a) World.listed_empty h, fun hclean => ?_⟩
  exact (Transition.run_induction (fun _ _ hw hc => World.Ended.step hw hc.1 hc.2) World.ended_empty
    hclean).keepsOff

def sampleRolling : List Action :=
  [.call (sampleRollout .rolling .halt), .claim "operator-1" fun _ => false,
    .settle ⟨1, 1, 1⟩ .completed "", .claim "operator-2" fun _ => false]

/-- While the second operation runs, no other apply gets onto its deployment. -/
theorem clean_projections_end_settled_running :
    (Transition.run World.step {} sampleRolling).store.operations.map (·.state) =
        [.completed, .running] ∧
      (Transition.run World.step {} sampleRolling).store.KeepsOff :=
  ⟨by decide, (clean_projections_end_settled (by decide)).2 (by decide)⟩

/-! ## What has ended stays as it is -/

/-- From `w` to `w'` the settled operations of rollouts keep their states and leases. -/
def World.KeepsSettled (w w' : World) : Prop :=
  ∀ o ∈ w.store.operations, o.settled = true → w.store.hasSibling o = true →
    ∃ o' ∈ w'.store.operations, o'.identity = o.identity ∧ o'.state = o.state ∧ o'.leaseToken = o.leaseToken

/-- As long as no expiry fails an operation that is driven, an operation of a rollout that has completed or failed keeps
its state and its lease. -/
theorem settled_operations_stay {as bs : List Action}
    (h : Transition.Along World.step (fun w a => w.spares a = true) {} as)
    (h' : Transition.Along World.step (fun w a => w.spares a = true) (Transition.run World.step {} as) bs) :
    (Transition.run World.step {} as).KeepsSettled
      (Transition.run World.step (Transition.run World.step {} as) bs) := by
  intro o ho hset hsib
  refine (Transition.run_induction (I := fun w : World => w.Final ∧ w.store.hasSibling o = true ∧
    ∃ o' ∈ w.store.operations, o'.identity = o.identity ∧ o'.state = o.state ∧ o'.leaseToken = o.leaseToken)
    ?_ ⟨World.final_run h, hsib, o, ho, rfl, rfl, rfl⟩ h').2.2
  rintro w a ⟨hw, hsib, r, hr, hid, hst, htok⟩ ha
  have hnext := World.next_step hw.wf a
  obtain ⟨o', ho', hid', -⟩ := hnext.evolves.operations.persists hr
  refine ⟨hw.step ha, hnext.hasSibling hsib, o', ho', hid'.trans hid, ?_⟩
  rcases World.rows_step hw.wf a ho' with ⟨e, he, heid, hrow⟩ | hnew
  · obtain rfl := hw.wf.operationIds.eq he hr (ApplyOperation.id_eq_of_identity (heid.symm.trans hid'))
    have hsib' : w.store.hasSibling e = true := by
      rw [Store.hasSibling, ApplyOperation.applyId_eq_of_identity hid, ApplyOperation.id_eq_of_identity hid]
      exact hsib
    obtain ⟨ht, hs⟩ := hw.rowStep_settled he (ApplyOperation.settled_congr hst ▸ hset) hsib' hrow
    exact ⟨hs.trans hst, ht.trans htok⟩
  · have hlt : r.applyId < w.store.nextApply := hw.wf.parents_lt r hr
    have := hnew.applyId.symm.trans (ApplyOperation.applyId_eq_of_identity hid')
    omega

theorem settled_operations_stay_rolling :
    let w := Transition.run World.step {} (sampleRolling.take 3)
    w.store.operations.map (fun o => (o.settled, w.store.hasSibling o)) = [(true, true), (false, true)] ∧
      w.KeepsSettled (Transition.run World.step w (sampleRolling.drop 3)) :=
  ⟨by decide, settled_operations_stay (by decide) (by decide)⟩

/-! ## A failure under halt -/

def haltedRollout : List Action :=
  [.call (sampleRollout .barrier .halt), .claim "operator-1" fun _ => false,
    .settle ⟨1, 1, 1⟩ .waitingForCutover "", .claim "operator-2" fun _ => false,
    .claimCutover "operator-1" fun _ => false, .settle ⟨1, 1, 3⟩ .failed "swap failed"]

def haltedProjection : Projection :=
  { ctx := OperationLease.ctx ⟨1, 1, 3⟩, apply := { sampleApply with id := 1, options := some {} }
    reopen := true }

def projectedHalt : List Action :=
  haltedRollout ++
    [.loadParent haltedProjection.ctx 1 true, .listOperations haltedProjection,
      .project { haltedProjection with
        rows := some ((Transition.run World.step {} haltedRollout).store.listByApply 1) }]

def applyOnUs : Action :=
  .call (.createWithGroupedOperations { sampleApply with applyIdentifier := "apply-2", deployment := "us" }
    [{ operation := { deployment := "us" }, tasks := [{ taskIdentifier := "task-3" }] }])

/-- The projection fails the apply while its second operation is running, and a new apply is admitted
onto the deployment of that operation. -/
theorem halted_rollout_ends_in_flight :
    (Transition.run World.step {} projectedHalt).store.applies.map (·.state) = [.failed] ∧
    (Transition.run World.step {} projectedHalt).store.operations.map
      (fun o => (o.applyId, o.deployment, o.state)) = [(1, "eu", .failed), (1, "us", .running)] ∧
    (Transition.run World.step {} projectedHalt).drives = [⟨1, 2, 2⟩] ∧
    (Transition.run World.step {} (projectedHalt ++ [applyOnUs])).store.operations.map
      (fun o => (o.applyId, o.deployment, o.state)) =
        [(1, "eu", .failed), (1, "us", .running), (2, "us", .pending)] := by
  decide

end SchemaBot
