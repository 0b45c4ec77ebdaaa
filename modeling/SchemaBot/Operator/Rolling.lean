import SchemaBot.Operator.Final
import SchemaBot.Plan.Groups

/-!
# Deployments in rolling order

Under the rolling policy a deployment starts when every operation of the deployments before it has ended well
enough.
-/

namespace SchemaBot

open Concurrent

/-! ## Planned rows -/

/-- The rows of each apply are as the planner made them: one pair of policies, the rows of a deployment
stand together, and a finalizer has work of its namespace and deployment where the apply has other
deployments. -/
structure Store.Planned (s : Store) : Prop where
  policies : ∀ o ∈ s.operations, ∀ r ∈ s.operations, o.applyId = r.applyId →
    o.cutoverPolicy = r.cutoverPolicy ∧ o.onFailure = r.onFailure
  blocks : ∀ e ∈ s.operations, ∀ f ∈ s.operations, ∀ g ∈ s.operations, e.applyId = f.applyId →
    g.applyId = f.applyId → g.deployment = f.deployment → e.deployment ≠ f.deployment →
    e.before f = true → e.before g = true
  finalizers : ∀ f ∈ s.operations, f.operationKind = .groupFinalizer → ∀ e ∈ s.operations,
    e.applyId = f.applyId → e.deployment ≠ f.deployment →
    ∃ g ∈ s.operations, g.applyId = f.applyId ∧ g.operationKind = .work ∧
      g.deployment = f.deployment ∧ keyNamespace g.operationKey = keyNamespace f.operationKey

section
variable {s t : Store} {a : Apply} {ops : List ApplyOperation}

theorem Store.Planned.of_identities (hs : s.Planned)
    (hback : ∀ o' ∈ t.operations, ∃ o ∈ s.operations, o'.identity = o.identity)
    (hforth : ∀ o ∈ s.operations, ∃ o' ∈ t.operations, o'.identity = o.identity) : t.Planned := by
  refine ⟨fun o' ho' r' hr' => ?_, fun e' he' f' hf' g' hg' => ?_, fun f' hf' hk e' he' happly hdep => ?_⟩
  · obtain ⟨o, ho, hoid⟩ := hback o' ho'
    obtain ⟨r, hr, hrid⟩ := hback r' hr'
    simp only [ApplyOperation.identity, OperationIdentity.mk.injEq] at hoid hrid
    simpa [hoid, hrid] using hs.policies o ho r hr
  · obtain ⟨e, he, heid⟩ := hback e' he'
    obtain ⟨f, hf, hfid⟩ := hback f' hf'
    obtain ⟨g, hg, hgid⟩ := hback g' hg'
    have hb := hs.blocks e he f hf g hg
    rw [← ApplyOperation.before_congr heid hfid, ← ApplyOperation.before_congr heid hgid] at hb
    simp only [ApplyOperation.identity, OperationIdentity.mk.injEq] at heid hfid hgid
    simpa [heid, hfid, hgid] using hb
  · obtain ⟨e, he, heid⟩ := hback e' he'
    obtain ⟨f, hf, hfid⟩ := hback f' hf'
    simp only [ApplyOperation.identity, OperationIdentity.mk.injEq] at heid hfid
    obtain ⟨g, hg, hga, hgk, hgd, hgn⟩ := hs.finalizers f hf (by simpa [hfid] using hk) e he
      (by simpa [heid, hfid] using happly) (by simpa [heid, hfid] using hdep)
    obtain ⟨g', hg', hgid⟩ := hforth g hg
    simp only [ApplyOperation.identity, OperationIdentity.mk.injEq] at hgid
    exact ⟨g', hg', by simp [hgid, hfid, hga], by simp [hgid, hgk], by simp [hgid, hfid, hgd],
      by simp [hgid, hfid, hgn]⟩

theorem before_operationRow {applyId now j k : Nat} {e f : ApplyOperation} :
    (operationRow applyId now j e).before (operationRow applyId now k f) = true ↔ j < k := by
  simp only [operationRow, ApplyOperation.before, Nat.lt_irrefl, decide_false, decide_true,
    Bool.true_and, Bool.false_or]
  exact decide_eq_true_iff

theorem InBlocks.before_rows {ds : List String} (h : InBlocks ds ops)
    (hnd : ds.Nodup) {applyId now id : Nat} {e f g : ApplyOperation}
    (he : e ∈ operationRows applyId now id ops) (hf : f ∈ operationRows applyId now id ops)
    (hg : g ∈ operationRows applyId now id ops) (hgf : g.deployment = f.deployment)
    (hef : e.deployment ≠ f.deployment) (hb : e.before f = true) : e.before g = true := by
  induction h generalizing id with
  | nil => cases he
  | @cons d ds block rest hblock hrest ih =>
    obtain ⟨hd, hnd⟩ := List.nodup_cons.1 hnd
    rw [operationRows_append, List.mem_append] at he hf hg
    -- a row of the block is on `d`, a row of the rest is not
    have hin : ∀ {o}, o ∈ operationRows applyId now id block → o.deployment = d := by
      intro o ho
      obtain ⟨op, hop, k, -, rfl⟩ := mem_operationRows ho
      exact hblock op hop
    have hout : ∀ {o}, o ∈ operationRows applyId now (id + block.length) rest → o.deployment ≠ d := by
      intro o ho hod
      obtain ⟨op, hop, k, -, rfl⟩ := mem_operationRows ho
      exact hd (hod ▸ hrest.deployment_mem op hop)
    rcases hf with hf | hf
    · have he := he.resolve_left fun he => hef ((hin he).trans (hin hf).symm)
      obtain ⟨_, _, j, hj, rfl⟩ := mem_operationRows he
      obtain ⟨_, _, k, hk, rfl⟩ := mem_operationRows hf
      rw [before_operationRow] at hb
      omega
    · have hg := hg.resolve_left fun hg => hout hf (hgf ▸ hin hg)
      rcases he with he | he
      · obtain ⟨_, _, j, hj, rfl⟩ := mem_operationRows he
        obtain ⟨_, _, k, hk, rfl⟩ := mem_operationRows hg
        rw [before_operationRow]
        omega
      · exact ih hnd he hf hg

theorem Store.Created.mem_operations (h : s.Created a ops t)
    (hs : s.WF) {o : ApplyOperation} (ho : o ∈ t.operations) : (o ∈ s.operations ∧ o.applyId < s.nextApply) ∨
      (o ∈ operationRows s.nextApply s.now s.nextOperation ops ∧ o.applyId = s.nextApply) := by
  rw [h.operations] at ho
  rcases List.mem_append.1 ho with ho | ho
  · exact .inl ⟨ho, hs.parents_lt o ho⟩
  · obtain ⟨_, _, _, -, rfl⟩ := mem_operationRows ho
    exact .inr ⟨ho, rfl⟩

theorem Store.Planned.created (hp : s.Planned) (hs : s.WF)
    (h : s.Created a ops t) (hops : PlannedOperations ops) : t.Planned := by
  have hmem := fun {o} (ho : o ∈ t.operations) => h.mem_operations hs ho
  refine ⟨fun o ho r hr happly => ?_, fun e he f hf g hg hef hgf => ?_, fun f hf hk e he hef hdep => ?_⟩
  · rcases hmem ho with ⟨ho, hoa⟩ | ⟨ho, hoa⟩ <;> rcases hmem hr with ⟨hr, hra⟩ | ⟨hr, hra⟩
    · exact hp.policies o ho r hr happly
    · omega
    · omega
    · obtain ⟨op, hop, _, -, rfl⟩ := mem_operationRows ho
      obtain ⟨op', hop', _, -, rfl⟩ := mem_operationRows hr
      exact hops.policies op hop op' hop'
  · obtain ⟨ds, hnd, hblocks⟩ := hops.blocks
    rcases hmem hf with ⟨hf, hfa⟩ | ⟨hf, hfa⟩
    · have he := (hmem he).resolve_right fun h => by have := h.2; omega
      have hg := (hmem hg).resolve_right fun h => by have := h.2; omega
      exact hp.blocks e he.1 f hf g hg.1 hef hgf
    · have he := (hmem he).resolve_left fun h => by have := h.2; omega
      have hg := (hmem hg).resolve_left fun h => by have := h.2; omega
      exact hblocks.before_rows hnd he.1 hf hg.1
  · rcases hmem hf with ⟨hf, hfa⟩ | ⟨hf, hfa⟩
    · have he := (hmem he).resolve_right fun h => by have := h.2; omega
      obtain ⟨g, hg, hg'⟩ := hp.finalizers f hf hk e he.1 hef hdep
      exact ⟨g, h.operations ▸ List.mem_append_left _ hg, hg'⟩
    · have he := (hmem he).resolve_left fun h => by have := h.2; omega
      obtain ⟨fop, hfop, _, -, rfl⟩ := mem_operationRows hf
      obtain ⟨eop, heop, _, -, rfl⟩ := mem_operationRows he.1
      rcases hops.finalizers fop hfop hk with hall | ⟨g, hg, hgk, hgd, hgn⟩
      · exact absurd (hall eop heop) hdep
      · obtain ⟨k, hrow⟩ := operationRow_mem s.nextApply s.now s.nextOperation hg
        refine ⟨operationRow s.nextApply s.now k g, ?_, rfl, hgk, hgd, hgn⟩
        rw [h.operations]
        exact List.mem_append_right _ hrow

end

/-! ## Planned creations -/

/-- The creations that the service makes: the groups of a plan for distinct deployments (they are the
keys of a map in the configuration), or at most one operation without a plan. The plan's finalizers are
covered. -/
def Action.Planned : Action → Prop
  | .call (.createWithGroupedOperations _ groups) =>
    ∃ (p : Plan) (targets : List ExecutionTarget) (r : RolloutPolicy) (shardedFanoutSupported : Bool)
      (uuid : Nat → String), (targets.map (·.deployment)).Nodup ∧
        p.covered targets shardedFanoutSupported = true ∧
        buildApplyOperationGroups p targets r shardedFanoutSupported uuid = .ok groups
  | .call (.createWithTasksAndOperations _ _ ops) => ops.length ≤ 1
  | _ => True

theorem planned_nil : PlannedOperations [] :=
  ⟨List.forall_mem_nil _, ⟨[], List.nodup_nil, .nil⟩, List.forall_mem_nil _⟩

theorem planned_singleton (x : ApplyOperation) : PlannedOperations [x] := by
  have heq : ∀ o ∈ [x], o = x := fun o ho => List.mem_singleton.1 ho
  have hblocks : InBlocks [x.deployment] ([x] ++ []) :=
    .cons (fun o ho => congrArg _ (heq o ho)) .nil
  refine ⟨fun o ho o' ho' => ?_, ⟨_, List.nodup_singleton _, hblocks⟩, fun f hf _ => .inl fun o ho => ?_⟩
  · rw [heq o ho, heq o' ho']
    exact ⟨rfl, rfl⟩
  · rw [heq o ho, heq f hf]

theorem Action.Planned.operations {a : Action} (ha : a.Planned) {apply : Apply}
    {ops : List ApplyOperation} (h : a.creates = some (apply, ops)) : PlannedOperations ops := by
  cases a with
  | call c =>
    cases c with
    | create => cases h; exact planned_nil
    | createWithTasksAndOperations =>
      cases h
      rcases ops with _ | ⟨x, _ | ⟨y, rest⟩⟩
      · exact planned_nil
      · exact planned_singleton x
      · exact absurd ha (by simp [Action.Planned])
    | createWithGroupedOperations =>
      cases h
      obtain ⟨p, targets, r, sharded, uuid, hnd, hcov, hok⟩ := ha
      exact planned_buildApplyOperationGroups hnd hcov hok
    | _ => cases h
  | _ => cases h

theorem World.planned_step {w : World} (hw : w.store.WF) (hp : w.store.Planned) {a : Action}
    (ha : a.Planned) : (w.step a).store.Planned := by
  have hforth : ∀ o ∈ w.store.operations, ∃ o' ∈ (w.step a).store.operations,
      o'.identity = o.identity := by
    intro o ho
    obtain ⟨o', ho', hk⟩ := (next_step hw a).evolves.operations.persists ho
    exact ⟨o', ho', hk.1⟩
  cases hcr : a.creates with
  | none =>
    refine hp.of_identities (fun o' ho' => ?_) hforth
    rcases rows_step hw a ho' with ⟨o, ho, hid, -⟩ | hnew
    · exact ⟨o, ho, hid⟩
    · exact absurd hcr hnew.creates
  | some x =>
    obtain ⟨apply, ops⟩ := x
    have hops := ha.operations hcr
    cases a with
    | call c =>
      by_cases hc : c.outsideDrives = true
      · rw [step_call hc]
        rcases w.store.after_creates hcr with h | h
        · rw [h]
          exact hp
        · exact hp.created hw h hops
      · rw [step, if_neg hc]
        exact hp
    | _ => cases hcr

/-! ## The invariant -/

/-- The operations of the other deployments before the one of `y` have ended well enough for `y`. -/
def Store.TurnToStart (s : Store) (y : ApplyOperation) : Prop := s.EarlierEnded (· ≠ ·) y

structure World.Rolling (w : World) : Prop extends w.Final where
  planned : w.store.Planned
  started : ∀ g ∈ w.store.operations, g.operationKind = .work → g.cutoverPolicy = .rolling →
    g.state ≠ .pending →
    ∀ p ∈ w.store.operations, p.applyId = g.applyId → p.state = .pending → w.store.TurnToStart g

section
variable {w : World} {a : Action} {s : Store} {y : ApplyOperation}

theorem Store.turnToStart_of_gate (hy : y.cutoverPolicy = .rolling)
    (h : s.operations.any (blocksStart y) = false) : s.TurnToStart y := by
  intro e he happly hbefore hdep
  have := List.any_eq_false.1 h e he
  simp only [blocksStart, settledFor, hy, happly, hbefore, hdep, ne_eq, not_false_eq_true, decide_true,
    Bool.true_and, Bool.and_eq_true, Bool.not_eq_true', decide_eq_false_iff_not,
    Bool.and_eq_false_iff, not_and, not_or, not_not] at this
  by_cases hc : e.state = .completed
  · exact .inl hc
  · exact .inr (this hc)

theorem Store.mayStart_of_claimable (hy : y.state = .pending)
    (h : s.claimableOperation y = true) : s.mayStart y = true := by
  simp only [claimableOperation, claimPending, claimStale, claimStopped, claimDeferredDeploy,
    claimRetryable, hy, Bool.or_eq_true, Bool.and_eq_true, decide_eq_true_eq] at h
  rcases h with (((h | h) | h) | h) | h
  · exact h.1.2
  · exact absurd h.1.1 (by decide)
  · exact absurd h.1 (by decide)
  · exact absurd h.1.1 (by decide)
  · exact absurd h.1 (by decide)

theorem World.Rolling.turn_of_claimable (hw : w.Rolling)
    (hy : y ∈ w.store.operations) (hroll : y.cutoverPolicy = .rolling) (hpend : y.state = .pending)
    (h : w.store.claimableOperation y = true) : w.store.TurnToStart y := by
  have hmay := Store.mayStart_of_claimable hpend h
  simp only [Store.mayStart, Bool.or_eq_true, Bool.and_eq_true, Bool.not_eq_true',
    decide_eq_true_eq] at hmay
  rcases hmay with ⟨-, hgate⟩ | ⟨hkind, hgate⟩
  · exact Store.turnToStart_of_gate hroll hgate
  -- the work of the finalizer's namespace is completed, so it had its turn
  · intro e he happly hbefore hdep
    obtain ⟨g, hg, hga, hgk, hgd, hgn⟩ := hw.planned.finalizers y hy hkind e he happly hdep
    have hdone : g.state = .completed := by
      have := List.any_eq_false.1 hgate g hg
      simpa [blocksFinalizer, hga, hgk, hgd, hgn] using this
    obtain ⟨hpol, hfail⟩ := hw.planned.policies g hg y hy hga
    have hturn := hw.started g hg hgk (hpol.trans hroll) (by rw [hdone]; decide) y hy hga.symm hpend
    rw [← hfail]
    exact hturn e he (happly.trans hga.symm)
      (hw.planned.blocks e he y hy g hg happly hga hgd hdep hbefore) (hgd ▸ hdep)

theorem World.Sound.not_driven (hw : w.Sound) (hy : y ∈ w.store.operations)
    (hpend : y.state = .pending) {d : OperationLease} (hd : d ∈ w.drives) : y.leaseToken ≠ d.token := by
  have h₁ := hw.pending y hy hpend
  have h₂ := hw.drives_pos d hd
  omega

theorem World.Rolling.turn_of_rowStep (hw : w.Rolling) {y y' : ApplyOperation}
    (hy : y ∈ w.store.operations) (hroll : y.cutoverPolicy = .rolling) (hpend : y.state = .pending)
    (hrow : w.RowStep a y y') (hne : y'.state ≠ .pending) (hstop : y'.state = .stopped →
      ∃ r ∈ (w.step a).store.operations, r.applyId = y.applyId ∧ r.state = .pending) :
    w.store.TurnToStart y := by
  cases hrow with
  | kept _ hs => exact absurd (hs.trans hpend) hne
  | stopped _ _ hs hnone =>
    obtain ⟨r, hr, happly, hst⟩ := hstop hs
    exact absurd hst (hnone r hr happly)
  | expired _ _ hs _ _ => rw [hpend] at hs; cases hs
  | claimed h _ _ => exact hw.turn_of_claimable hy hroll hpend h
  | cutover h _ _ =>
    have := Store.state_of_claimableCutover h
    rw [hpend] at this
    exact absurd this (by decide)
  | driven d hd ht _ _ _ => exact absurd ht (hw.not_driven hy hpend hd)
  | reconciled h _ _ =>
    intro e he happly hbefore _
    rw [Store.hasSibling_iff.2 ⟨e, he, happly, hw.wf.ne_of_before he hy hbefore⟩] at h
    cases h

theorem World.Sound.pending_of_step (hw : w.Sound) {p' : ApplyOperation}
    (hp' : p' ∈ (w.step a).store.operations) (hpend : p'.state = .pending) (hold : p'.applyId < w.store.nextApply) :
    ∃ p ∈ w.store.operations, p.applyId = p'.applyId ∧ p.state = .pending := by
  rcases rows_step hw.wf a hp' with ⟨p, hp, hid, hrow⟩ | hnew
  · refine ⟨p, hp, (ApplyOperation.applyId_eq_of_identity hid).symm, ?_⟩
    cases hrow with
    | kept _ hs => exact hs ▸ hpend
    | stopped _ _ hs _ | expired _ _ _ _ hs => rw [hs] at hpend; cases hpend
    | claimed _ _ hs => exact absurd (hs ▸ hpend) (claimedState_ne_pending _)
    | cutover h _ hs =>
      exact absurd (hs ▸ hpend) (cutoverState_ne_pending (Store.state_of_claimableCutover h))
    | driven _ _ _ _ hs _ | reconciled _ _ hs => exact absurd hpend (driveStates_ne_pending hs)
  · have := hnew.applyId
    omega

theorem World.Rolling.step (hw : w.Rolling) (ha : w.spares a = true) (hpl : a.Planned) : (w.step a).Rolling := by
  refine ⟨hw.toFinal.step ha, planned_step hw.wf hw.planned hpl, ?_⟩
  intro g' hg' hkind hroll hne p' hp' happly hpend
  rcases rows_step hw.wf a hg' with ⟨g, hg, hid, hrow⟩ | hnew
  · have hga := ApplyOperation.applyId_eq_of_identity hid
    have hkind' : g.operationKind = .work := (congrArg OperationIdentity.operationKind hid).symm.trans hkind
    have hroll' : g.cutoverPolicy = .rolling :=
      (congrArg OperationIdentity.cutoverPolicy hid).symm.trans hroll
    refine hw.earlierEnded_step hg hid ?_
    by_cases hg₀ : g.state = .pending
    · exact hw.turn_of_rowStep hg hroll' hg₀ hrow hne fun _ => ⟨p', hp', happly.trans hga, hpend⟩
    · have hold : p'.applyId < w.store.nextApply := by
        rw [happly, hga]
        exact hw.wf.parents_lt g hg
      obtain ⟨p, hp, hpa, hp₀⟩ := hw.pending_of_step hp' hpend hold
      exact hw.started g hg hkind' hroll' hg₀ p hp (hpa.trans (happly.trans hga)) hp₀
  · exact absurd hnew.state hne

end

/-! ## Runs -/

def World.StartsInTurn (w : World) (a : Action) : Prop :=
  ∀ y ∈ w.store.operations, ∀ y' ∈ (w.step a).store.operations, y'.id = y.id →
    y.cutoverPolicy = .rolling → y.state = .pending → y'.state ≠ .pending → y'.state ≠ .stopped →
    w.store.TurnToStart y

theorem World.rolling_empty : ({} : World).Rolling :=
  ⟨final_empty, ⟨List.forall_mem_nil _, List.forall_mem_nil _, List.forall_mem_nil _⟩,
    List.forall_mem_nil _⟩

theorem World.Rolling.startsInTurn {w : World} (hw : w.Rolling) (a : Action) : w.StartsInTurn a := by
  intro y hy y' hy' hid hroll hpend hne hstop
  rcases rows_step hw.wf a hy' with ⟨r, hr, hrid, hrow⟩ | hnew
  · have : r.id = y.id := (ApplyOperation.id_eq_of_identity hrid).symm.trans hid
    rw [hw.wf.operationIds.eq hr hy this] at hrow
    exact hw.turn_of_rowStep hy hroll hpend hrow hne fun h => absurd h hstop
  · exact absurd hnew.state hne

/-- In every run whose applies are planned with covered finalizers, and whose expiries hit no operation
that a drive holds, the operations of a rolling rollout start in the order of their deployments. -/
theorem rolling_starts_in_order {as : List Action}
    (h : Transition.Along World.step (fun w a => w.spares a = true ∧ a.Planned) {} as) :
    Transition.Along World.step World.StartsInTurn {} as :=
  Transition.Along.of_invariant (fun _ _ hw ha => hw.step ha.1 ha.2)
    (fun _ a hw _ => World.Rolling.startsInTurn hw a) World.rolling_empty h

def coveredRun : List Action :=
  [.call (.createWithGroupedOperations sampleApply (sampleGroups coveredPlan)),
    .claim "operator-1" fun _ => false, .settle ⟨1, 1, 1⟩ .completed "",
    .claim "operator-1" fun _ => false, .settle ⟨1, 2, 2⟩ .completed "",
    .claim "operator-1" fun _ => false]

/-- A run in which the second deployment starts when the first one is completed. -/
theorem rolling_starts_in_order_covered :
    (Transition.run World.step {} coveredRun).store.operations.map (fun o => (o.deployment, o.state)) =
        [("eu", .completed), ("eu", .completed), ("us", .running), ("us", .pending)] ∧
      Transition.Along World.step World.StartsInTurn {} coveredRun := by
  have hplanned : ∃ (p : Plan) (targets : List ExecutionTarget) (r : RolloutPolicy) (sharded : Bool)
      (uuid : Nat → String), (targets.map (·.deployment)).Nodup ∧ p.covered targets sharded = true ∧
        buildApplyOperationGroups p targets r sharded uuid = .ok (sampleGroups coveredPlan) :=
    ⟨coveredPlan, sampleTargets, ⟨.rolling, .halt, 0⟩, true, toString, by decide, by decide, by decide⟩
  exact ⟨by decide, rolling_starts_in_order
    ⟨⟨rfl, hplanned⟩, ⟨rfl, trivial⟩, ⟨rfl, trivial⟩, ⟨rfl, trivial⟩, ⟨rfl, trivial⟩, ⟨rfl, trivial⟩,
      trivial⟩⟩

def splitPlan : Plan :=
  { namespaces := [("commerce", { tables := [{ table := "orders", ddl := "ALTER" }] }),
      ("customer", { vschema := "new" })]
    shards := [⟨"-80", "commerce", true⟩] }

def splitRun : List Action :=
  [.call (.createWithGroupedOperations sampleApply (sampleGroups splitPlan)),
    .claim "operator-1" fun _ => false, .claim "operator-2" fun _ => false]

/-- The finalizer of the second deployment starts while the first one still works: no operation blocks
it, as its namespace has no work. -/
theorem finalizer_starts_out_of_order :
    buildApplyOperationGroups splitPlan sampleTargets ⟨.rolling, .halt, 0⟩ true toString =
        .ok (sampleGroups splitPlan) ∧
      (Transition.run World.step {} splitRun).store.operations.map
          (fun o => (o.deployment, o.operationKind, o.state)) =
        [("eu", .work, .running), ("eu", .groupFinalizer, .running), ("us", .work, .pending),
          ("us", .groupFinalizer, .pending)] ∧
      ((Transition.run World.step {} splitRun).step
          (.claim "operator-3" fun _ => false)).store.operations.map
          (fun o => (o.deployment, o.operationKind, o.state)) =
        [("eu", .work, .running), ("eu", .groupFinalizer, .running), ("us", .work, .pending),
          ("us", .groupFinalizer, .running)] := by
  decide

end SchemaBot
