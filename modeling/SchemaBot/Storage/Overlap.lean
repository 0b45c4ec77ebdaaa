import SchemaBot.Storage.Effects

/-!
# One active apply per deployment

An apply owns its own deployment and those of its operations, on one database, type and environment.
-/

namespace SchemaBot

open Concurrent

/-! ## Ownership -/

def Store.deploymentsOf (s : Store) (a : Apply) : List String :=
  a.deployment :: s.operationDeploymentsForApply a.id

structure Store.Overlap (s : Store) (a b : Apply) : Prop where
  database : a.database = b.database
  databaseType : a.databaseType = b.databaseType
  environment : a.environment = b.environment
  deployment : ∃ d, d ∈ s.deploymentsOf a ∧ d ∈ s.deploymentsOf b

def Store.Exclusive (s : Store) : Prop :=
  ∀ a ∈ s.applies, ∀ b ∈ s.applies, a.id ≠ b.id → a.state.isTerminal = false →
    b.state.isTerminal = false → ¬ s.Overlap a b

section
variable {s t : Store} {a b a' b' : Apply}

theorem Store.Overlap.symm (h : s.Overlap a b) : s.Overlap b a :=
  ⟨h.database.symm, h.databaseType.symm, h.environment.symm,
    h.deployment.imp fun _ hd => ⟨hd.2, hd.1⟩⟩

theorem Apply.target_eq_of_identity (h : a'.identity = a.identity) : a'.target = a.target :=
  congrArg ApplyIdentity.target h

theorem Store.operationDeploymentsForApply_eq (s : Store) (applyId : Nat) : s.operationDeploymentsForApply applyId =
      ((s.operations.map (·.identity)).filter (·.applyId = applyId)).map (·.deployment) := by
  rw [List.filter_map, List.map_map]
  rfl

theorem Store.deploymentsOf_congr (ho : t.operations.map (·.identity) = s.operations.map (·.identity))
    (ha : a'.identity = a.identity) : t.deploymentsOf a' = s.deploymentsOf a := by
  have hd : a'.deployment = a.deployment := congrArg Target.deployment (Apply.target_eq_of_identity ha)
  rw [deploymentsOf, deploymentsOf, operationDeploymentsForApply_eq, operationDeploymentsForApply_eq,
    ho, hd, Apply.id_eq_of_identity ha]

theorem Store.Overlap.congr (ho : t.operations.map (·.identity) = s.operations.map (·.identity))
    (ha : a'.identity = a.identity) (hb : b'.identity = b.identity) (h : t.Overlap a' b') : s.Overlap a b := by
  have hta := Apply.target_eq_of_identity ha
  have htb := Apply.target_eq_of_identity hb
  refine ⟨?_, ?_, ?_, ?_⟩
  · exact (congrArg Target.database hta).symm.trans (h.database.trans (congrArg Target.database htb))
  · exact (congrArg Target.databaseType hta).symm.trans
      (h.databaseType.trans (congrArg Target.databaseType htb))
  · exact (congrArg Target.environment hta).symm.trans
      (h.environment.trans (congrArg Target.environment htb))
  · rw [← deploymentsOf_congr ho ha, ← deploymentsOf_congr ho hb]
    exact h.deployment

theorem Store.not_mem_of_check {tgt : Target} {ds : List String} {k : Nat}
    (h : s.checkNoActiveApplyForTargets tgt ds k = .ok ()) (hb : b ∈ s.applies)
    (hact : b.state.isTerminal = false) (hk : k = 0 ∨ b.id ≠ k) (hdb : b.database = tgt.database)
    (hty : b.databaseType = tgt.databaseType) (henv : b.environment = tgt.environment) :
    ∀ d ∈ s.deploymentsOf b, d ∉ ds := by
  intro d hd hds
  rw [checkNoActiveApplyForTargets, if_neg (List.ne_nil_of_mem hds)] at h
  have hblocks : s.blocks tgt ds k b = true := by
    have hown : b.deployment ∈ ds ∨ ∃ o ∈ s.operations, o.applyId = b.id ∧ o.deployment ∈ ds := by
      rcases List.mem_cons.1 hd with rfl | hd
      · exact .inl hds
      · obtain ⟨o, ho, rfl⟩ := List.mem_map.1 hd
        have := List.mem_filter.1 ho
        exact .inr ⟨o, this.1, by simpa using this.2, hds⟩
    simp only [blocks, hdb, hty, henv, hact, Bool.and_eq_true, Bool.or_eq_true, decide_eq_true_eq,
      List.any_eq_true, Bool.not_false, and_true, true_and]
    exact ⟨hown, hk⟩
  rw [if_pos (List.any_eq_true.2 ⟨b, hb, hblocks⟩)] at h
  cases h

instance (s : Store) (a b : Apply) : Decidable (s.Overlap a b) :=
  decidable_of_iff (a.database = b.database ∧ a.databaseType = b.databaseType ∧
      a.environment = b.environment ∧ ∃ d ∈ s.deploymentsOf a, d ∈ s.deploymentsOf b)
    ⟨fun h => ⟨h.1, h.2.1, h.2.2.1, h.2.2.2⟩,
      fun h => ⟨h.database, h.databaseType, h.environment, h.deployment⟩⟩

instance (s : Store) : Decidable s.Exclusive :=
  inferInstanceAs (Decidable (∀ a ∈ s.applies, ∀ b ∈ s.applies, _))

end

section
variable {s t : Store} {active : Apply → Prop}

theorem Store.Exclusive.moves (hs : s.Exclusive) (h : s.Moves active t)
    (hact : ∀ a ∈ s.applies, active a → ∀ b ∈ s.applies, a.id ≠ b.id →
      b.state.isTerminal = false ∨ active b → ¬ s.Overlap a b) : t.Exclusive := by
  intro a' ha' b' hb' hne hta htb hov
  obtain ⟨a, ha, hida, hsta⟩ := h.applies a' ha'
  obtain ⟨b, hb, hidb, hstb⟩ := h.applies b' hb'
  have hne' : a.id ≠ b.id := by
    rwa [← Apply.id_eq_of_identity hida, ← Apply.id_eq_of_identity hidb]
  have hov' : s.Overlap a b := hov.congr h.operations hida hidb
  rcases hsta hta with hna | haa
  · rcases hstb htb with hnb | hab
    · exact hs a ha b hb hne' hna hnb hov'
    · exact hact b hb hab a ha hne'.symm (.inl hna) hov'.symm
  · exact hact a ha haa b hb hne' (hstb htb) hov'

theorem Store.Exclusive.quiet (hs : s.Exclusive) (h : s.Quiet t) : t.Exclusive :=
  hs.moves h fun _ _ => False.elim

end

theorem Store.quiet_after (s : Store) {c : Call} (hc : c.mayActivate = false) : s.Quiet (s.after c) :=
  (Method.Ensures.call Store.Moves.refl (fun _ _ _ => Store.Quiet.trans)
    (Prog.Ensures.imp (fun _ _ h => h.quiet hc) c.effect) trivial).1

/-! ## The calls that activate an apply -/

structure Store.Admitted (s : Store) : Prop where
  wf : s.WF
  exclusive : s.Exclusive
  complete : ∀ a ∈ s.applies, a.target.hasApplyTarget = true

def Store.Free (s : Store) (a : Apply) : Prop :=
  ∀ b ∈ s.applies, a.id ≠ b.id → b.state.isTerminal = false → ¬ s.Overlap a b

section
variable {s t : Store} {a : Apply} {active : Apply → Prop} {apply : Apply}

theorem Store.Admitted.exclusive_of_free (hs : s.Admitted) {k : Nat}
    (h : s.Moves (fun r => r.id = k ∧ s.Free r) t) : t.Exclusive := by
  refine hs.exclusive.moves h fun a _ ⟨hka, hfree⟩ b hb hne hact => ?_
  rcases hact with hact | ⟨hkb, -⟩
  · exact hfree b hb hne hact
  · exact absurd (hka.trans hkb.symm) hne

theorem Store.Admitted.complete_of_moves (hs : s.Admitted)
    (h : s.Moves active t) : ∀ a ∈ t.applies, a.target.hasApplyTarget = true := by
  intro a' ha'
  obtain ⟨a, ha, hid, -⟩ := h.applies a' ha'
  rw [Apply.target_eq_of_identity hid]
  exact hs.complete a ha

theorem Store.free_of_check {tgt : Target} {ds : List String}
    (h : s.checkNoActiveApplyForTargets tgt ds a.id = .ok ()) (hdb : tgt.database = a.database)
    (hty : tgt.databaseType = a.databaseType) (henv : tgt.environment = a.environment)
    (hds : ∀ d ∈ s.deploymentsOf a, d ∈ ds) : s.Free a := by
  intro b hb hne hact hov
  obtain ⟨d, hda, hdb'⟩ := hov.deployment
  exact s.not_mem_of_check h hb hact (.inr hne.symm) (hov.database.symm.trans hdb.symm)
    (hov.databaseType.symm.trans hty.symm) (hov.environment.symm.trans henv.symm) d hdb' (hds d hda)

theorem Store.Admitted.applyTargetForUpdate_eq (hs : s.Admitted) (ha : a ∈ s.applies) :
    s.applyTargetForUpdate a = a.target := by
  unfold applyTargetForUpdate
  split
  · rfl
  · cases hf : s.getApply a.id with
    | none => exact absurd rfl (getApply_none hf a ha)
    | some row =>
      obtain ⟨hrow, hid⟩ := getApply_some hf
      rw [hs.wf.applyIds.eq hrow ha hid]

theorem Store.moves_transitionClaimToState (st : ApplyState) (owner : String)
    (h : ∀ r ∈ s.applies, r.id = a.id → r.state = a.state → r.state.isTerminal = false ∨ active r) :
    s.Moves active (s.transitionClaimToState a st owner).1 := by
  unfold transitionClaimToState
  dsimp only
  split
  · exact .refl s
  · refine .update_applies fun r hr hp => ⟨rfl, fun _ => ?_⟩
    simp only [Bool.and_eq_true, decide_eq_true_eq] at hp
    exact h r hr hp.1 hp.2

theorem Store.Admitted.moves_persistApplyClaim (hs : s.Admitted) (ha : a ∈ s.applies) {owner : String}
    {r : Option Apply} (h : s.persistApplyClaim a owner = .ok (t, r)) :
    s.Moves (fun r => r.id = a.id ∧ s.Free r) t := by
  have huniq : ∀ r ∈ s.applies, r.id = a.id → r = a := fun r hr hid => hs.wf.applyIds.eq hr ha hid
  unfold persistApplyClaim at h
  split at h
  · unfold claimStoppedApplyUnderTargetLock at h
    rw [hs.applyTargetForUpdate_eq ha, if_neg (by rw [hs.complete a ha]; decide)] at h
    split at h
    · split at h
      · cases h; exact .of_eq rfl rfl
      · cases h
    · next hcheck =>
      have hfree : s.Free a := s.free_of_check hcheck rfl rfl rfl fun d hd => by
        rcases List.mem_cons.1 hd with rfl | hd
        · exact List.mem_append_right _ (.head _)
        · exact List.mem_append_left _ hd
      have : s.Moves (fun r => r.id = a.id ∧ s.Free r) (s.transitionClaimToState a .resuming owner).1 :=
        s.moves_transitionClaimToState _ _ fun r hr hid _ => .inr ⟨hid, huniq r hr hid ▸ hfree⟩
      rwa [Except.ok.inj h] at this
  · split at h
    · next hst =>
      have : s.Moves (fun r => r.id = a.id ∧ s.Free r) (s.transitionClaimToState a .running owner).1 :=
        s.moves_transitionClaimToState _ _ fun r _ _ he =>
          .inl (by rcases hst with hst | hst <;> rw [he, hst] <;> rfl)
      rwa [Except.ok.inj h] at this
    · cases h
      exact .update_applies fun _ _ _ => ⟨rfl, .inl⟩

def Store.ReadTarget (s : Store) (apply : Apply) : Prop :=
  ∀ row ∈ s.applies, row.id = apply.id →
    apply.database = row.database ∧ apply.databaseType = row.databaseType ∧
      apply.environment = row.environment ∧ (apply.deployment = row.deployment ∨
        row.deployment ∈ s.operationDeploymentsForApply row.id)

theorem Store.Admitted.checkUpdate_free (hs : s.Admitted) (ha : a ∈ s.applies)
    (hid : a.id = apply.id) (hread : s.ReadTarget apply) (hact : apply.state.isTerminal = false)
    (h : s.checkUpdate apply (s.applyTargetForUpdate apply) = .ok ()) : s.Free a := by
  obtain ⟨hdb, hty, henv, hdep⟩ := hread a ha hid
  have hcomplete := hs.complete a ha
  have htarget : (s.applyTargetForUpdate apply).database = a.database ∧
      (s.applyTargetForUpdate apply).databaseType = a.databaseType ∧
      (s.applyTargetForUpdate apply).environment = a.environment ∧
      (a.deployment = (s.applyTargetForUpdate apply).deployment ∨
        a.deployment ∈ s.operationDeploymentsForApply a.id) := by
    unfold applyTargetForUpdate
    split
    · exact ⟨hdb, hty, henv, hdep.imp_left Eq.symm⟩
    · cases hf : s.getApply apply.id with
      | none => exact absurd hid (getApply_none hf a ha)
      | some row =>
        obtain ⟨hrow, hrid⟩ := getApply_some hf
        rw [hs.wf.applyIds.eq hrow ha (hrid.trans hid.symm)]
        exact ⟨rfl, rfl, rfl, .inl rfl⟩
  obtain ⟨hdb, hty, henv, hdep⟩ := htarget
  have hhas : (s.applyTargetForUpdate apply).hasApplyTarget = true := by
    simp only [Target.hasApplyTarget, hdb, hty, henv]
    exact hcomplete
  rw [checkUpdate, if_pos ⟨hact, hhas⟩, ← hid] at h
  refine s.free_of_check h hdb hty henv fun d hd => ?_
  rcases List.mem_cons.1 hd with rfl | hd
  · rcases hdep with he | hmem
    · rw [he]; exact List.mem_append_right _ (.head _)
    · exact List.mem_append_left _ hmem
  · exact List.mem_append_left _ hd

theorem Store.Admitted.moves_update (hs : s.Admitted) (ctx : Ctx) (hread : s.ReadTarget apply) :
    s.Moves (fun r => r.id = apply.id ∧ s.Free r) (Method.call (update ctx apply) s).1 := by
  rcases call_update ctx apply s with ⟨e, he⟩ | ⟨lease, -, hcheck, -, he⟩
  · rw [he]; exact .refl s
  · rw [he]
    refine .update_applies fun r hr hp => ⟨rfl, fun hact => .inr ?_⟩
    simp only [updateRow, Bool.and_eq_true, decide_eq_true_eq] at hp
    have hact : apply.state.isTerminal = false := hact
    rw [if_pos hact] at hcheck
    exact ⟨hp.1, hs.checkUpdate_free hr hp.1 hread hact hcheck⟩

theorem Store.moves_updateDerivedState (s : Store) (ctx : Ctx) (applyId : Nat)
    (expected newState : ApplyState) (errorMessage : String) (startedAt completedAt : Option Nat) :
    s.Moves (fun r => r.id = applyId ∧ newState.isTerminal = false)
      (Method.call (updateDerivedState ctx applyId expected newState errorMessage startedAt
        completedAt) s).1 := by
  have h : Method.Only
      (Store.Moves fun r => r.id = applyId ∧ newState.isTerminal = false)
      (updateDerivedState ctx applyId expected newState errorMessage startedAt completedAt) := by
    refine always_updateDerivedState Store.Moves.refl fun guard => Method.Always.step fun s =>
      .update_applies fun a _ hp => ⟨rfl, fun hact => .inr ⟨?_, hact⟩⟩
    simp only [derivedStateRow, Bool.and_eq_true, decide_eq_true_eq] at hp
    exact hp.1.1
  refine (Method.Ensures.call Store.Moves.refl (fun _ _ _ => Store.Moves.trans ?_) h trivial).1
  exact fun a a' hid hact => ⟨(Apply.id_eq_of_identity hid).symm.trans hact.1, hact.2⟩

theorem Store.Admitted.created (hs : s.Admitted) {ops : List ApplyOperation}
    (hact : a.state.isTerminal = false) (h : s.Created a ops t) :
    t.Exclusive ∧ ∀ r ∈ t.applies, r.target.hasApplyTarget = true := by
  have hcheck := h.check
  rw [Store.checkCreate, if_pos hact] at hcheck
  obtain ⟨_, hlock, hcheck⟩ := bind_eq_ok hcheck
  have hnew : ∀ o ∈ operationRows s.nextApply s.now s.nextOperation ops,
      o.applyId = s.nextApply ∧ o.deployment ∈ ops.map (·.deployment) := by
    intro o ho
    obtain ⟨op, hop, k, -, rfl⟩ := mem_operationRows ho
    exact ⟨rfl, List.mem_map.2 ⟨op, hop, rfl⟩⟩
  -- the operations of an old apply are the old ones, those of the new apply the new ones
  have hold : ∀ b ∈ s.applies, t.deploymentsOf b = s.deploymentsOf b := by
    intro b hb
    have hlt : b.id < s.nextApply := hs.wf.applyIds_lt b hb
    have hnil : (operationRows s.nextApply s.now s.nextOperation ops).filter (·.applyId = b.id) = [] :=
      List.filter_eq_nil_iff.2 fun o ho => by
        rw [(hnew o ho).1, decide_eq_true_eq]; omega
    rw [Store.deploymentsOf, Store.deploymentsOf, Store.operationDeploymentsForApply, h.operations,
      List.filter_append, hnil, List.append_nil]
    rfl
  have hown : ∀ d ∈ t.deploymentsOf (s.applyRow a), d ∈ a.deployment :: ops.map (·.deployment) := by
    intro d hd
    rcases List.mem_cons.1 hd with rfl | hd
    · exact .head _
    · obtain ⟨o, ho, rfl⟩ := List.mem_map.1 hd
      obtain ⟨ho, hid⟩ := List.mem_filter.1 ho
      rw [h.operations] at ho
      rcases List.mem_append.1 ho with ho | ho
      · have hlt : o.applyId < s.nextApply := hs.wf.parents_lt o ho
        have hid : o.applyId = s.nextApply := of_decide_eq_true hid
        omega
      · exact .tail _ (hnew o ho).2
  have hfree : ∀ b ∈ s.applies, b.state.isTerminal = false → ¬ t.Overlap (s.applyRow a) b := by
    intro b hb hbact hov
    obtain ⟨d, hda, hdb⟩ := hov.deployment
    rw [hold b hb] at hdb
    exact s.not_mem_of_check hcheck hb hbact (.inl rfl) hov.database.symm hov.databaseType.symm
      hov.environment.symm d hdb (hown d hda)
  refine ⟨fun r hr r' hr' hne hra hra' hov => ?_, fun r hr => ?_⟩
  · rw [h.applies] at hr hr'
    rcases List.mem_append.1 hr with hr | hr <;> rcases List.mem_append.1 hr' with hr' | hr'
    · refine hs.exclusive r hr r' hr' hne hra hra' ⟨hov.database, hov.databaseType, hov.environment, ?_⟩
      rw [← hold r hr, ← hold r' hr']
      exact hov.deployment
    · rw [List.mem_singleton.1 hr'] at hov
      exact hfree r hr hra hov.symm
    · rw [List.mem_singleton.1 hr] at hov
      exact hfree r' hr' hra' hov
    · exact hne (by rw [List.mem_singleton.1 hr, List.mem_singleton.1 hr'])
  · rw [h.applies] at hr
    rcases List.mem_append.1 hr with hr | hr
    · exact hs.complete r hr
    · rw [List.mem_singleton.1 hr]
      rw [acquireApplyTargetLock] at hlock
      split at hlock
      · assumption
      · cases hlock

end

/-! ## The law -/

def Call.FromSystem (s : Store) : Call → Prop
  | .create a | .createWithTasksAndOperations a _ _ | .createWithGroupedOperations a _ =>
    a.state = .pending
  | .update _ apply => s.ReadTarget apply
  | _ => True

def Call.ReopensFree (s : Store) : Call → Prop
  | .updateDerivedState _ applyId _ newState _ _ _ =>
    newState.isTerminal = false → ∀ a ∈ s.applies, a.id = applyId → a.state.isTerminal = true → s.Free a
  | _ => True

theorem Store.Admitted.after {s : Store} (hs : s.Admitted) (c : Call) (hsys : c.FromSystem s)
    (hfree : c.ReopensFree s) : (s.after c).Admitted := by
  have hwf : (s.after c).WF := (c.safe.next hs.wf).wf
  -- a call that moves one free apply, or none
  have hmoves : ∀ {k : Nat}, s.Moves (fun r => r.id = k ∧ s.Free r) (s.after c) →
      (s.after c).Admitted := fun h => ⟨hwf, hs.exclusive_of_free h, hs.complete_of_moves h⟩
  have hcreate : ∀ {a : Apply} {ops : List ApplyOperation}, a.state = .pending →
      s.Created a ops (s.after c) → (s.after c).Admitted := fun ha h =>
    have hcr := hs.created (by rw [ha]; rfl) h
    ⟨hwf, hcr.1, hcr.2⟩
  have hclaim : ∀ {wanted : Store → Apply → Bool} {locked : Nat → Bool} {owner message : String},
      s.after c = (Method.call (claimApply wanted locked owner message) s).1 →
      (s.after c).Admitted := by
    intro wanted locked owner message he
    rcases call_claimApply wanted locked owner message s with hc | ⟨a, ha, -, r, hp⟩
    · rw [he, hc]; exact hs
    · rw [← he] at hp
      exact hmoves (hs.moves_persistApplyClaim ha hp)
  have hquiet : c.mayActivate = false → (s.after c).Admitted := fun hc =>
    have hq : s.Quiet (s.after c) := s.quiet_after hc
    ⟨hwf, hs.exclusive.quiet hq, hs.complete_of_moves hq⟩
  cases c with
  | create a =>
    rcases created_create s a with ⟨e, he⟩ | ⟨t, he, h⟩
    · rw [Store.after, Call.method, Method.call_discard, he]; exact hs
    · exact hcreate hsys (by rw [Store.after, Call.method, Method.call_discard, he]; exact h)
  | createWithTasksAndOperations a tasks ops =>
    rcases created_createWithTasksAndOperations s a tasks ops with ⟨e, he⟩ | ⟨t, he, h⟩
    · rw [Store.after, Call.method, Method.call_discard, he]; exact hs
    · exact hcreate hsys (by rw [Store.after, Call.method, Method.call_discard, he]; exact h)
  | createWithGroupedOperations a groups =>
    rcases created_createWithGroupedOperations s a groups with ⟨e, he⟩ | ⟨t, he, h⟩
    · rw [Store.after, Call.method, Method.call_discard, he]; exact hs
    · exact hcreate hsys (by rw [Store.after, Call.method, Method.call_discard, he]; exact h)
  | update ctx apply => exact hmoves (hs.moves_update ctx hsys)
  | updateDerivedState ctx applyId expected newState errorMessage startedAt completedAt =>
    have h := s.moves_updateDerivedState ctx applyId expected newState errorMessage startedAt completedAt
    have he : s.after (.updateDerivedState ctx applyId expected newState errorMessage startedAt
        completedAt) = _ := Method.call_discard _ _
    rw [← he] at h
    refine hmoves (k := applyId) ⟨h.operations, fun a' ha' => ?_⟩
    obtain ⟨a, ha, hid, hst⟩ := h.applies a' ha'
    refine ⟨a, ha, hid, fun hact => (hst hact).imp_right fun h => ⟨h.1, ?_⟩⟩
    obtain ⟨hk, hnew⟩ := h
    -- an apply that was active already is free because deployments were exclusive
    cases hterm : a.state.isTerminal with
    | true => exact hfree hnew a ha hk hterm
    | false => exact fun b hb hne hb' => hs.exclusive a ha b hb hne hterm hb'
  | findNextApply | claimApplyByID | findNextApplyForStopReconciliation =>
    exact hclaim (Method.call_discard _ _)
  | _ => exact hquiet rfl

theorem Store.admitted_empty : ({} : Store).Admitted :=
  ⟨wf_empty, List.forall_mem_nil _, List.forall_mem_nil _⟩

section

def driveCtx (operationId token : Nat) : Ctx := { operationLease := some ⟨1, operationId, token⟩ }

/-- The swap of the first deployment fails retryably while the second copies, nobody retries it for a
day, and `ExpireRetryable` gives the apply up. -/
def expiredRollout : List Call :=
  [sampleRollout .barrier .continue,
    .findNextApplyOperation "operator-1" fun _ => false,
    .updateDerivedState (driveCtx 1 1) 1 .pending .running "" (some 0) none,
    .updateState (driveCtx 1 1) 1 .waitingForCutover,
    .findNextApplyOperation "operator-2" fun _ => false,
    .findNextApplyOperationCutover "operator-1" fun _ => false,
    .updateState (driveCtx 1 3) 1 .failedRetryable,
    .updateDerivedState (driveCtx 1 3) 1 .running .failedRetryable "" none none,
    .tick 86401, .heartbeatOperation (driveCtx 2 2) 2, .expireRetryable]

def reopenRollout : List Call :=
  [.updateState (driveCtx 2 2) 2 .waitingForCutover,
    .updateDerivedState (driveCtx 2 2) 1 .failed .runningDegraded "" none none]

instance (s : Store) (c : Call) : Decidable (c.FromSystem s) := by
  unfold Call.FromSystem Store.ReadTarget
  cases c <;> infer_instance

instance (s : Store) (c : Call) : Decidable (c.ReopensFree s) := by
  unfold Call.ReopensFree Store.Free
  cases c with
  | updateDerivedState => exact instDecidableForall
  | _ => exact instDecidableTrue

end

end SchemaBot
