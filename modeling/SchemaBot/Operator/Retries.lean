import SchemaBot.Storage.Attempts

/-!
# Retries and the retry budget

How the operators of `pkg/api/operator.go` redispatch retryable work.
-/

namespace SchemaBot

open Concurrent

/-! ## The system -/

inductive PassStage
  | selected | claimed | single | driving | ended
  deriving DecidableEq

structure RecoveryPass where
  owner : String
  op : ApplyOperation
  stage : PassStage := .selected
  charged : Nat := 0
  deriving DecidableEq

structure Fleet where
  store : Store := {}
  passes : List RecoveryPass := []
  copies : List Apply := []
  deriving DecidableEq

inductive FleetAction
  | select (owner : String) (locked : Nat → Bool)
  | claim (n : Nat)
  | inspect (n : Nat)
  | claimApply (n : Nat) (locked : Nat → Bool)
  | read (applyId : Nat)
  | update (ctx : Ctx) (copy apply : Apply)
  | call (c : Call)

def Store.hasTasks (s : Store) (operationId : Nat) : Bool :=
  s.tasks.any (·.applyOperationId = some operationId)

def Store.attempt (s : Store) (applyId : Nat) : Nat := ((s.getApply applyId).map (·.attempt)).getD 0

namespace Fleet

section
variable (w : Fleet)

/-- The `n`-th pass moves to a stage, while the store becomes `t`. -/
def move (n : Nat) (p : RecoveryPass) (t : Store) (stage : PassStage) : Fleet :=
  { w with
    store := t
    passes := w.passes.set n
      { p with stage, charged := p.charged + (t.attempt p.op.applyId - w.store.attempt p.op.applyId) } }

/-- A step of the `n`-th pass, if it is at the given stage. -/
def onPass (n : Nat) (stage : PassStage) (f : RecoveryPass → Fleet) : Fleet :=
  match w.passes[n]? with
  | some p => if p.stage = stage then f p else w
  | none => w

/-- The `SELECT` of `FindNextApplyOperation`. -/
def selectStep (owner : String) (locked : Nat → Bool) : Fleet :=
  match Table.firstBy ApplyOperation.before (fun op => w.store.claimableOperation op && !locked op.id)
      w.store.operations with
  | some op => { w with passes := w.passes ++ [{ owner, op }] }
  | none => w

/-- The claim write of `FindNextApplyOperation`. -/
def claimStep (n : Nat) (p : RecoveryPass) : Fleet :=
  w.move n p (w.store.persistOperationClaim p.op p.owner).1
    (if (w.store.persistOperationClaim p.op p.owner).2.isSome then .claimed else .ended)

/-- The branch of `recoverApplyOperation`. -/
def inspectStep (n : Nat) (p : RecoveryPass) : Fleet :=
  w.move n p w.store
    (if w.store.hasSibling p.op || !w.store.hasTasks p.op.id then .driving else .single)

/-- The claim of the parent in `recoverSingleApplyOperation`. -/
def claimApplyStep (n : Nat) (locked : Nat → Bool) (p : RecoveryPass) : Fleet :=
  match Method.call (claimApplyByID p.op.applyId p.owner locked) w.store with
  | (t, .ok (some a)) => { w.move n p t .driving with copies := a :: w.copies }
  | (t, _) => w.move n p t .ended

def step : FleetAction → Fleet
  | .select owner locked => if owner = "" then w else w.selectStep owner locked
  | .claim n => w.onPass n .selected (w.claimStep n)
  | .inspect n => w.onPass n .claimed (w.inspectStep n)
  | .claimApply n locked => w.onPass n .single (w.claimApplyStep n locked)
  | .read applyId => { w with copies := (w.store.getApply applyId).toList ++ w.copies }
  | .update ctx copy apply =>
    if copy ∈ w.copies ∧ apply.attempt = copy.attempt then { w with store := w.store.after (.update ctx apply) }
    else w
  | .call c => if c.keepsBudget then { w with store := w.store.after c } else w

def skipsBudget : FleetAction → Bool
  | .inspect n => w.passes[n]?.any fun p => p.stage = .claimed && !w.store.hasSibling p.op &&
      !w.store.hasTasks p.op.id && w.store.parentRetryable p.op.applyId
  | _ => false

end

end Fleet

def FleetAction.mayCharge (w : Fleet) (applyId : Nat) : FleetAction → Bool
  | .claim n | .claimApply n _ => w.passes[n]?.any (·.op.applyId = applyId)
  | .call c => c.claims
  | _ => false

def FleetAction.isUpdate : FleetAction → Bool
  | .update .. => true
  | _ => false

structure Fleet.WithinBudget (w : Fleet) (a : FleetAction) : Prop where
  /-- No counter exceeds the bound. -/
  bounded : ∀ x ∈ (w.step a).store.applies, x.attempt ≤ maxRecoveryAttempts
  /-- A claim charges its own apply, if that is retryable, and one unit at most. -/
  charges : a.isUpdate = false → ∀ x x', (x, x') ∈ w.store.applies.zip (w.step a).store.applies →
    x'.attempt = x.attempt ∨
      x'.attempt = x.attempt + 1 ∧ x.state = .failedRetryable ∧ a.mayCharge w x.id = true
  /-- A pass that starts to drive an only operation has charged one unit if the apply is retryable, and
  nothing otherwise. -/
  once : ∀ (n : Nat) (p p' : RecoveryPass), w.passes[n]? = some p → (w.step a).passes[n]? = some p' →
    p.stage ≠ .driving → p'.stage = .driving → w.store.hasSibling p.op = false →
    p'.charged = if w.store.parentRetryable p.op.applyId then 1 else 0

/-! ## The counter of one apply -/

section
variable {s t : Store} {a : Apply} {op : ApplyOperation} {owner : String}

theorem Store.WF.next_after (hs : s.WF) (c : Call) : s.Next (s.after c) :=
  Store.next_of_other hs (hs.others_after c)

theorem Store.WF.getApply_of_mem (hs : s.WF) (ha : a ∈ s.applies) : s.getApply a.id = some a := by
  cases h : s.getApply a.id with
  | none => exact absurd rfl (Store.getApply_none h a ha)
  | some b =>
    obtain ⟨hb, hid⟩ := Store.getApply_some h
    rw [hs.applyIds.eq hb ha hid]

theorem Store.WF.attempt_of_mem (hs : s.WF) (ha : a ∈ s.applies) : s.attempt a.id = a.attempt := by
  rw [Store.attempt, hs.getApply_of_mem ha]
  rfl

theorem Store.WF.parentRetryable_of_mem (hs : s.WF) (ha : a ∈ s.applies) :
    s.parentRetryable a.id = decide (a.state = .failedRetryable) := by
  rw [Bool.eq_iff_iff, parentRetryable, List.any_eq_true, decide_eq_true_eq]
  constructor
  · rintro ⟨b, hb, h⟩
    simp only [Bool.and_eq_true, decide_eq_true_eq] at h
    rw [← hs.applyIds.eq hb ha h.1]
    exact h.2
  · exact fun h => ⟨a, ha, by simp [h]⟩

theorem Store.attempt_congr {k : Nat}
    (h : List.Forall₂ (fun a a' : Apply => a'.id = a.id ∧ (a.id = k → a'.attempt = a.attempt))
      s.applies t.applies) : t.attempt k = s.attempt k := by
  unfold attempt getApply
  generalize s.applies = xs, t.applies = ys at h
  induction h with
  | nil => rfl
  | @cons a a' _ _ ha _ ih =>
    by_cases hk : a.id = k
    · have hk' : a'.id = k := ha.1.trans hk
      rw [List.find?_cons_of_pos (by simpa using hk'), List.find?_cons_of_pos (by simpa using hk)]
      exact ha.2 hk
    · have hk' : ¬ a'.id = k := fun h => hk (ha.1.symm.trans h)
      rw [List.find?_cons_of_neg (by simpa using hk'), List.find?_cons_of_neg (by simpa using hk)]
      exact ih

theorem Store.attempt_persistOperationClaim (h : s.hasSibling op = false) (k : Nat) :
    (s.persistOperationClaim op owner).1.attempt k = s.attempt k := by
  refine attempt_congr ((s.charged_persistOperationClaim op owner).imp fun a a' hc => ⟨hc.1.id_eq, fun _ => ?_⟩)
  by_contra hne
  have := (hc.2 hne).2.2
  rw [h] at this
  cases this

theorem Store.persistApplyClaim_some {a c : Apply} (ha : a ∈ s.applies)
    (h : s.persistApplyClaim a owner = .ok (t, some c)) :
    c.attempt = (if a.state = .failedRetryable then a.attempt + 1 else a.attempt) ∧
      ∃ a' ∈ t.applies, a'.id = a.id ∧ a'.attempt = c.attempt := by
  have htrans : ∀ st, s.transitionClaimToState a st owner = (t, some c) →
      c.attempt = (if a.state = .failedRetryable then a.attempt + 1 else a.attempt) ∧
        ∃ a' ∈ t.applies, a'.id = a.id ∧ a'.attempt = c.attempt := by
    intro st h
    unfold transitionClaimToState at h
    dsimp only at h
    split at h
    · cases h
    · cases h
      exact ⟨rfl, _, Table.mem_update_of_pos ha (by simp), rfl, rfl⟩
  unfold persistApplyClaim at h
  split at h
  · unfold claimStoppedApplyUnderTargetLock at h
    dsimp only at h
    split at h
    · cases h
    · split at h
      · split at h <;> cases h
      · exact htrans _ (Except.ok.inj h)
  · split at h
    · exact htrans _ (Except.ok.inj h)
    · next hst =>
      cases h
      have hne : ¬ a.state = .failedRetryable := fun he => hst (.inr he)
      have hc : (claimedApply owner s a).attempt = a.attempt := by simp [claimedApply, hne]
      exact ⟨by rw [hc, if_neg hne], _, Table.mem_update_of_pos ha (by simp), rfl, hc.symm⟩

theorem call_claimApply_some {wanted : Store → Apply → Bool} {locked : Nat → Bool} {owner message : String}
    {c : Apply} (h : Method.call (claimApply wanted locked owner message) s = (t, .ok (some c))) :
    ∃ a ∈ s.applies, wanted s a = true ∧ s.persistApplyClaim a owner = .ok (t, some c) := by
  unfold claimApply at h
  split at h
  · cases h
  · rw [Method.call_bind_ok (Method.call_read _ _)] at h
    split at h
    · cases h
    · next a hsel =>
      rw [Method.call_transaction] at h
      split at h
      · next hp =>
        cases h
        have hw := Table.firstBy_pred hsel
        simp only [Bool.and_eq_true] at hw
        exact ⟨a, Table.firstBy_mem hsel, hw.1, hp⟩
      · cases h

end

/-! ## Runs -/

structure Fleet.Sound (w : Fleet) : Prop where
  wf : w.store.WF
  bounded : ∀ a ∈ w.store.applies, a.attempt ≤ maxRecoveryAttempts
  copies : ∀ a ∈ w.copies, a.attempt ≤ maxRecoveryAttempts
  passes : ∀ p ∈ w.passes, p.stage ≠ .driving → p.stage ≠ .ended →
    p.charged = 0 ∨ w.store.hasSibling p.op = true ∧ p.stage ≠ .selected

section
variable {w : Fleet} {a : FleetAction}

structure Fleet.StoreStep (w : Fleet) (a : FleetAction) : Prop where
  next : w.store.Next (w.step a).store
  bounded : ∀ x ∈ (w.step a).store.applies, x.attempt ≤ maxRecoveryAttempts
  charges : a.isUpdate = false → ∀ x x', (x, x') ∈ w.store.applies.zip (w.step a).store.applies →
    x'.attempt = x.attempt ∨
      x'.attempt = x.attempt + 1 ∧ x.state = .failedRetryable ∧ a.mayCharge w x.id = true

theorem Fleet.Sound.storeStep_of_eq (hw : w.Sound) (h : (w.step a).store = w.store) : w.StoreStep a := by
  refine ⟨by rw [h]; exact .refl hw.wf, by rw [h]; exact hw.bounded, fun _ x x' hx => .inl ?_⟩
  rw [h] at hx
  rw [Table.eq_of_mem_zip_self hx]

theorem Fleet.Sound.storeStep_of_charged (hw : w.Sound) (hnext : w.store.Next (w.step a).store)
    (h : Table.Grows (Apply.ChargedIf fun x => a.mayCharge w x.id = true) (·.attempt = 0) w.store.applies (w.step a).store.applies) : w.StoreStep a := by
  refine ⟨hnext, fun x' hx' => ?_, fun _ x x' hx => ?_⟩
  · rcases h.origin hx' with ⟨x, hx, hc, -⟩ | h0
    · exact hc.le (hw.bounded x hx)
    · rw [h0]; exact Nat.zero_le _
  · obtain ⟨hc, hmay⟩ := h.zip (x, x') hx
    rcases hc.attempt_eq with he | ⟨he, hst, -⟩
    · exact .inl he
    · exact .inr ⟨he, hst, hmay (by omega)⟩

theorem Fleet.onPass_cases (w : Fleet) (n : Nat) (stage : PassStage) (f : RecoveryPass → Fleet) :
    w.onPass n stage f = w ∨
      ∃ p, w.passes[n]? = some p ∧ p.stage = stage ∧ w.onPass n stage f = f p := by
  unfold onPass
  split
  · next p hp =>
    split
    · next hst => exact .inr ⟨p, hp, hst, rfl⟩
    · exact .inl rfl
  · exact .inl rfl

theorem Fleet.claimApplyStep_store (n : Nat) (locked : Nat → Bool) (p : RecoveryPass) :
    (w.claimApplyStep n locked p).store =
      (Method.call (claimApplyByID p.op.applyId p.owner locked) w.store).1 := by
  unfold claimApplyStep
  split
  · next h => rw [h]; rfl
  · next h => rw [h]; rfl

theorem Fleet.Sound.storeStep (hw : w.Sound) (a : FleetAction) : w.StoreStep a := by
  cases a with
  | select owner locked =>
    refine hw.storeStep_of_eq ?_
    simp only [Fleet.step]
    split
    · rfl
    · unfold Fleet.selectStep; split <;> rfl
  | read applyId => exact hw.storeStep_of_eq rfl
  | inspect n =>
    refine hw.storeStep_of_eq ?_
    rcases w.onPass_cases n .claimed (w.inspectStep n) with h | ⟨p, -, -, h⟩
    · simp only [Fleet.step, h]
    · simp only [Fleet.step, h]; rfl
  | claim n =>
    rcases w.onPass_cases n .selected (w.claimStep n) with h | ⟨p, hp, -, h⟩
    · exact hw.storeStep_of_eq (by simp only [Fleet.step, h])
    · have hstore : (w.step (.claim n)).store = (w.store.persistOperationClaim p.op p.owner).1 := by
        simp only [Fleet.step, h]; rfl
      refine hw.storeStep_of_charged (by rw [hstore]; exact hw.wf.next_persistOperationClaim p.op p.owner) ?_
      rw [hstore]
      refine .of_forall₂ ((w.store.charged_persistOperationClaim p.op p.owner).imp
        fun x x' hc => ⟨hc.1, fun hne => ?_⟩)
      simp [FleetAction.mayCharge, hp, (hc.2 hne).1]
  | claimApply n locked =>
    rcases w.onPass_cases n .single (w.claimApplyStep n locked) with h | ⟨p, hp, -, h⟩
    · exact hw.storeStep_of_eq (by simp only [Fleet.step, h])
    · have hstore : (w.step (.claimApply n locked)).store =
          w.store.after (.claimApplyByID p.op.applyId p.owner locked) := by
        simp only [Fleet.step, h]
        rw [w.claimApplyStep_store, Store.after, Call.method, Method.call_discard]
      refine hw.storeStep_of_charged (by rw [hstore]; exact hw.wf.next_after _) ?_
      rw [hstore, Store.after, Call.method, Method.call_discard]
      refine .of_forall₂ ((Store.charged_claimApplyByID hw.wf p.op.applyId p.owner locked).imp
        fun x x' hc => ⟨hc.1, fun hne => ?_⟩)
      simp [FleetAction.mayCharge, hp, hc.2 hne]
  | update ctx copy apply =>
    by_cases hc : copy ∈ w.copies ∧ apply.attempt = copy.attempt
    · have hstore : (w.step (.update ctx copy apply)).store = w.store.after (.update ctx apply) := by
        simp only [Fleet.step, if_pos hc]
      refine ⟨by rw [hstore]; exact hw.wf.next_after _, ?_, fun h => by cases h⟩
      rw [hstore]
      intro x' hx'
      rcases call_update ctx apply w.store with ⟨e, he⟩ | ⟨lease, -, -, -, he⟩
      · rw [Store.after, Call.method, he] at hx'
        exact hw.bounded x' hx'
      · rw [Store.after, Call.method, he] at hx'
        obtain ⟨x, hx, rfl⟩ := Table.mem_update.1 hx'
        split
        · exact hc.2 ▸ hw.copies copy hc.1
        · exact hw.bounded x hx
    · exact hw.storeStep_of_eq (by simp only [Fleet.step, if_neg hc])
  | call c =>
    by_cases hc : c.keepsBudget = true
    · have hstore : (w.step (.call c)).store = w.store.after c := by simp only [Fleet.step, if_pos hc]
      refine hw.storeStep_of_charged (by rw [hstore]; exact hw.wf.next_after c) ?_
      rw [hstore]
      exact c.charged hw.wf hc
    · exact hw.storeStep_of_eq (by simp only [Fleet.step, if_neg hc])

theorem Fleet.move_passes {n m : Nat} {p : RecoveryPass} (hp : w.passes[n]? = some p) (t : Store)
    (stage : PassStage) : (w.move n p t stage).passes[m]? = if m = n then
      some { p with stage, charged := p.charged + (t.attempt p.op.applyId - w.store.attempt p.op.applyId) }
      else w.passes[m]? := by
  have hn : n < w.passes.length := (List.getElem?_eq_some_iff.1 hp).1
  unfold move
  by_cases hm : m = n
  · subst hm
    rw [if_pos rfl, List.getElem?_set_self hn]
  · rw [if_neg hm, List.getElem?_set_ne (Ne.symm hm)]

theorem Fleet.passes_step (a : FleetAction) {n : Nat} {p' : RecoveryPass} (hp' : (w.step a).passes[n]? = some p') :
    w.passes[n]? = some p' ∨ (p'.stage = .selected ∧ p'.charged = 0) ∨
      ∃ p, w.passes[n]? = some p ∧ p'.op = p.op ∧ p'.stage ≠ .selected ∧
        p'.charged = p.charged + ((w.step a).store.attempt p.op.applyId - w.store.attempt p.op.applyId) ∧
        ((a = .claim n ∧ p.stage = .selected ∧ p'.stage ≠ .driving ∧
            (w.step a).store = (w.store.persistOperationClaim p.op p.owner).1) ∨
          (a = .inspect n ∧ p.stage = .claimed ∧ (w.step a).store = w.store ∧
            (p'.stage = .driving → w.store.hasSibling p.op = true ∨ w.store.hasTasks p.op.id = false)) ∨
          (∃ locked, a = .claimApply n locked ∧ p.stage = .single ∧
            (p'.stage = .ended ∨ p'.stage = .driving ∧ ∃ c,
              Method.call (claimApplyByID p.op.applyId p.owner locked) w.store =
                ((w.step a).store, .ok (some c))))) := by
  cases a with
  | select owner locked =>
    simp only [Fleet.step] at hp'
    split at hp'
    · exact .inl hp'
    · unfold Fleet.selectStep at hp'
      split at hp'
      · simp only [List.getElem?_append] at hp'
        split at hp'
        · exact .inl hp'
        · have hmem := List.mem_of_getElem? hp'
          rw [List.mem_singleton.1 hmem]
          exact .inr (.inl ⟨rfl, rfl⟩)
      · exact .inl hp'
  | read applyId => exact .inl hp'
  | update ctx copy apply | call c =>
    simp only [Fleet.step] at hp'
    split at hp' <;> exact .inl hp'
  | claim m =>
    rcases w.onPass_cases m .selected (w.claimStep m) with h | ⟨p, hp, hst, h⟩
    · simp only [Fleet.step, h] at hp'
      exact .inl hp'
    · simp only [Fleet.step, h, Fleet.claimStep, Fleet.move_passes hp] at hp' ⊢
      split at hp'
      · next hm =>
        subst hm
        cases hp'
        refine .inr (.inr ⟨p, hp, rfl, ?_, rfl, .inl ⟨rfl, hst, ?_, rfl⟩⟩) <;> dsimp only <;> split <;>
          decide
      · exact .inl hp'
  | inspect m =>
    rcases w.onPass_cases m .claimed (w.inspectStep m) with h | ⟨p, hp, hst, h⟩
    · simp only [Fleet.step, h] at hp'
      exact .inl hp'
    · simp only [Fleet.step, h, Fleet.inspectStep, Fleet.move_passes hp] at hp' ⊢
      split at hp'
      · next hm =>
        subst hm
        cases hp'
        refine .inr (.inr ⟨p, hp, rfl, ?_, rfl, .inr (.inl ⟨rfl, hst, rfl, fun hd => ?_⟩)⟩)
        · dsimp only
          split <;> decide
        · split at hd
          · next hc => simpa using hc
          · cases hd
      · exact .inl hp'
  | claimApply m locked =>
    rcases w.onPass_cases m .single (w.claimApplyStep m locked) with h | ⟨p, hp, hst, h⟩
    · simp only [Fleet.step, h] at hp'
      exact .inl hp'
    · simp only [Fleet.step, h, Fleet.claimApplyStep] at hp' ⊢
      rcases hcall : Method.call (claimApplyByID p.op.applyId p.owner locked) w.store with ⟨t, r⟩
      rw [hcall] at hp'
      rcases r with e | _ | c
      all_goals
        simp only [Fleet.move_passes hp] at hp' ⊢
        split at hp'
        · next hm =>
          subst hm
          cases hp'
          refine .inr (.inr ⟨p, hp, rfl, nofun, rfl, .inr (.inr ⟨locked, rfl, hst, ?_⟩)⟩)
          first | exact .inl rfl | exact .inr ⟨rfl, c, hcall⟩
        · exact .inl hp'

theorem Fleet.Sound.copies_step (hw : w.Sound) (a : FleetAction) :
    ∀ c ∈ (w.step a).copies, c.attempt ≤ maxRecoveryAttempts := by
  intro c hc
  cases a with
  | select owner locked =>
    simp only [Fleet.step] at hc
    split at hc
    · exact hw.copies c hc
    · unfold Fleet.selectStep at hc
      split at hc <;> exact hw.copies c hc
  | claim n =>
    rcases w.onPass_cases n .selected (w.claimStep n) with h | ⟨p, -, -, h⟩ <;>
      simp only [Fleet.step, h] at hc <;> exact hw.copies c hc
  | inspect n =>
    rcases w.onPass_cases n .claimed (w.inspectStep n) with h | ⟨p, -, -, h⟩ <;>
      simp only [Fleet.step, h] at hc <;> exact hw.copies c hc
  | claimApply n locked =>
    rcases w.onPass_cases n .single (w.claimApplyStep n locked) with h | ⟨p, -, -, h⟩
    · simp only [Fleet.step, h] at hc
      exact hw.copies c hc
    · simp only [Fleet.step, h, Fleet.claimApplyStep] at hc
      split at hc
      · next t a hcall =>
        rcases List.mem_cons.1 hc with rfl | hc
        · obtain ⟨a, ha, hwanted, hpersist⟩ := call_claimApply_some hcall
          rw [(Store.persistApplyClaim_some ha hpersist).1]
          simp only [Bool.and_eq_true] at hwanted
          split
          · next hst => exact Store.attempt_lt_of_claimable hwanted.2 hst
          · exact hw.bounded a ha
        · exact hw.copies c hc
      · exact hw.copies c hc
  | read applyId =>
    rcases List.mem_append.1 hc with hc | hc
    · cases hget : w.store.getApply applyId with
      | none => rw [hget] at hc; cases hc
      | some a =>
        rw [hget] at hc
        rw [List.mem_singleton.1 hc]
        exact hw.bounded a (Store.getApply_some hget).1
    · exact hw.copies c hc
  | update ctx copy apply | call c' =>
    simp only [Fleet.step] at hc
    split at hc <;> exact hw.copies c hc

theorem Fleet.Sound.step (hw : w.Sound) (a : FleetAction) : (w.step a).Sound := by
  have hstore := hw.storeStep a
  refine ⟨hstore.next.wf, hstore.bounded, hw.copies_step a, fun p' hp' hdriving hended => ?_⟩
  obtain ⟨n, hn⟩ := List.mem_iff_getElem?.1 hp'
  rcases Fleet.passes_step a hn with hp | ⟨-, h0⟩ | ⟨p, hp, hop, hsel, hcharged, hstep⟩
  · exact (hw.passes p' (List.mem_of_getElem? hp) hdriving hended).imp id fun h =>
      ⟨hstore.next.hasSibling h.1, h.2⟩
  · exact .inl h0
  · have hpass := hw.passes p (List.mem_of_getElem? hp)
    rw [hop]
    by_cases hsib : w.store.hasSibling p.op = true
    · exact .inr ⟨hstore.next.hasSibling hsib, hsel⟩
    · -- without siblings, neither the claim nor the inspection of the operation charges
      refine .inl ?_
      rcases hstep with ⟨-, hst, -, hs⟩ | ⟨-, hst, hs, -⟩ | ⟨locked, -, -, hst⟩
      · rw [hcharged, hs, Store.attempt_persistOperationClaim (by simpa using hsib), Nat.sub_self,
          (hpass (by simp [hst]) (by simp [hst])).resolve_right fun h => hsib h.1]
      · rw [hcharged, hs, Nat.sub_self,
          (hpass (by simp [hst]) (by simp [hst])).resolve_right fun h => hsib h.1]
      · rcases hst with h | ⟨h, -⟩
        · exact absurd h hended
        · exact absurd h hdriving

theorem Fleet.Sound.attempt_claimApplyByID (hw : w.Sound) {applyId : Nat} {owner : String}
    {locked : Nat → Bool} {t : Store} {c : Apply} (ht : t.WF)
    (h : Method.call (claimApplyByID applyId owner locked) w.store = (t, .ok (some c))) :
    t.attempt applyId - w.store.attempt applyId = if w.store.parentRetryable applyId then 1 else 0 := by
  obtain ⟨a, ha, hwanted, hpersist⟩ := call_claimApply_some h
  simp only [Bool.and_eq_true, decide_eq_true_eq] at hwanted
  obtain ⟨hc, a', ha', hid, hattempt⟩ := Store.persistApplyClaim_some ha hpersist
  rw [← hwanted.1, hw.wf.attempt_of_mem ha, hw.wf.parentRetryable_of_mem ha, ← hid, ht.attempt_of_mem ha',
    hattempt, hc]
  by_cases hst : a.state = .failedRetryable
  · simp [hst]
  · simp [hst]

theorem Fleet.Sound.withinBudget (hw : w.Sound) (ha : w.skipsBudget a = false) : w.WithinBudget a := by
  have hstore := hw.storeStep a
  refine ⟨hstore.bounded, hstore.charges, fun n p p' hp hp' hst hst' hsib => ?_⟩
  have hpass := hw.passes p (List.mem_of_getElem? hp)
  rcases Fleet.passes_step a hp' with hsame | ⟨hsel, -⟩ | ⟨q, hq, hop, -, hcharged, hstep⟩
  · rw [hp] at hsame
    cases hsame
    exact absurd hst' hst
  · rw [hsel] at hst'
    cases hst'
  · rw [hp] at hq
    cases hq
    have h0 : p.stage ≠ .ended → p.charged = 0 := fun hended =>
      (hpass hst hended).resolve_right fun h => by rw [hsib] at h; exact absurd h.1 (by decide)
    rcases hstep with ⟨-, -, hne, -⟩ | ⟨rfl, hclaimed, hs, htasks⟩ | ⟨locked, -, hsingle, hend⟩
    · exact absurd hst' hne
    · -- the operation has no tasks, so its apply is not retryable
      have hnone : w.store.hasTasks p.op.id = false := by
        rcases htasks hst' with h | h
        · rw [hsib] at h; cases h
        · exact h
      have hparent : w.store.parentRetryable p.op.applyId = false := by
        simpa [Fleet.skipsBudget, hp, hclaimed, hsib, hnone] using ha
      rw [hcharged, hs, Nat.sub_self, h0 (by simp [hclaimed]), hparent]
      rfl
    · rcases hend with hend | ⟨-, c, hcall⟩
      · rw [hend] at hst'; cases hst'
      · rw [hcharged, h0 (by simp [hsingle]), hw.attempt_claimApplyByID hstore.next.wf hcall, Nat.zero_add]

theorem Fleet.sound_empty : ({} : Fleet).Sound :=
  ⟨Store.wf_empty, List.forall_mem_nil _, List.forall_mem_nil _, List.forall_mem_nil _⟩

end

/-- In a run of passes and other calls that never redispatches a retryable apply whose only operation has
no tasks, the budget is kept: no counter exceeds the bound, each claim charges one unit at most, and only
a retryable apply, and a pass that starts to drive the only operation of an apply has charged exactly one
unit if the apply was retryable, and nothing if it was not. -/
theorem retries_within_budget {as : List FleetAction}
    (h : Transition.Along Fleet.step (fun w a => w.skipsBudget a = false) {} as) :
    Transition.Along Fleet.step Fleet.WithinBudget {} as :=
  Transition.Along.of_invariant (fun _ a hw _ => Fleet.Sound.step hw a)
    (fun _ _ hw ha => Fleet.Sound.withinBudget hw ha) Fleet.sound_empty h

def retriedOnce : List FleetAction :=
  [.call sampleCreate, .select "operator-1" fun _ => false, .claim 0, .inspect 0,
    .claimApply 0 fun _ => false,
    .call (.updateState { operationLease := some ⟨1, 1, 1⟩ } 1 .failedRetryable),
    .call (.updateDerivedState { applyLease := some ⟨1, 2⟩ } 1 .running .failedRetryable "" none none),
    .select "operator-2" fun _ => false, .claim 1, .inspect 1, .claimApply 1 fun _ => false]

/-- The second pass is charged for the retry. -/
theorem retries_within_budget_once :
    (Transition.run Fleet.step {} retriedOnce).passes.map (fun p => (p.stage, p.charged)) =
        [(.driving, 0), (.driving, 1)] ∧
      Transition.Along Fleet.step Fleet.WithinBudget {} retriedOnce :=
  ⟨by decide, retries_within_budget (by decide)⟩

/-! ## An operation without tasks -/

def retriedWithoutTasks : List FleetAction :=
  [.call (.createWithGroupedOperations sampleApply
      [{ operation := { deployment := "eu" }, tasks := [], allowTaskless := true }]),
    .select "operator-1" fun _ => false, .claim 0, .inspect 0,
    .call (.updateState { operationLease := some ⟨1, 1, 1⟩ } 1 .failedRetryable),
    .call (.updateDerivedState { operationLease := some ⟨1, 1, 1⟩ } 1 .pending .failedRetryable "" none
      none),
    .select "operator-2" fun _ => false, .claim 1]

/-- The second pass drives the operation of the retryable apply without a charge; the counter of the apply
stays at zero. -/
theorem taskless_retry_not_charged :
    let w := Transition.run Fleet.step {} retriedWithoutTasks
    let w' := w.step (.inspect 1)
    w.store.parentRetryable 1 = true ∧ w.passes.map (fun p => w.store.hasSibling p.op) = [false, false] ∧
      w'.passes.map (fun p => (p.stage, p.charged)) = [(.driving, 0), (.driving, 0)] ∧
      w'.store.applies.map (·.attempt) = [0] ∧ w'.store.operations.map (·.attempt) = [1] := by
  decide

end SchemaBot
