import SchemaBot.Lib.Reports
import SchemaBot.Operator.World

/-!
# Projections side by side

Operators that finish operations of one apply at the same moment all project it.
-/

namespace SchemaBot

open Concurrent

/-! ## The system -/

structure ApplyProjectionResult where
  swapped : Bool
  previousState : ApplyState
  derivedState : ApplyState
  becameTerminal : Bool
  operationCount : Nat
  deriving DecidableEq

/-- What `updateApplyStateFromOperations` returns. -/
def projectionResult (apply : Apply) (ops : List ApplyOperation) (swapped : Bool) : ApplyProjectionResult :=
  { swapped
    previousState := apply.state
    derivedState := derivedState ops
    becameTerminal := swapped && !apply.state.isTerminal && (derivedState ops).isTerminal
    operationCount := ops.length }

/-- `updateApplyStateFromOperations` with its result. -/
def projectFromOperations (ctx : Ctx) (apply : Apply) (reopen : Bool) : StoreMethod ApplyProjectionResult := do
  let ops ← Method.read (·.listByApply apply.id)
  let swapped ← writeProjection ctx apply ops reopen
  pure (projectionResult apply ops swapped)

def Ctx.leased (ctx : Ctx) : Bool := ctx.applyLease.isSome || ctx.operationLease.isSome

structure Projector where
  ctx : Ctx
  apply : Apply
  rest : Prog Store (Except StoreError ApplyProjectionResult)

def Projector.announced (p : Projector) : Bool :=
  match p.rest with
  | .ret (.ok r) => r.becameTerminal
  | _ => false

structure Board where
  store : Store := {}
  projectors : List Projector := []

/-- An operator reads an apply to project it, the `n`-th projection makes its next statement, or someone
makes another call. -/
inductive BoardAction
  | load (ctx : Ctx) (applyId : Nat)
  | advance (n : Nat)
  | call (c : Call)

def Board.step (b : Board) : BoardAction → Board
  | .load ctx applyId =>
    match b.store.getApply applyId with
    | some apply =>
      { b with projectors := b.projectors ++ [⟨ctx, apply, (projectFromOperations ctx apply ctx.leased).run⟩] }
    | none => b
  | .advance n =>
    match b.projectors[n]? with
    | some p =>
      { store := (p.rest.next b.store).1
        projectors := b.projectors.set n { p with rest := (p.rest.next b.store).2 } }
    | none => b
  | .call c => { b with store := (Method.call c.method b.store).1 }

/-- The `n`-th projector has been told that it ended its apply. -/
def Board.announced (b : Board) (n : Nat) : Bool := b.projectors[n]?.any (·.announced)

/-- The move from `s` to `t` takes the apply from an open to a terminal state. -/
def Store.becomesTerminal (s : Store) (applyId : Nat) (t : Store) : Bool :=
  (s.applies.zip t.applies).any fun (x, x') =>
    x.id = applyId && !x.state.isTerminal && x'.state.isTerminal

/-- The context carries a lease that is current and authorizes projections onto `a`. -/
def Store.leasesProjection (s : Store) (ctx : Ctx) (a : Apply) : Bool :=
  match derivedStateGuardForContext ctx a.id with
  | .error _ | .ok .unguarded => false
  | .ok guard => guard.derivedStatePredicate s a

/-! ## What a statement of a projection does -/

def Store.ProjectionMove (ctx : Ctx) (apply : Apply) (s t : Store) : Prop :=
  t = s ∨ ∃ guard newState errorMessage startedAt completedAt,
    derivedStateGuardForContext ctx apply.id = .ok guard ∧
    (apply.state.isTerminal = true → newState.isTerminal = true ∨
      apply.state = .failed ∧ newState = .runningDegraded ∧ ctx.leased = true) ∧
    t = s.updateApplies (derivedStateRow guard apply.id apply.state)
      (assignDerived newState errorMessage startedAt completedAt)

theorem projectApply_terminal {now : Nat} {apply : Apply} {ops : List ApplyOperation} {reopen : Bool}
    {p : Projected} (h : projectApply now apply ops reopen = .ok (some p))
    (happly : apply.state.isTerminal = true) :
    p.state.isTerminal = true ∨ apply.state = .failed ∧ p.state = .runningDegraded ∧ reopen = true := by
  rw [projectApply_state h]
  unfold projectApply at h
  dsimp only at h
  split at h
  · cases h
  · split at h
    · cases h
    · next hguard =>
      by_cases hd : (derivedState ops).isTerminal = true
      · exact .inl hd
      · have hreopen : reopensContinuableFailedRollout apply ops reopen = true := by
          by_contra hr
          exact hguard ⟨happly, by simpa using hd, by simpa using hr⟩
        simp only [reopensContinuableFailedRollout, Bool.and_eq_true, decide_eq_true_eq] at hreopen
        exact .inr ⟨hreopen.1.1.2, hreopen.2, hreopen.1.1.1⟩

/-- What `UpdateDerivedState` does after its write: a write that affected no row counts as done only
where it had nothing to change. -/
def swapOutcome (guard : WriteGuard) (applyId : Nat) (expected newState : ApplyState) (rows : Nat) :
    StoreMethod Bool :=
  if 0 < rows then pure true
  else do
    guard.ensureStillOwned applyId
    if newState.normalize ≠ expected.normalize then pure false
    else Method.read fun s =>
      match s.getApply applyId with
      | none => false
      | some a => a.state.normalize = expected.normalize

theorem updateDerivedState_eq {ctx : Ctx} {applyId : Nat} {guard : WriteGuard}
    (h : derivedStateGuardForContext ctx applyId = .ok guard) (expected newState : ApplyState)
    (errorMessage : String) (startedAt completedAt : Option Nat) :
    updateDerivedState ctx applyId expected newState errorMessage startedAt completedAt =
      execApplies (derivedStateRow guard applyId expected)
        (assignDerived newState errorMessage startedAt completedAt) >>=
      swapOutcome guard applyId expected newState := by
  unfold updateDerivedState
  rw [h]
  rfl

theorem updateDerivedState_error {ctx : Ctx} {applyId : Nat} {e : StoreError}
    (h : derivedStateGuardForContext ctx applyId = .error e) (expected newState : ApplyState)
    (errorMessage : String) (startedAt completedAt : Option Nat) :
    updateDerivedState ctx applyId expected newState errorMessage startedAt completedAt = throw e := by
  unfold updateDerivedState
  rw [h]
  rfl

theorem ensureStillOwned_always {G : Store → Store → Prop} (hG : ∀ s, G s s) (guard : WriteGuard)
    (applyId : Nat) : Method.Only G (guard.ensureStillOwned applyId) := by
  cases guard with
  | unguarded => exact .pure _
  | apply lease => exact always_ensureApplyLeaseStillOwned hG lease
  | operation lease => exact always_ensureOperationLeaseOwnsApply hG lease applyId

theorem swapOutcome_always {G : Store → Store → Prop} (hG : ∀ s, G s s) (guard : WriteGuard)
    (applyId : Nat) (expected newState : ApplyState) (rows : Nat) :
    Method.Only G (swapOutcome guard applyId expected newState rows) := by
  unfold swapOutcome
  split
  · exact .pure _
  · refine .bind (ensureStillOwned_always hG guard applyId) fun _ => ?_
    split
    · exact .pure _
    · exact .read hG _

section
variable (ctx : Ctx) (apply : Apply)

theorem Store.ProjectionMove.refl (s : Store) : s.ProjectionMove ctx apply s := .inl rfl

theorem projectionMove_updateDerivedState {newState : ApplyState} (errorMessage : String)
    (startedAt completedAt : Option Nat) (h : apply.state.isTerminal = true → newState.isTerminal = true ∨
      apply.state = .failed ∧ newState = .runningDegraded ∧ ctx.leased = true) :
    Method.Only (Store.ProjectionMove ctx apply)
      (updateDerivedState ctx apply.id apply.state newState errorMessage startedAt completedAt) := by
  have hrefl := Store.ProjectionMove.refl ctx apply
  cases hguard : derivedStateGuardForContext ctx apply.id with
  | error e => rw [updateDerivedState_error hguard]; exact .throw e
  | ok guard =>
    rw [updateDerivedState_eq hguard]
    refine .bind (.step fun s => ?_) fun rows => swapOutcome_always hrefl guard apply.id _ _ _
    exact .inr ⟨guard, newState, errorMessage, startedAt, completedAt, hguard, h, rfl⟩

theorem projectionMove_projectFromOperations : Method.Only (Store.ProjectionMove ctx apply)
      (projectFromOperations ctx apply ctx.leased) := by
  have hrefl := Store.ProjectionMove.refl ctx apply
  refine .bind (.read hrefl _) fun ops => .bind (.bind (.read hrefl _) fun now => ?_) fun _ => .pure _
  cases hp : projectApply now apply ops ctx.leased with
  | error e => exact .throw e
  | ok projected =>
    cases projected with
    | none => exact .pure _
    | some p =>
      exact projectionMove_updateDerivedState ctx apply p.errorMessage p.startedAt p.completedAt
        (projectApply_terminal hp)

end

/-! ## What a projection reports -/

theorem isTerminal_congr {a b : ApplyState} (h : a.normalize = b.normalize) : a.isTerminal = b.isTerminal := by
  revert h
  cases a <;> cases b <;> decide

theorem Store.not_becomesTerminal_self (s : Store) (applyId : Nat) : ¬ s.becomesTerminal applyId s = true := by
  intro h
  obtain ⟨⟨x, x'⟩, hx, h⟩ := List.any_eq_true.1 h
  have heq : x' = x := Table.eq_of_mem_zip_self hx
  subst heq
  simp only [Bool.and_eq_true] at h
  rw [h.2] at h
  exact absurd h.1.2 (by decide)

theorem Store.becomesTerminal_updateDerived (s : Store) (guard : WriteGuard) (applyId : Nat)
    (expected newState : ApplyState) (errorMessage : String) (startedAt completedAt : Option Nat) :
    s.becomesTerminal applyId (s.updateApplies (derivedStateRow guard applyId expected)
        (assignDerived newState errorMessage startedAt completedAt)) = true ↔
      (expected.isTerminal = false ∧ newState.isTerminal = true) ∧
        Table.affected (derivedStateRow guard applyId expected s)
          (assignDerived newState errorMessage startedAt completedAt s) s.applies ≠ 0 := by
  unfold becomesTerminal updateApplies
  rw [Table.zip_update, List.any_map, List.any_eq_true, ne_eq, Table.affected_eq_zero]
  constructor
  · rintro ⟨x, hx, h⟩
    simp only [Function.comp, Bool.and_eq_true, Bool.not_eq_true'] at h
    obtain ⟨⟨-, hopen⟩, hterm⟩ := h
    by_cases hrow : derivedStateRow guard applyId expected s x = true
    · rw [if_pos hrow] at hterm
      have hstate : x.state = expected := by
        simp only [derivedStateRow, Bool.and_eq_true, decide_eq_true_eq] at hrow
        exact hrow.1.2
      refine ⟨⟨hstate ▸ hopen, hterm⟩, fun hall => ?_⟩
      rw [hall x hx hrow, hopen] at hterm
      cases hterm
    · rw [if_neg hrow, hopen] at hterm
      cases hterm
  · rintro ⟨⟨hopen, hterm⟩, hne⟩
    push Not at hne
    obtain ⟨x, hx, hrow, -⟩ := hne
    refine ⟨x, hx, ?_⟩
    simp only [Function.comp, if_pos hrow]
    simp only [derivedStateRow, Bool.and_eq_true, decide_eq_true_eq] at hrow
    simp only [hrow.1.1, hrow.1.2, hopen, decide_true]
    exact hterm

theorem swapOutcome_zero (guard : WriteGuard) (applyId : Nat) (expected newState : ApplyState) :
    Method.Ensures (fun _ => True) (fun s t => ¬ s.becomesTerminal applyId t = true)
      (Method.OnOk fun swapped => swapped = true → newState.normalize = expected.normalize)
      (swapOutcome guard applyId expected newState 0) := by
  have hrefl : ∀ s : Store, ¬ s.becomesTerminal applyId s = true := fun s =>
    s.not_becomesTerminal_self applyId
  unfold swapOutcome
  refine .bind ((ensureStillOwned_always hrefl guard applyId).mono fun r _ => ?_)
  cases r with
  | error e => trivial
  | ok _ =>
    dsimp only
    split
    · exact .pure nofun
    · next h => exact .read hrefl fun s _ _ => not_not.1 h

section
variable (ctx : Ctx) (apply : Apply)

/-- The compare-and-swap and its report. Where no row was affected, nothing more is written, and the
write can only count as done for a state that did not change. -/
theorem faithful_updateDerivedState (ops : List ApplyOperation) (errorMessage : String)
    (startedAt completedAt : Option Nat) :
    Method.Faithful (fun s t => s.becomesTerminal apply.id t = true) (·.becameTerminal = true)
      (updateDerivedState ctx apply.id apply.state (derivedState ops) errorMessage startedAt completedAt >>=
        fun swapped => (pure (projectionResult apply ops swapped) : StoreMethod ApplyProjectionResult)) := by
  cases hguard : derivedStateGuardForContext ctx apply.id with
  | error e => rw [updateDerivedState_error hguard]; exact .throw e
  | ok guard =>
    rw [updateDerivedState_eq hguard]
    refine Method.Faithful.write_bind
      (g := fun rows => swapOutcome guard apply.id apply.state (derivedState ops) rows >>= fun swapped =>
        pure (projectionResult apply ops swapped)) fun s => ?_
    have hmove := s.becomesTerminal_updateDerived guard apply.id apply.state (derivedState ops)
      errorMessage startedAt completedAt
    generalize Table.affected (derivedStateRow guard apply.id apply.state s)
      (assignDerived (derivedState ops) errorMessage startedAt completedAt s) s.applies = rows at hmove ⊢
    by_cases hrows : rows = 0
    · subst hrows
      refine .inr ⟨fun h => (hmove.1 h).2 rfl, .bind
        (swapOutcome_zero guard apply.id apply.state (derivedState ops)) ?_⟩
      -- a write that changes nothing keeps the state, so it ends nothing
      intro swapped hswapped
      refine .pure ?_
      cases swapped with
      | false => simp [projectionResult]
      | true => simp [projectionResult, isTerminal_congr (hswapped rfl)]
    · have hdone : swapOutcome guard apply.id apply.state (derivedState ops) rows = pure true :=
        if_pos (Nat.pos_of_ne_zero hrows)
      rw [hdone]
      by_cases hends : apply.state.isTerminal = false ∧ (derivedState ops).isTerminal = true
      · exact .inl ⟨hmove.2 ⟨hends, hrows⟩, _, by simp [projectionResult, hends.1, hends.2], rfl⟩
      · refine .inr ⟨fun h => hends (hmove.1 h).1, .pure ?_⟩
        intro hreport
        simp only [projectionResult, Bool.and_eq_true, Bool.not_eq_true'] at hreport
        exact hends ⟨hreport.1.2, hreport.2⟩

theorem faithful_projectFromOperations :
    Method.Faithful (fun s t => s.becomesTerminal apply.id t = true) (·.becameTerminal = true)
      (projectFromOperations ctx apply ctx.leased) := by
  have hrefl : ∀ s : Store, ¬ s.becomesTerminal apply.id s = true := fun s =>
    s.not_becomesTerminal_self apply.id
  refine .read_bind hrefl fun s => ?_
  generalize s.listByApply apply.id = ops
  refine fun s => .inr ⟨hrefl s, ?_⟩
  show Method.Faithful _ _ ((Method.lift (projectApply s.now apply ops ctx.leased) >>= _) >>= _)
  generalize s.now = now
  cases hp : projectApply now apply ops ctx.leased with
  | error e => exact .throw e
  | ok projected =>
    cases projected with
    | none => exact .pure (by simp [projectionResult])
    | some p =>
      have h := faithful_updateDerivedState ctx apply ops p.errorMessage p.startedAt p.completedAt
      rw [← projectApply_state hp] at h
      exact h

end

/-! ## Runs -/

/-- What a statement of the projection `p`, which takes the board from `b` to `b'`, has to respect. -/
structure Board.Lawful (b : Board) (p : Projector) (b' : Board) : Prop where
  /-- One operator is told about an apply that ends. -/
  reported : b.store.becomesTerminal p.apply.id b'.store = true →
    ∃! m, b'.announced m = true ∧ b.announced m = false
  /-- Nobody is told about anything else. -/
  silent : b.store.becomesTerminal p.apply.id b'.store = false → ∀ m, b'.announced m = b.announced m
  /-- What has been told stays so. -/
  kept : ∀ m, b.announced m = true → b'.announced m = true
  /-- Only the state of the projected apply moves, and from a terminal state it moves to a terminal state
  or is reopened by the holder of a lease. -/
  states : ∀ x x', (x, x') ∈ b.store.applies.zip b'.store.applies → x'.state ≠ x.state →
    x.id = p.apply.id ∧ (x.state.isTerminal = true → x'.state.isTerminal = true ∨
      x.state = .failed ∧ x'.state = .runningDegraded ∧ b.store.leasesProjection p.ctx x = true)
  /-- A stale projection changes nothing. -/
  stale : (∀ x ∈ b.store.applies, x.id = p.apply.id → x.state ≠ p.apply.state) → b'.store = b.store

def Board.Law (b : Board) : BoardAction → Prop
  | .advance n => ∀ p, b.projectors[n]? = some p → b.Lawful p (b.step (.advance n))
  | a => ∀ m, (b.step a).announced m = b.announced m

structure Projector.Honest (p : Projector) : Prop where
  moves : p.rest.Ensures (fun _ => True) (Store.ProjectionMove p.ctx p.apply) fun _ => True
  reports : Prog.Faithful (fun s t => s.becomesTerminal p.apply.id t = true)
      (Method.Reported (·.becameTerminal = true)) p.rest ∨
    ∃ r, p.rest = .ret (.ok r) ∧ r.becameTerminal = true

section
variable {p : Projector} {apply : Apply} {ctx : Ctx}

theorem Projector.announced_eq_false (h : Prog.Faithful (fun s t => s.becomesTerminal p.apply.id t = true)
      (Method.Reported (·.becameTerminal = true)) p.rest) : p.announced = false := by
  unfold announced
  split
  · next r hr => rw [hr] at h; exact Bool.eq_false_iff.2 h
  · rfl

theorem Projector.announced_eq_true {r : ApplyProjectionResult} (hr : p.rest = .ret (.ok r))
    (h : r.becameTerminal = true) : p.announced = true := by
  unfold announced
  rw [hr]
  exact h

theorem Store.leasesProjection_of_guard {applyId : Nat} {guard : WriteGuard} {s : Store}
    {x : Apply} (hguard : derivedStateGuardForContext ctx applyId = .ok guard)
    (hleased : ctx.leased = true) (hid : x.id = applyId)
    (hx : guard.derivedStatePredicate s x = true) : s.leasesProjection ctx x = true := by
  unfold leasesProjection
  rw [hid, hguard]
  cases guard with
  | unguarded =>
    obtain ⟨applyLease, operationLease⟩ := ctx
    cases operationLease with
    | some lease =>
      simp only [derivedStateGuardForContext] at hguard
      split at hguard
      · cases hguard
      · split at hguard <;> cases hguard
    | none =>
      cases applyLease with
      | none => cases hleased
      | some lease =>
        simp only [derivedStateGuardForContext, applyLeaseFromContext] at hguard
        split at hguard <;> cases hguard
        next heq =>
          split at heq
          · cases heq
          · split at heq <;> cases heq
  | apply lease | operation lease => exact hx

theorem Store.ProjectionMove.states {s t : Store}
    (h : s.ProjectionMove ctx apply t) {x x' : Apply} (hx : (x, x') ∈ s.applies.zip t.applies)
    (hne : x'.state ≠ x.state) : x.id = apply.id ∧ (x.state.isTerminal = true → x'.state.isTerminal = true ∨
      x.state = .failed ∧ x'.state = .runningDegraded ∧ s.leasesProjection ctx x = true) := by
  rcases h with rfl | ⟨guard, newState, errorMessage, startedAt, completedAt, hguard, hterm, rfl⟩
  · exact absurd (congrArg Apply.state (Table.eq_of_mem_zip_self hx)) hne
  · rw [updateApplies, Table.zip_update, List.mem_map] at hx
    obtain ⟨y, -, hy⟩ := hx
    cases hy
    by_cases hrow : derivedStateRow guard apply.id apply.state s x = true
    · rw [if_pos hrow]
      simp only [derivedStateRow, Bool.and_eq_true, decide_eq_true_eq] at hrow
      obtain ⟨⟨hid, hstate⟩, hlease⟩ := hrow
      refine ⟨hid, fun hx => ?_⟩
      rw [hstate] at hx ⊢
      refine (hterm hx).imp id fun ⟨hfailed, hnew, hleased⟩ => ⟨hfailed, hnew, ?_⟩
      exact leasesProjection_of_guard hguard hleased hid hlease
    · rw [if_neg hrow] at hne
      exact absurd rfl hne

theorem Store.ProjectionMove.stale {s t : Store} (h : s.ProjectionMove ctx apply t)
    (hs : ∀ x ∈ s.applies, x.id = apply.id → x.state ≠ apply.state) : t = s := by
  rcases h with rfl | ⟨guard, newState, errorMessage, startedAt, completedAt, -, -, rfl⟩
  · rfl
  · rw [updateApplies, Table.update_eq_self]
    intro x hx
    by_contra hrow
    simp only [derivedStateRow, Bool.and_eq_true, decide_eq_true_eq, Bool.not_eq_false] at hrow
    exact hs x hx hrow.1.1 hrow.1.2

theorem Projector.Honest.next (hp : p.Honest) (s : Store) : s.ProjectionMove p.ctx p.apply (p.rest.next s).1 ∧
      { p with rest := (p.rest.next s).2 }.Honest ∧
      ((s.becomesTerminal p.apply.id (p.rest.next s).1 = true ∧ p.announced = false ∧
          { p with rest := (p.rest.next s).2 }.announced = true) ∨
        (s.becomesTerminal p.apply.id (p.rest.next s).1 = false ∧
          { p with rest := (p.rest.next s).2 }.announced = p.announced)) := by
  have hmoves := hp.moves.next (Store.ProjectionMove.refl p.ctx p.apply) (s := s) trivial
  refine ⟨hmoves.1, ?_⟩
  rcases hp.reports with hf | ⟨r, hr, hb⟩
  · rcases hf.next (fun s => s.not_becomesTerminal_self p.apply.id) s with ⟨hE, a, ha, hrep⟩ | ⟨hE, hf'⟩
    · cases a with
      | error e => exact hrep.elim
      | ok r =>
        exact ⟨⟨hmoves.2.2, .inr ⟨r, ha, hrep⟩⟩,
          .inl ⟨hE, announced_eq_false hf, announced_eq_true ha hrep⟩⟩
    · refine ⟨⟨hmoves.2.2, .inl hf'⟩, .inr ⟨by simpa using hE, ?_⟩⟩
      rw [announced_eq_false hf]
      exact announced_eq_false hf'
  · -- the program has ended
    obtain ⟨ctx, apply, rest⟩ := p
    cases hr
    exact ⟨⟨hmoves.2.2, .inr ⟨r, rfl, hb⟩⟩,
      .inr ⟨Bool.eq_false_iff.2 (s.not_becomesTerminal_self apply.id), rfl⟩⟩

end

section
variable {b : Board} {p : Projector}

def Board.Honest (b : Board) : Prop := ∀ p ∈ b.projectors, p.Honest

theorem Board.Honest.step (hb : b.Honest) (a : BoardAction) : (b.step a).Honest := by
  intro p' hp'
  cases a with
  | call c => exact hb p' hp'
  | load ctx applyId =>
    simp only [Board.step] at hp'
    split at hp'
    · next apply _ =>
      rcases List.mem_append.1 hp' with hp' | hp'
      · exact hb p' hp'
      · rw [List.mem_singleton.1 hp']
        exact ⟨projectionMove_projectFromOperations ctx apply,
          .inl (faithful_projectFromOperations ctx apply)⟩
    · exact hb p' hp'
  | advance n =>
    simp only [Board.step] at hp'
    split at hp'
    · next p hp =>
      rcases List.mem_or_eq_of_mem_set hp' with hp' | rfl
      · exact hb p' hp'
      · exact ((hb p (List.mem_of_getElem? hp)).next b.store).2.1
    · exact hb p' hp'

theorem Board.announced_advance {n m : Nat} (hp : b.projectors[n]? = some p) : (b.step (.advance n)).announced m =
      if m = n then { p with rest := (p.rest.next b.store).2 }.announced else b.announced m := by
  have hn : n < b.projectors.length := (List.getElem?_eq_some_iff.1 hp).1
  simp only [Board.step, hp, Board.announced]
  by_cases hm : m = n
  · subst hm
    rw [List.getElem?_set_self hn, if_pos rfl]
    rfl
  · rw [List.getElem?_set_ne (Ne.symm hm), if_neg hm]

theorem Board.Honest.lawful (hb : b.Honest) {n : Nat} (hp : b.projectors[n]? = some p) :
    b.Lawful p (b.step (.advance n)) := by
  obtain ⟨hmove, -, hreport⟩ := (hb p (List.mem_of_getElem? hp)).next b.store
  have hstore : (b.step (.advance n)).store = (p.rest.next b.store).1 := by simp only [Board.step, hp]
  have hn : b.announced n = p.announced := by simp [Board.announced, hp]
  have hann := fun m => b.announced_advance (m := m) hp
  refine ⟨?_, ?_, ?_, ?_, ?_⟩ <;> try rw [hstore]
  · intro hE
    obtain ⟨-, hold, hnew⟩ | ⟨hE', -⟩ := hreport
    · refine ⟨n, ⟨by rw [hann, if_pos rfl]; exact hnew, hn.trans hold⟩, ?_⟩
      rintro m ⟨hm, hm'⟩
      by_contra hne
      rw [hann, if_neg hne, hm'] at hm
      cases hm
    · rw [hE] at hE'; cases hE'
  · intro hE m
    obtain ⟨hE', -⟩ | ⟨-, hsame⟩ := hreport
    · rw [hE] at hE'; cases hE'
    · rw [hann]
      split
      · next hm => rw [hm, hn, hsame]
      · rfl
  · intro m hm
    rw [hann]
    split
    · next hmn =>
      subst hmn
      rw [hn] at hm
      obtain ⟨-, hold, -⟩ | ⟨-, hsame⟩ := hreport
      · rw [hm] at hold; cases hold
      · rw [hsame, hm]
    · exact hm
  · exact fun x x' hx hne => hmove.states hx hne
  · exact hmove.stale

theorem Board.Honest.law (hb : b.Honest) (a : BoardAction) : b.Law a := by
  cases a with
  | advance n => exact fun p hp => hb.lawful hp
  | call c => exact fun m => rfl
  | load ctx applyId =>
    intro m
    simp only [Board.step]
    split
    · next apply _ =>
      have hfresh : Projector.announced ⟨ctx, apply, (projectFromOperations ctx apply ctx.leased).run⟩ =
        false := rfl
      simp only [Board.announced, List.getElem?_append]
      split
      · rfl
      · next hm =>
        rw [List.getElem?_eq_none (Nat.le_of_not_lt hm)]
        cases hk : m - b.projectors.length with
        | zero => exact hfresh
        | succ k => rfl
    · rfl

end

def stoppedAtSwap : List BoardAction :=
  let claim : Call := .findNextApplyOperation "operator" fun _ => false
  [.call (sampleRollout .barrier .halt), .call claim,
    .call (.updateState (OperationLease.ctx ⟨1, 1, 1⟩) 1 .waitingForCutover), .call claim,
    .call (.findNextApplyOperationCutover "operator" fun _ => false),
    .call (.updateState (OperationLease.ctx ⟨1, 1, 3⟩) 1 .stopped),
    .load (OperationLease.ctx ⟨1, 1, 3⟩) 1, .advance 0, .advance 0, .advance 0]

def thenFailed : List BoardAction :=
  [.call (.markFailed (OperationLease.ctx ⟨1, 2, 2⟩) 2 "copy failed"),
    .load (OperationLease.ctx ⟨1, 2, 2⟩) 1, .advance 1, .advance 1, .advance 1]

end SchemaBot
