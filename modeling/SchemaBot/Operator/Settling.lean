import SchemaBot.Operator.Projection
import SchemaBot.Storage.OperationRows

/-!
# Drives that finish together

The drives of one apply with several operations, each with its own reads of the apply and of its operations
(`driveClaimedMultiOperation`). The last of them has to leave the apply as its operations are.
-/

namespace SchemaBot

/-! ## Drives and their projections -/

structure CrewDrive where
  apply : Option Apply := none
  listed : Option (List ApplyOperation) := none
  due : Bool := true
  deriving DecidableEq

structure Crew where
  apply : Apply
  ops : List ApplyOperation
  drives : List CrewDrive := []
  now : Nat := 0

def ApplyState.claimable (st : ApplyState) : Bool :=
  st ∈ .pending :: .stopped :: .failedRetryable :: claimableApplyStates

def Crew.setState (w : Crew) (n : Nat) (o : ApplyOperation) (state : ApplyState) : Crew :=
  { w with ops := w.ops.set n { o with state } }

/-- The compare-and-swap of `UpdateDerivedState`. A swap that is lost is skipped. -/
def Crew.swap (w : Crew) (expected : ApplyState) (p : Projected) : Crew :=
  if w.apply.state = expected then
    { w with apply := { w.apply with
        state := p.state, errorMessage := p.errorMessage, startedAt := w.apply.startedAt <|> p.startedAt
        completedAt := p.completedAt } }
  else w

/-- An operation is claimed; the `i`-th drive reads the apply, lists the operations, writes the state of one of them or its
projection, or leaves, which may be at any time. -/
inductive CrewAction
  | claim (n : Nat)
  | load (i : Nat)
  | list (i : Nat)
  | mark (i n : Nat) (state : ApplyState)
  | write (i : Nat) (reopen : Bool)
  | leave (i : Nat)
  | tick

def Crew.step (w : Crew) : CrewAction → Crew
  | .claim n =>
    match w.ops[n]? with
    | some o =>
      if o.state.claimable then { w.setState n o (claimedState o.state) with drives := w.drives ++ [{}] } else w
    | none => w
  | .load i =>
    match w.drives[i]? with
    | some d => { w with drives := w.drives.set i { d with apply := some w.apply } }
    | none => w
  | .list i =>
    match w.drives[i]? with
    | some d => { w with drives := w.drives.set i { d with listed := some w.ops } }
    | none => w
  | .mark i n state =>
    match w.drives[i]?, w.ops[n]? with
    | some d, some o => { w.setState n o state with drives := w.drives.set i { d with due := true } }
    | _, _ => w
  | .write i reopen =>
    match w.drives[i]? with
    | some { apply := some apply, listed := some ops, .. } =>
      match projectApply w.now apply ops reopen with
      | .error _ => w
      | .ok projected =>
        let w := projected.elim w (w.swap apply.state)
        { w with drives := w.drives.set i { apply := some apply, due := false } }
    | _ => w
  | .leave i => { w with drives := w.drives.eraseIdx i }
  | .tick => { w with now := w.now + 1 }

/-! ## The last projection -/

def Crew.Settled (w : Crew) : Prop := w.apply.state.normalize = (derivedState w.ops).normalize

instance (w : Crew) : Decidable w.Settled := inferInstanceAs (Decidable (_ = _))

def Crew.quiet (w : Crew) : Bool := w.drives.isEmpty && w.ops.all fun o => !o.state.claimable

/-- Where no other drive has still to project, a drive writes only what it has derived from the apply and the operations as
they are, and leaves only when it has projected what it wrote, or the apply is settled. -/
def Crew.reconciles (w : Crew) : CrewAction → Bool
  | .write i _ =>
    (w.drives.eraseIdx i).any (·.due) ||
      match w.drives[i]? with
      | some { apply := some apply, listed := some ops, .. } =>
        apply.state = w.apply.state && derivedState ops = derivedState w.ops
      | _ => true
  | .leave i => (w.drives.eraseIdx i).any (·.due) || w.drives[i]?.all (!·.due) || w.Settled
  | _ => true

def Crew.Covered (w : Crew) : Prop := w.drives.any (·.due) = true ∨ w.Settled

section
variable {l : List CrewDrive} {w : Crew} {i : Nat} {d d' : CrewDrive}

theorem any_due_set (hi : l[i]? = some d') (hd : d.due = true) : (l.set i d).any (·.due) = true :=
  List.any_eq_true.2 ⟨d, List.mem_set (List.getElem?_eq_some_iff.1 hi).1 d, hd⟩

theorem any_due_of_eraseIdx (h : (l.eraseIdx i).any (·.due) = true) (d : CrewDrive) :
    (l.set i d).any (·.due) = true := by
  obtain ⟨x, hx, hdue⟩ := List.any_eq_true.1 h
  obtain ⟨j, hj, hx⟩ := List.mem_eraseIdx_iff_getElem?.1 hx
  rw [← List.getElem?_set_ne (Ne.symm hj)] at hx
  exact List.any_eq_true.2 ⟨x, List.mem_of_getElem? hx, hdue⟩

theorem any_due_eraseIdx (h : l.any (·.due) = true) (hi : l[i]?.all (!·.due) = true) :
    (l.eraseIdx i).any (·.due) = true := by
  obtain ⟨x, hx, hdue⟩ := List.any_eq_true.1 h
  obtain ⟨j, hj⟩ := List.mem_iff_getElem?.1 hx
  refine List.any_eq_true.2 ⟨x, List.mem_eraseIdx_iff_getElem?.2 ⟨j, ?_, hj⟩, hdue⟩
  rintro rfl
  simp [hj, hdue] at hi

/-- A drive that only reads is due as before. -/
theorem any_due_read (hi : l[i]? = some d') (hd : d.due = d'.due) (h : l.any (·.due) = true) :
    (l.set i d).any (·.due) = true := by
  by_cases hdue : d.due = true
  · exact any_due_set hi hdue
  · exact any_due_of_eraseIdx (any_due_eraseIdx h (by simpa [hi, ← hd] using hdue)) d

theorem Crew.settled_swap {apply : Apply} {ops : List ApplyOperation} {reopen : Bool} {projected : Option Projected}
    (hp : projectApply w.now apply ops reopen = .ok projected) (hstate : apply.state = w.apply.state)
    (hops : derivedState ops = derivedState w.ops) : (projected.elim w (w.swap apply.state)).Settled := by
  cases projected with
  | none =>
    unfold projectApply at hp
    dsimp only at hp
    split at hp
    · cases hp
    · split at hp
      · cases hp
      · split at hp
        · next hsame =>
          rw [Option.elim_none, Settled, ← hstate, ← hops]
          exact hsame.1
        · cases hp
  | some p =>
    have hderived := projectApply_state hp
    simp only [Option.elim_some, Crew.swap, hstate, if_true, Crew.Settled]
    rw [hderived, hops]

theorem Crew.swap_drives (w : Crew) (expected : ApplyState) (projected : Option Projected) :
    (projected.elim w (w.swap expected)).drives = w.drives := by
  cases projected with
  | none => rfl
  | some p =>
    simp only [Option.elim_some, Crew.swap]
    split <;> rfl

theorem Crew.Covered.step (h : w.Covered) {a : CrewAction} (ha : w.reconciles a = true) : (w.step a).Covered := by
  cases a with
  | claim n =>
    simp only [Crew.step]
    repeat' split
    · exact .inl (by simp)
    all_goals exact h
  | load i | list i =>
    simp only [Crew.step]
    split
    · next d hd => exact h.imp_left (any_due_read hd rfl)
    · exact h
  | mark i n state =>
    simp only [Crew.step]
    split
    · next hd _ => exact .inl (any_due_set hd rfl)
    · exact h
  | write i reopen =>
    simp only [Crew.step]
    split
    · next apply ops due hd =>
      split
      · exact h
      · next projected hp =>
        simp only [Crew.reconciles, hd, Bool.or_eq_true, Bool.and_eq_true, decide_eq_true_eq] at ha
        rcases ha with hothers | ⟨hstate, hops⟩
        · refine .inl ?_
          rw [Crew.swap_drives]
          exact any_due_of_eraseIdx hothers _
        · exact .inr (Crew.settled_swap hp hstate hops)
    · exact h
  | leave i =>
    simp only [Crew.reconciles, Bool.or_eq_true, decide_eq_true_eq] at ha
    rcases ha with (hothers | hdone) | hsettled
    · exact .inl hothers
    · exact h.imp_left (any_due_eraseIdx · hdone)
    · exact .inr hsettled
  | tick => exact h

end

namespace Sample

def crew : Crew := { apply := {}, ops := [{ onFailure := .continue }, { id := 1, onFailure := .continue }] }

def crewRuns : List CrewAction :=
  [.claim 0, .load 0, .list 0, .write 0 true, .claim 1, .load 1, .list 1, .write 1 true, .mark 0 0 .failed, .load 0, .list 0]

end Sample

end SchemaBot
