import Mathlib.Logic.Function.Basic
import SchemaBot.Lib.Run

/-!
# Deploy requests across crashes

`Apply` of `pkg/engine/planetscale`, from its branch to the deploy of its deploy request, and its resumes.
-/

namespace SchemaBot.PlanetScale.Deploys

variable {w w' : World} {req : Request}

/-! ## Drives and deploy requests -/

inductive DeployState
  | pending | ready | noChanges | error | inProgress | complete | completeError
  deriving DecidableEq

def DeployState.isOpen : DeployState → Bool
  | .pending | .ready => true
  | _ => false

def DeployState.isFailed : DeployState → Bool
  | .error | .completeError => true
  | _ => false

def DeployState.leadsTo : DeployState → DeployState → Bool
  | .pending, .ready | .pending, .noChanges | .pending, .error | .inProgress, .complete | .inProgress, .completeError
  | .inProgress, .error => true
  | _, _ => false

/-- A deploy request: how its branch is treated, whether the branch was found to match the desired schema before, and with
which `InstantDDL` it was deployed. -/
structure DeployRequest where
  autoDelete : Bool := false
  validated : Bool := true
  instantEligible : Bool := false
  state : DeployState := .pending
  deployedWith : Option Bool := none
  gone : Bool := false

/-- `psMetadata`. The branch is the same in all of it. -/
structure Metadata where
  deployRequestID : Option Nat := none
  isInstant : Bool := false
  deferredDeploy : Bool := false
  deriving DecidableEq

/-- The options of the apply: a branch of the user, and `defer_deploy`. -/
structure Request where
  userBranch : Bool := false
  deferDeploy : Bool := false

/-- Where a drive is. A fresh one persists its state unless it follows a resume, which has dropped its `ResumeState`. -/
inductive Stage
  | apply
  | fresh (persists : Bool)
  | prepare (persists : Bool)
  | created (persists : Bool) (n : Nat)
  | branch
  | wait (resumes : Bool) (n : Nat)
  | ready (resumes : Bool) (n : Nat)
  | deploy (n : Nat) (isInstant deferred : Bool)
  | reattach (n : Nat) (isInstant deferred : Bool)
  | result (metadata : Option Metadata)
  deriving DecidableEq

/-- `started` tells whether the operator has asked for the deploy through `Start`. -/
structure World where
  stored : Option Metadata := none
  drive : Option Stage := none
  count : Nat := 0
  requests : Nat → DeployRequest := fun _ => {}
  started : Bool := false

def World.goto (w : World) (s : Stage) : World := { w with drive := some s }

def World.update (w : World) (n : Nat) (dr : DeployRequest) : World :=
  { w with requests := Function.update w.requests n dr }

def World.create (w : World) (dr : DeployRequest) (s : Stage) : World :=
  { w.update w.count dr with count := w.count + 1, drive := some s }

def World.accepts (w : World) (n : Nat) : Bool :=
  n < w.count && (w.requests n).state = .ready && (w.requests n).deployedWith = none && !(w.requests n).gone

def World.deployed (w : World) (n : Nat) (isInstant : Bool) : World :=
  w.update n { w.requests n with state := .inProgress, deployedWith := some isInstant }

/-- `deployRequestNeedsResumeDeploy`. -/
def DeployRequest.needsResumeDeploy (dr : DeployRequest) (deferred : Bool) : Bool :=
  dr.state = .ready && !deferred && dr.deployedWith = none

/-- One step of a drive. `ok` tells whether the branch is still there, `eligible` whether a request that is created turns
out to be eligible for instant DDL. -/
def World.advance (req : Request) (w : World) (ok eligible : Bool) : Stage → World
  | .apply =>
    match w.stored with
    | none => w.goto (.fresh true)
    | some ⟨none, _, _⟩ => w.goto (if ok then .branch else .fresh false)
    | some ⟨some n, isInstant, deferred⟩ => w.goto (.reattach n isInstant deferred)
  | .fresh persists =>
    { w with stored := if persists then some {} else w.stored, drive := some (.prepare persists) }
  | .prepare persists =>
    w.create { autoDelete := !req.userBranch, instantEligible := eligible } (.created persists w.count)
  | .created persists n =>
    { w with
      stored := if persists then some { deployRequestID := some n } else w.stored
      drive := some (.wait false n) }
  | .branch =>
    w.create { autoDelete := true, validated := false, instantEligible := eligible } (.wait true w.count)
  | .wait resumes n =>
    match (w.requests n).state with
    | .pending => w
    | .error => { w with drive := none }
    | .noChanges => w.goto (.result none)
    | _ => w.goto (.ready resumes n)
  | .ready resumes n =>
    let isInstant := (w.requests n).instantEligible
    { w with
      stored := if resumes then some ⟨some n, isInstant, req.deferDeploy⟩ else w.stored
      drive := some (if req.deferDeploy then .result (some ⟨some n, isInstant, true⟩) else .deploy n isInstant false) }
  | .deploy n isInstant deferred =>
    if w.accepts n then (w.deployed n isInstant).goto (.result (some ⟨some n, isInstant, deferred⟩))
    else { w with drive := none }
  | .reattach n isInstant deferred =>
    if (w.requests n).gone || (w.requests n).state.isFailed then w.goto (.fresh false)
    else if (w.requests n).needsResumeDeploy deferred then w.goto (.deploy n isInstant deferred)
    else w.goto (.result (some ⟨some n, isInstant, deferred⟩))
  | .result metadata => { w with stored := metadata <|> w.stored, drive := none }

inductive Action
  | attach
  | advance (ok eligible : Bool)
  | crash
  | settle (n : Nat) (state : DeployState)
  | vanish (n : Nat)
  | start
  deriving DecidableEq

def World.step (req : Request) (w : World) : Action → World
  | .attach => if w.drive = none then w.goto .apply else w
  | .advance ok eligible =>
    match w.drive with
    | none => w
    | some s => w.advance req ok eligible s
  | .crash => { w with drive := none }
  | .settle n state =>
    if (w.requests n).state.leadsTo state && n < w.count then
      w.update n { w.requests n with state }
    else w
  | .vanish n => w.update n { w.requests n with gone := true }
  | .start =>
    match w.stored with
    | some ⟨some n, isInstant, true⟩ => if w.accepts n then { w.deployed n isInstant with started := true } else w
    | _ => w

section
variable {n m : Nat} {dr : DeployRequest}

theorem World.step_advance {s : Stage} (hs : w.drive = some s) (req : Request) (ok eligible : Bool) :
    w.step req (.advance ok eligible) = w.advance req ok eligible s := by
  simp only [World.step, hs]

@[simp] theorem World.update_requests : (w.update n dr).requests m = if m = n then dr else w.requests m := by
  simp [World.update, Function.update_apply]

theorem World.accepts_iff : w.accepts n = true ↔ n < w.count ∧ (w.requests n).state = .ready ∧
    (w.requests n).deployedWith = none ∧ (w.requests n).gone = false := by
  simp [World.accepts, and_assoc]

inductive World.Change (req : Request) (w : World) (a : Action) (n : Nat) : DeployRequest → Prop
  | same : w.Change req a n (w.requests n)
  | fresh {persists eligible : Bool} : n = w.count → w.drive = some (.prepare persists) →
    w.Change req a n { autoDelete := !req.userBranch, instantEligible := eligible }
  | branch {ok eligible : Bool} : n = w.count → w.drive = some .branch → a = .advance ok eligible →
    w.Change req a n { autoDelete := true, validated := false, instantEligible := eligible }
  | deployed {isInstant : Bool} : w.accepts n = true →
    (∃ d ok eligible, w.drive = some (.deploy n isInstant d) ∧ a = .advance ok eligible) ∨
      a = .start ∧ w.stored = some ⟨some n, isInstant, true⟩ →
    w.Change req a n { w.requests n with state := .inProgress, deployedWith := some isInstant }
  | settled {state : DeployState} : (w.requests n).state.leadsTo state = true →
    w.Change req a n { w.requests n with state }
  | vanished : w.Change req a n { w.requests n with gone := true }

theorem World.change_step (req : Request) (w : World) (a : Action) (n : Nat) :
    w.Change req a n ((w.step req a).requests n) := by
  have hupdate : ∀ m dr, (n = m → w.Change req a n dr) → w.Change req a n ((w.update m dr).requests n) := by
    intro m dr h
    rw [update_requests]
    split_ifs with hn
    · exact h hn
    · exact .same
  cases a with
  | attach =>
    simp only [World.step]
    split <;> exact .same
  | advance ok eligible =>
    cases hs : w.drive with
    | none => simpa only [World.step, hs] using .same
    | some s =>
      simp only [World.step, hs]
      cases s with
      | prepare _ => exact hupdate _ _ fun hn => .fresh hn hs
      | branch => exact hupdate _ _ fun hn => .branch hn hs rfl
      | deploy m i d =>
        simp only [World.advance]
        split_ifs with hacc
        · exact hupdate m _ fun hn => by subst hn; exact .deployed hacc (.inl ⟨d, ok, eligible, hs, rfl⟩)
        · exact .same
      | apply | fresh _ | created _ _ | wait _ _ | ready _ _ | reattach _ _ _ | result _ =>
        dsimp only [World.advance]
        repeat' split
        all_goals exact .same
  | crash => exact .same
  | settle m state =>
    simp only [World.step]
    split_ifs with h
    · exact hupdate m _ fun hn => by subst hn; exact .settled (Bool.and_eq_true_iff.1 h).1
    · exact .same
  | vanish m => exact hupdate m _ fun hn => by subst hn; exact .vanished
  | start =>
    simp only [World.step]
    split
    · next m i hstored =>
      split_ifs with hacc
      · exact hupdate m _ fun hn => by subst hn; exact .deployed hacc (.inr ⟨rfl, hstored⟩)
      · exact .same
    · exact .same

theorem World.count_step (req : Request) (w : World) (a : Action) : w.count ≤ (w.step req a).count := by
  cases a with
  | advance ok eligible =>
    cases hs : w.drive with
    | none => simp only [World.step, hs, Nat.le_refl]
    | some s =>
      simp only [World.step, hs]
      cases s with
      | prepare _ | branch => exact Nat.le_succ _
      | apply | fresh _ | created _ _ | wait _ _ | ready _ _ | deploy _ _ _ | reattach _ _ _ | result _ =>
        dsimp only [World.advance]
        repeat' split
        all_goals exact Nat.le_refl _
  | attach | settle _ _ | start =>
    dsimp only [World.step]
    repeat' split
    all_goals exact Nat.le_refl _
  | crash | vanish _ => exact Nat.le_refl _

structure DeployRequest.Later (dr dr' : DeployRequest) : Prop where
  eligible : dr'.instantEligible = dr.instantEligible
  closed : dr.state.isOpen = false → dr'.state.isOpen = false
  failed : dr.state.isFailed = true → dr'.state.isFailed = true
  gone : dr.gone = true → dr'.gone = true

structure World.Later (w w' : World) : Prop where
  count : w.count ≤ w'.count
  requests : ∀ n < w.count, (w.requests n).Later (w'.requests n)

theorem DeployState.leadsTo_closed {s t : DeployState} (h : s.leadsTo t = true) :
    (s.isOpen = false → t.isOpen = false) ∧ (s.isFailed = true → t.isFailed = true) := by
  cases s <;> cases t <;> simp_all [DeployState.leadsTo, DeployState.isOpen, DeployState.isFailed]

theorem World.later_step (req : Request) (w : World) (a : Action) : w.Later (w.step req a) := by
  refine ⟨w.count_step req a, fun n hn => ?_⟩
  have hchange := w.change_step req a n
  generalize (w.step req a).requests n = dr at hchange
  cases hchange with
  | same => exact ⟨rfl, id, id, id⟩
  | fresh hcount _ | branch hcount _ _ => exact absurd hcount (Nat.ne_of_lt hn)
  | deployed hacc _ =>
    have hready := (accepts_iff.1 hacc).2.1
    exact ⟨rfl, fun _ => rfl, by simp [hready, DeployState.isFailed], id⟩
  | settled hleads => exact ⟨rfl, (DeployState.leadsTo_closed hleads).1, (DeployState.leadsTo_closed hleads).2, id⟩
  | vanished => exact ⟨rfl, id, id, fun _ => rfl⟩

/-- A request that is deployed after a step was deployed before, or is deployed in it, by a drive or by a start. -/
theorem World.deployed_step (req : Request) (w : World) (a : Action) (n : Nat)
    (h : ((w.step req a).requests n).deployedWith ≠ none) :
    ((w.requests n).deployedWith = ((w.step req a).requests n).deployedWith ∧
        ((w.requests n).state.isFailed = true → ((w.step req a).requests n).state.isFailed = true)) ∨
      w.accepts n = true ∧ ∃ i, ((w.step req a).requests n).deployedWith = some i ∧
        ((∃ d, w.drive = some (.deploy n i d) ∧ (∃ ok eligible, a = .advance ok eligible)) ∨
          a = .start ∧ w.stored = some ⟨some n, i, true⟩) := by
  have hchange := w.change_step req a n
  generalize (w.step req a).requests n = dr at hchange h
  cases hchange with
  | same => exact .inl ⟨rfl, id⟩
  | fresh _ _ | branch _ _ _ => exact absurd rfl h
  | deployed hacc hby =>
    exact .inr ⟨hacc, _, rfl, hby.imp_left fun ⟨d, ok, eligible, hd, ha⟩ => ⟨d, hd, ok, eligible, ha⟩⟩
  | settled hleads => exact .inl ⟨rfl, (DeployState.leadsTo_closed hleads).2⟩
  | vanished => exact .inl ⟨rfl, id⟩

/-- What a step does to the drive and to what is stored. -/
inductive World.Stirs (req : Request) (w : World) : Action → World → Prop
  | attach : w.drive = none → w.Stirs req .attach (w.goto .apply)
  | advance {ok eligible : Bool} {s : Stage} : w.drive = some s →
    w.Stirs req (.advance ok eligible) (w.advance req ok eligible s)
  | crash : w.Stirs req .crash { w with drive := none }
  | outside {a : Action} {w' : World} : (∀ ok eligible, a = .advance ok eligible → w' = w) →
    w'.drive = w.drive → w'.stored = w.stored → w.Stirs req a w'

theorem World.stirs_step (req : Request) (w : World) (a : Action) : w.Stirs req a (w.step req a) := by
  cases a with
  | attach =>
    simp only [World.step]
    split_ifs with hnone
    · exact .attach hnone
    · exact .outside nofun rfl rfl
  | advance ok eligible =>
    cases hs : w.drive with
    | none => simpa only [World.step, hs] using .outside (fun _ _ _ => rfl) rfl rfl
    | some s => exact step_advance hs req ok eligible ▸ .advance hs
  | crash => exact .crash
  | settle n state =>
    simp only [World.step]
    split <;> exact .outside nofun rfl rfl
  | vanish n => exact .outside nofun rfl rfl
  | start =>
    simp only [World.step]
    repeat' split
    all_goals exact .outside nofun rfl rfl

end

/-! ## Deferred deploys -/

def World.Spares (w : World) (metadata : Option Metadata) : Prop :=
  ∀ n i d, metadata = some ⟨some n, i, d⟩ → n < w.count ∧ (d = true ∨ (w.requests n).state.isOpen = false)

def World.HeldAt (w : World) : Option Stage → Prop
  | some (.created _ n) => n < w.count ∧ w.Spares w.stored
  | some (.wait resumes n) | some (.ready resumes n) =>
    n < w.count ∧ (w.Spares w.stored ∨ resumes = false ∧ ∃ i, w.stored = some ⟨some n, i, false⟩)
  | some (.deploy _ _ _) => False
  | some (.reattach n i d) => w.Spares (some ⟨some n, i, d⟩) ∧ w.Spares w.stored
  | some (.result m) => w.Spares m ∧ (m = none → w.Spares w.stored)
  | some .apply | some (.fresh _) | some (.prepare _) | some .branch | none => w.Spares w.stored

structure World.Held (w : World) : Prop where
  started : ∀ n, (w.requests n).deployedWith ≠ none → w.started = true
  at_drive : w.HeldAt w.drive

def World.cutsDeferred (w : World) : Action → Bool
  | .crash =>
    match w.stored with
    | some ⟨some n, _, false⟩ => n < w.count && !(w.requests n).state.isOpen
    | some ⟨some n, _, true⟩ => n < w.count
    | _ => true
  | _ => true

theorem World.Spares.later {m : Option Metadata} (h : w.Spares m) (hl : w.Later w') : w'.Spares m := by
  intro n i d hm
  obtain ⟨hn, hopen⟩ := h n i d hm
  exact ⟨Nat.lt_of_lt_of_le hn hl.count, hopen.imp_right ((hl.requests n hn).closed)⟩

theorem World.HeldAt.later {s : Option Stage} (h : w.HeldAt s) (hl : w.Later w') (hs : w'.stored = w.stored) :
    w'.HeldAt s := by
  match s with
  | some (.created _ n) => exact ⟨Nat.lt_of_lt_of_le h.1 hl.count, hs ▸ h.2.later hl⟩
  | some (.wait _ n) | some (.ready _ n) =>
    exact ⟨Nat.lt_of_lt_of_le h.1 hl.count, hs ▸ h.2.imp_left (·.later hl)⟩
  | some (.reattach n i d) => exact ⟨h.1.later hl, hs ▸ h.2.later hl⟩
  | some (.result m) => exact ⟨h.1.later hl, fun hm => hs ▸ (h.2 hm).later hl⟩
  | some .apply | some (.fresh _) | some (.prepare _) | some .branch | none =>
    exact (hs ▸ World.Spares.later h hl : w'.Spares w'.stored)

theorem World.Held.advance (h : w.Held) (hdefer : req.deferDeploy = true) (ok eligible : Bool) {s : Stage}
    (hs : w.drive = some s) : (w.advance req ok eligible s).HeldAt (w.advance req ok eligible s).drive := by
  have hat := h.at_drive
  have hlater := w.later_step req (.advance ok eligible)
  rw [step_advance hs] at hlater
  rw [hs] at hat
  cases s with
  | apply =>
    simp only [World.advance]
    split
    · exact hat
    · split_ifs <;> exact hat
    · next heq => exact ⟨fun n i d hm => hat n i d (heq.trans hm), hat⟩
  | fresh persists =>
    cases persists
    · exact hat
    · exact fun n i d hm => by cases hm
  | prepare persists => exact ⟨Nat.lt_succ_self _, World.Spares.later hat hlater⟩
  | created persists n =>
    cases persists
    · exact ⟨hat.1, .inl hat.2⟩
    · exact ⟨hat.1, .inr ⟨rfl, false, rfl⟩⟩
  | branch => exact ⟨Nat.lt_succ_self _, .inl (World.Spares.later hat hlater)⟩
  | wait resumes n =>
    simp only [World.advance]
    have hclosed : (w.requests n).state.isOpen = false → w.Spares w.stored := by
      intro hclosed
      rcases hat.2 with hspares | ⟨-, i, hi⟩
      · exact hspares
      · intro n' i' d' hm
        cases hi.symm.trans hm
        exact ⟨hat.1, .inr hclosed⟩
    split
    · rw [hs]
      exact hat
    · next hstate => exact hclosed (by rw [hstate]; rfl)
    · next hstate => exact ⟨nofun, fun _ => hclosed (by rw [hstate]; rfl)⟩
    · exact hat
  | ready resumes n =>
    simp only [World.advance, hdefer]
    refine ⟨fun n' i' d' hm => ?_, nofun⟩
    cases hm
    exact ⟨hat.1, .inl rfl⟩
  | deploy n i d => exact hat.elim
  | reattach n i d =>
    simp only [World.advance]
    split_ifs with hgone hneeds
    · exact hat.2
    · simp only [DeployRequest.needsResumeDeploy, Bool.and_eq_true, decide_eq_true_eq, Bool.not_eq_true'] at hneeds
      rcases (hat.1 n i d rfl).2 with hd | hopen
      · rw [hneeds.1.2] at hd
        cases hd
      · rw [hneeds.1.1] at hopen
        cases hopen
    · exact ⟨hat.1, nofun⟩
  | result m =>
    cases m with
    | none => exact hat.2 rfl
    | some m => exact hat.1

theorem World.started_step (req : Request) (h : w.started = true) (a : Action) : (w.step req a).started = true := by
  cases a <;> simp only [World.step]
  case advance ok eligible =>
    cases w.drive with
    | none => exact h
    | some s => cases s <;> simp only [World.advance] <;> repeat' split
                all_goals exact h
  all_goals repeat' split
  all_goals first | exact h | rfl

theorem World.Held.step (h : w.Held) (hdefer : req.deferDeploy = true) {a : Action} (ha : w.cutsDeferred a = true) :
    (w.step req a).Held := by
  have hlater := w.later_step req a
  refine ⟨fun n hn => ?_, ?_⟩
  · rcases w.deployed_step req a n hn with ⟨hsame, -⟩ | ⟨hacc, i, -, ⟨d, hdrive, -⟩ | ⟨rfl, hstored⟩⟩
    · exact started_step req (h.started n (hsame ▸ hn)) a
    · have hat := h.at_drive
      rw [hdrive] at hat
      exact hat.elim
    · simp only [World.step, hstored, hacc, if_true]
  · have hat := h.at_drive
    have hstirs := w.stirs_step req a
    generalize w.step req a = w' at hlater hstirs
    cases hstirs with
    | attach hnone => exact (hnone ▸ hat : w.HeldAt none)
    | advance hs => exact h.advance hdefer _ _ hs
    | crash =>
      intro n i d hm
      cases d <;> simp_all [World.cutsDeferred]
    | outside _ hdrive hstored => exact hdrive ▸ hat.later hlater hstored

/-- A deferred deploy request is deployed only when the operator has asked for it, in every run in which no drive is cut
off after its fresh request was stored and before its result is. -/
theorem deferred_deploys_wait (req : Request) (hdefer : req.deferDeploy = true) (as : List Action)
    (h : Transition.Along (World.step req) (fun w a => w.cutsDeferred a = true) {} as) (n : Nat) :
    let w := Transition.run (World.step req) {} as
    (w.requests n).deployedWith ≠ none → w.started = true := by
  have hinit : World.Held {} := ⟨fun _ hn => absurd rfl hn, (nofun : World.Spares {} none)⟩
  exact (Transition.run_induction (fun _ _ hw ha => hw.step hdefer ha) hinit h).started n

def Sample.go (n : Nat) : List Action := List.replicate n (.advance true true)

def Sample.created : List Action := .attach :: Sample.go 4 ++ [.settle 0 .ready]

theorem deferred_deploys_wait_started :
    let as := [.attach, .crash] ++ Sample.created ++ Sample.go 3 ++ [.crash, .attach, .start]
    Transition.Along (World.step { deferDeploy := true }) (fun w a => w.cutsDeferred a = true) {} as ∧
      let w := Transition.run (World.step { deferDeploy := true }) {} as
      (w.requests 0).deployedWith = some true ∧ ((w.requests 0).deployedWith ≠ none → w.started = true) :=
  ⟨by decide, by decide, deferred_deploys_wait _ rfl _ (by decide) 0⟩

/-- The drive is cut off when its request is ready; the resume finds a request whose deploy is not marked as deferred. -/
theorem deferred_deploy_lost :
    let w := Transition.run (World.step { deferDeploy := true }) {} (Sample.created ++ [.crash, .attach] ++ Sample.go 3)
    (w.requests 0).deployedWith = some false ∧ w.started = false := by
  decide

/-! ## One deploy at a time -/

def World.alive (w : World) (n : Nat) : Bool := (w.requests n).deployedWith ≠ none && !(w.requests n).state.isFailed

def World.Only (w : World) (o : Option Nat) : Prop := ∀ n, w.alive n = true → o = some n

/-- A request that the operator could start, from what is stored, is `o` or cannot be deployed any more. -/
def World.Stale (w : World) (o : Option Nat) : Prop :=
  ∀ n i, w.stored = some ⟨some n, i, true⟩ →
    o = some n ∨ n < w.count ∧ ((w.requests n).gone = true ∨ (w.requests n).state.isFailed = true)

def Metadata.request (o : Option Metadata) : Option Nat := o.bind (·.deployRequestID)

def Stage.request : Stage → Option Nat
  | .created _ n | .wait _ n | .ready _ n | .deploy n _ _ | .reattach n _ _ => some n
  | .result m => Metadata.request m
  | .apply | .fresh _ | .prepare _ | .branch => none

def World.owner (w : World) : Option Stage → Option Nat
  | none | some .apply => Metadata.request w.stored
  | some (.reattach n _ _) => some n
  | some (.result m) => Metadata.request m
  | some (.fresh _) | some (.prepare _) | some (.created _ _) | some .branch | some (.wait _ _) | some (.ready _ _)
  | some (.deploy _ _ _) => none

structure World.SingleAt (w : World) (s : Option Stage) : Prop where
  only : w.Only (w.owner s)
  stale : w.Stale (w.owner s)
  reattach : ∀ n i d, s = some (.reattach n i d) → w.stored = some ⟨some n, i, d⟩

structure World.Known (w : World) : Prop where
  stored : ∀ n, Metadata.request w.stored = some n → n < w.count
  drive : ∀ n, w.drive.bind Stage.request = some n → n < w.count

structure World.Single (w : World) : Prop extends w.Known where
  at_drive : w.SingleAt w.drive

def World.keepsDeploys (w : World) (a : Action) : Bool :=
  match a, w.drive with
  | .crash, some (.result m) => Metadata.request m = Metadata.request w.stored || (Metadata.request m).all (!w.alive ·)
  | .advance _ _, some (.reattach n _ _) => !(w.requests n).gone || !w.alive n
  | _, _ => true

section
variable {o : Option Nat}

theorem World.Only.mono (h : w.Only none) (o : Option Nat) : w.Only o := fun n hn => nomatch h n hn

theorem World.Stale.later (h : w.Stale o) (hl : w.Later w') (hs : w'.stored = w.stored) : w'.Stale o := by
  intro n i hm
  refine (h n i (hs ▸ hm)).imp_right fun ⟨hn, hdead⟩ => ⟨Nat.lt_of_lt_of_le hn hl.count, ?_⟩
  exact hdead.imp ((hl.requests n hn).gone) ((hl.requests n hn).failed)

theorem World.Stale.startable (h : w.Stale o) {n : Nat} {i : Bool} (hs : w.stored = some ⟨some n, i, true⟩)
    (hacc : w.accepts n = true) : o = some n := by
  obtain ⟨-, hready, -, hgone⟩ := accepts_iff.1 hacc
  rcases h n i hs with ho | ⟨-, hdead | hdead⟩
  · exact ho
  · rw [hgone] at hdead
    cases hdead
  · rw [hready] at hdead
    cases hdead

theorem World.alive_step {a : Action} {n : Nat} (h : (w.step req a).alive n = true) :
    w.alive n = true ∨ w.accepts n = true ∧
      ((∃ i d, w.drive = some (.deploy n i d) ∧ ∃ ok eligible, a = .advance ok eligible) ∨
        a = .start ∧ ∃ i, w.stored = some ⟨some n, i, true⟩) := by
  simp only [World.alive, Bool.and_eq_true, decide_eq_true_eq, Bool.not_eq_true'] at h ⊢
  rcases w.deployed_step req a n h.1 with ⟨hsame, hfailed⟩ | ⟨hacc, i, -, ⟨d, hd, hadv⟩ | ⟨ha, hs⟩⟩
  · refine .inl ⟨hsame ▸ h.1, Bool.eq_false_iff.2 fun hf => ?_⟩
    rw [hfailed hf] at h
    cases h.2
  · exact .inr ⟨hacc, .inl ⟨i, d, hd, hadv⟩⟩
  · exact .inr ⟨hacc, .inr ⟨ha, i, hs⟩⟩

theorem World.Known.advance (h : w.Known) (ok eligible : Bool) {s : Stage} (hs : w.drive = some s) :
    (w.advance req ok eligible s).Known := by
  have hat : ∀ n, s.request = some n → n < w.count := fun n hn => h.drive n (by rw [hs]; exact hn)
  cases s with
  | apply =>
    simp only [World.advance]
    split
    · exact ⟨h.stored, nofun⟩
    · split_ifs <;> exact ⟨h.stored, nofun⟩
    · next heq => exact ⟨h.stored, fun n hn => h.stored n (heq ▸ hn)⟩
  | fresh persists =>
    cases persists
    · exact ⟨h.stored, nofun⟩
    · exact ⟨nofun, nofun⟩
  | prepare _ | branch =>
    exact ⟨fun n hn => Nat.lt_succ_of_lt (h.stored n hn), fun n hn => Option.some.inj hn ▸ Nat.lt_succ_self _⟩
  | created persists n =>
    cases persists
    · exact ⟨h.stored, hat⟩
    · exact ⟨hat, hat⟩
  | wait resumes n =>
    simp only [World.advance]
    split
    · exact h
    · exact ⟨h.stored, nofun⟩
    · exact ⟨h.stored, nofun⟩
    · exact ⟨h.stored, hat⟩
  | ready resumes n =>
    simp only [World.advance]
    split_ifs
    · exact ⟨hat, hat⟩
    · exact ⟨hat, hat⟩
    · exact ⟨h.stored, hat⟩
    · exact ⟨h.stored, hat⟩
  | deploy n i d =>
    simp only [World.advance]
    split_ifs
    · exact ⟨h.stored, hat⟩
    · exact ⟨h.stored, nofun⟩
  | reattach n i d =>
    simp only [World.advance]
    split_ifs
    · exact ⟨h.stored, nofun⟩
    · exact ⟨h.stored, hat⟩
    · exact ⟨h.stored, hat⟩
  | result m =>
    cases m with
    | none => exact ⟨h.stored, nofun⟩
    | some m => exact ⟨hat, nofun⟩

theorem World.Known.step (h : w.Known) (a : Action) : (w.step req a).Known := by
  have hcount := w.count_step req a
  have hstirs := w.stirs_step req a
  generalize w.step req a = w' at hcount hstirs
  cases hstirs with
  | attach _ | crash => exact ⟨h.stored, nofun⟩
  | advance hs => exact h.advance _ _ hs
  | outside _ hdrive hstored =>
    refine ⟨fun n hn => ?_, fun n hn => ?_⟩
    · exact Nat.lt_of_lt_of_le (h.stored n (hstored ▸ hn)) hcount
    · exact Nat.lt_of_lt_of_le (h.drive n (hdrive ▸ hn)) hcount

theorem World.alive_false {n : Nat} (h : (w.requests n).deployedWith = none ∨ (w.requests n).state.isFailed = true) :
    w.alive n = false := by
  rcases h with h | h <;> simp [World.alive, h]

theorem World.stale_stored : w.Stale (Metadata.request w.stored) := fun n i hm => .inl (by rw [hm]; rfl)

theorem World.Single.reattach (h : w.Single) {n : Nat} {i d : Bool} (hs : w.drive = some (.reattach n i d)) (ok eligible : Bool)
    (hkeeps : (w.requests n).gone = false ∨ w.alive n = false) :
    (w.advance req ok eligible (.reattach n i d)).SingleAt (w.advance req ok eligible (.reattach n i d)).drive := by
  have hat := h.at_drive
  rw [hs] at hat
  have hstored := hat.reattach n i d rfl
  have hnone : w.alive n = false → w.Only none := fun hdead m hm => by
    cases hat.only m hm
    rw [hdead] at hm
    cases hm
  simp only [World.advance]
  split_ifs with hlost hneeds
  · rw [Bool.or_eq_true] at hlost
    refine ⟨hnone ?_, fun m j hm => ?_, nofun⟩
    · rcases hlost with hgone | hfailed
      · exact hkeeps.resolve_left (by simp [hgone])
      · exact alive_false (.inr hfailed)
    · cases hstored.symm.trans hm
      exact .inr ⟨h.drive n (by rw [hs]; rfl), hlost⟩
  · simp only [DeployRequest.needsResumeDeploy, Bool.and_eq_true, decide_eq_true_eq] at hneeds
    refine ⟨hnone (alive_false (.inl hneeds.2)), fun m j hm => ?_, nofun⟩
    cases hstored.symm.trans hm
    cases hneeds.1.2
  · exact ⟨hat.only, hat.stale, nofun⟩

theorem World.Single.advance (h : w.Single) (ok eligible : Bool) (ha : w.keepsDeploys (.advance ok eligible) = true)
    {s : Stage} (hs : w.drive = some s) :
    (w.advance req ok eligible s).SingleAt (w.advance req ok eligible s).drive := by
  have hat := h.at_drive
  have hstep := step_advance hs req ok eligible
  have hlater := w.later_step req (.advance ok eligible)
  rw [hstep] at hlater
  -- a drive makes only the request alive that it deploys
  have honly : ∀ n, (w.advance req ok eligible s).alive n = true → w.alive n = true ∨ ∃ i d, s = .deploy n i d := by
    intro n hn
    rw [← hstep] at hn
    refine (alive_step hn).imp_right fun ⟨_, hby⟩ => ?_
    obtain ⟨i, d, hd, -⟩ := hby.resolve_right nofun
    exact ⟨i, d, Option.some.inj (hs.symm.trans hd)⟩
  rw [hs] at hat
  cases s with
  | apply =>
    have hsame : ∀ {o}, Metadata.request w.stored = o → w.Only o ∧ w.Stale o := fun heq => heq ▸ ⟨hat.only, hat.stale⟩
    simp only [World.advance]
    split
    · next heq => exact ⟨(hsame (by rw [heq]; rfl)).1, (hsame (by rw [heq]; rfl)).2, nofun⟩
    · next heq => split_ifs <;> exact ⟨(hsame (by rw [heq]; rfl)).1, (hsame (by rw [heq]; rfl)).2, nofun⟩
    · next heq =>
      refine ⟨(hsame (by rw [heq]; rfl)).1, (hsame (by rw [heq]; rfl)).2, fun n' i' d' hd => ?_⟩
      cases hd
      exact heq
  | fresh persists | created persists _ =>
    cases persists
    · exact ⟨hat.only, hat.stale, nofun⟩
    · exact ⟨hat.only, nofun, nofun⟩
  | prepare _ | branch =>
    exact ⟨fun n hn => hat.only n ((honly n hn).resolve_right nofun), hat.stale.later hlater rfl, nofun⟩
  | wait resumes n =>
    simp only [World.advance]
    split
    · rw [hs]
      exact hat
    · exact ⟨hat.only.mono _, stale_stored, nofun⟩
    all_goals exact ⟨hat.only, hat.stale, nofun⟩
  | ready resumes n =>
    simp only [World.advance]
    split_ifs with hresumes hdefer hdefer
    · exact ⟨hat.only.mono _, stale_stored, nofun⟩
    · exact ⟨hat.only, fun m j hm => by simp [hdefer] at hm, nofun⟩
    · exact ⟨hat.only.mono _, fun m j hm => .inr ((hat.stale m j hm).resolve_left nofun), nofun⟩
    · exact ⟨hat.only, hat.stale, nofun⟩
  | deploy n i d =>
    have hdeployed : ∀ m, (w.advance req ok eligible (.deploy n i d)).alive m = true → some n = some m := by
      intro m hm
      obtain ⟨i', d', heq⟩ := (honly m hm).resolve_left fun hm => nomatch hat.only m hm
      cases heq
      rfl
    have hstale := fun heq => World.Stale.later hat.stale hlater heq
    simp only [World.advance] at hdeployed hstale ⊢
    split_ifs at hdeployed hstale ⊢
    · exact ⟨hdeployed, fun m j hm => .inr ((hstale rfl m j hm).resolve_left nofun), nofun⟩
    · exact ⟨hat.only.mono _, stale_stored, nofun⟩
  | reattach n i d => exact h.reattach hs ok eligible (by simpa [World.keepsDeploys, hs] using ha)
  | result m =>
    refine ⟨?_, stale_stored, nofun⟩
    cases m with
    | none => exact hat.only.mono _
    | some m => exact hat.only

theorem World.Single.crash (h : w.Single) (ha : w.keepsDeploys .crash = true) : w.Only (Metadata.request w.stored) := by
  have hat := h.at_drive
  cases hs : w.drive with
  | none => exact (hs ▸ hat).only
  | some s =>
    rw [hs] at hat
    cases s with
    | apply => exact hat.only
    | reattach n i d =>
      rw [hat.reattach n i d rfl]
      exact hat.only
    | result m =>
      simp only [World.keepsDeploys, hs, Bool.or_eq_true, decide_eq_true_eq] at ha
      rcases ha with ha | ha
      · exact ha ▸ hat.only
      · intro n hn
        have hm : Metadata.request m = some n := hat.only n hn
        simp [hm, hn] at ha
    | fresh _ | prepare _ | created _ _ | branch | wait _ _ | ready _ _ | deploy _ _ _ => exact hat.only.mono _

theorem World.Single.step (req : Request) (h : w.Single) {a : Action} (ha : w.keepsDeploys a = true) :
    (w.step req a).Single := by
  refine { h.toKnown.step a with at_drive := ?_ }
  have hat := h.at_drive
  have hlater := w.later_step req a
  have halive := fun n (hn : (w.step req a).alive n = true) => alive_step hn
  have hstirs := w.stirs_step req a
  generalize w.step req a = w' at hlater halive hstirs
  cases hstirs with
  | attach hnone =>
    rw [hnone] at hat
    exact ⟨hat.only, hat.stale, nofun⟩
  | advance hs => exact h.advance _ _ ha hs
  | crash => exact ⟨h.crash ha, stale_stored, nofun⟩
  | outside hstill hdrive hstored =>
    have howner : w'.owner w.drive = w.owner w.drive := by
      unfold World.owner
      rw [hstored]
    rw [hdrive]
    refine ⟨fun n hn => ?_, howner ▸ hat.stale.later hlater hstored, hstored ▸ hat.reattach⟩
    rw [howner]
    rcases halive n hn with hn | ⟨hacc, ⟨i, d, -, ok, eligible, hadv⟩ | ⟨-, i, hi⟩⟩
    · exact hat.only n hn
    · exact hat.only n (hstill ok eligible hadv ▸ hn)
    · exact hat.stale.startable hi hacc

end

/-- Across crashes and resumes one deploy request at most is deployed without having failed, in every run in which no
drive is cut off between its deploy and the moment its request is stored, or misses a request that is alive. -/
theorem deploys_one_request (req : Request) (as : List Action)
    (h : Transition.Along (World.step req) (fun w a => w.keepsDeploys a = true) {} as) (n m : Nat) :
    let w := Transition.run (World.step req) {} as
    w.alive n = true → w.alive m = true → n = m := by
  have hinit : World.Single {} :=
    { stored := nofun, drive := nofun, at_drive := ⟨fun _ hn => by simp [World.alive] at hn, nofun, nofun⟩ }
  have hsingle := Transition.run_induction (fun _ _ hw ha => hw.step req ha) hinit h
  intro w hn hm
  exact Option.some.inj ((hsingle.at_drive.only n hn).symm.trans (hsingle.at_drive.only m hm))

def Sample.failed : List Action :=
  .attach :: Sample.go 4 ++ [.settle 0 .error, .advance true true, .attach] ++ Sample.go 5 ++ [.settle 1 .ready] ++
    Sample.go 3

theorem deploys_one_request_resumed :
    let as := Sample.failed ++ [.advance true true, .attach] ++ Sample.go 2 ++ [.crash]
    Transition.Along (World.step {}) (fun w a => w.keepsDeploys a = true) {} as ∧
      let w := Transition.run (World.step {}) {} as
      w.alive 1 = true ∧ (w.alive 1 = true → w.alive 0 = true → 1 = 0) :=
  ⟨by decide, by decide, deploys_one_request {} _ (by decide) 1 0⟩

/-- The fresh drive after a resume is cut off behind its deploy: what is stored still names the failed request, and the
next resume starts fresh again. -/
theorem second_deploy_started :
    let w := Transition.run (World.step {}) {} (Sample.failed ++ [.crash, .attach] ++ Sample.go 5 ++ [.settle 2 .ready] ++
      Sample.go 3)
    w.alive 1 = true ∧ w.alive 2 = true := by
  decide

/-! ## Guarantees of a fresh run -/

structure DeployRequest.Sound (req : Request) (dr : DeployRequest) : Prop where
  kept : req.userBranch = true → dr.autoDelete = false
  validated : dr.validated = true
  instant : ∀ i, dr.deployedWith = some i → i = dr.instantEligible

def World.Fits (w : World) (metadata : Option Metadata) : Prop :=
  ∀ n i, metadata = some ⟨some n, i, true⟩ → i = (w.requests n).instantEligible

def World.FitsAt (w : World) : Option Stage → Prop
  | some (.deploy n i _) => i = (w.requests n).instantEligible
  | some (.reattach n i d) => w.Fits (some ⟨some n, i, d⟩)
  | some (.result m) => w.Fits m
  | _ => True

structure World.Sound (req : Request) (w : World) : Prop extends w.Known where
  requests : ∀ n, (w.requests n).Sound req
  fits : w.Fits w.stored
  at_drive : w.FitsAt w.drive

def World.resumesSound (w : World) (a : Action) : Bool :=
  match a, w.drive with
  | .advance _ _, some .branch => false
  | .advance _ _, some (.reattach n i d) => (w.requests n).needsResumeDeploy d → i = (w.requests n).instantEligible
  | _, _ => true

theorem World.Fits.later {m : Option Metadata} (h : w.Fits m) (hl : w.Later w')
    (hm : ∀ n, Metadata.request m = some n → n < w.count) : w'.Fits m := by
  intro n i heq
  rw [h n i heq, (hl.requests n (hm n (by rw [heq]; rfl))).eligible]

theorem World.FitsAt.later {s : Option Stage} (h : w.FitsAt s) (hl : w.Later w')
    (hs : ∀ n, s.bind Stage.request = some n → n < w.count) : w'.FitsAt s := by
  match s with
  | some (.deploy n i _) => exact h.trans (hl.requests n (hs n rfl)).eligible.symm
  | some (.reattach n i d) => exact World.Fits.later h hl hs
  | some (.result m) => exact World.Fits.later h hl hs
  | none | some .apply | some (.fresh _) | some (.prepare _) | some (.created _ _) | some .branch | some (.wait _ _)
  | some (.ready _ _) => trivial

theorem World.Sound.requests_step (h : w.Sound req) {a : Action} (ha : w.resumesSound a = true) (n : Nat) :
    ((w.step req a).requests n).Sound req := by
  have hchange := w.change_step req a n
  generalize (w.step req a).requests n = dr at hchange
  have hn := h.requests n
  cases hchange with
  | same => exact hn
  | fresh _ _ => exact ⟨fun huser => by simp [huser], rfl, nofun⟩
  | branch _ hs hadv =>
    rw [hadv] at ha
    simp [World.resumesSound, hs] at ha
  | deployed _ hby =>
    refine ⟨hn.kept, hn.validated, fun i hi => ?_⟩
    cases hi
    rcases hby with ⟨d, _, _, hd, -⟩ | ⟨-, hstored⟩
    · exact (hd ▸ h.at_drive : w.FitsAt (some (.deploy n _ d)))
    · exact h.fits n _ hstored
  | settled _ | vanished => exact ⟨hn.kept, hn.validated, hn.instant⟩

theorem World.Sound.advance (h : w.Sound req) (ok eligible : Bool) (ha : w.resumesSound (.advance ok eligible) = true)
    {s : Stage} (hs : w.drive = some s) : (w.advance req ok eligible s).Fits (w.advance req ok eligible s).stored ∧
      (w.advance req ok eligible s).FitsAt (w.advance req ok eligible s).drive := by
  have hat := h.at_drive
  have hlater := w.later_step req (.advance ok eligible)
  rw [step_advance hs] at hlater
  rw [hs] at hat
  cases s with
  | apply =>
    simp only [World.advance]
    split
    · exact ⟨h.fits, trivial⟩
    · split_ifs <;> exact ⟨h.fits, trivial⟩
    · next heq => exact ⟨h.fits, fun n i hm => h.fits n i (heq.trans hm)⟩
  | fresh persists | created persists _ =>
    cases persists
    · exact ⟨h.fits, trivial⟩
    · exact ⟨nofun, trivial⟩
  | prepare _ => exact ⟨h.fits.later hlater h.stored, trivial⟩
  | branch => simp [World.resumesSound, hs] at ha
  | wait resumes n =>
    simp only [World.advance]
    split
    · exact ⟨h.fits, h.at_drive⟩
    · exact ⟨h.fits, trivial⟩
    · exact ⟨h.fits, nofun⟩
    · exact ⟨h.fits, trivial⟩
  | ready resumes n =>
    have hready : ∀ d, w.Fits (some ⟨some n, (w.requests n).instantEligible, d⟩) := fun d n' i' hm => by
      cases hm
      rfl
    simp only [World.advance]
    split_ifs
    · exact ⟨hready _, hready _⟩
    · exact ⟨hready _, rfl⟩
    · exact ⟨h.fits, hready _⟩
    · exact ⟨h.fits, rfl⟩
  | deploy n i d =>
    have hcount : n < w.count := h.drive n (by rw [hs]; rfl)
    have hfits := h.fits.later hlater h.stored
    simp only [World.advance] at hlater hfits ⊢
    split_ifs at hlater hfits ⊢
    · refine ⟨hfits, fun n' i' hm => ?_⟩
      cases hm
      exact Eq.trans hat (hlater.requests n hcount).eligible.symm
    · exact ⟨h.fits, trivial⟩
  | reattach n i d =>
    simp only [World.advance]
    split_ifs with hlost hneeds
    · exact ⟨h.fits, trivial⟩
    · have hi : i = (w.requests n).instantEligible := by simpa [World.resumesSound, hs, hneeds] using ha
      exact ⟨h.fits, hi⟩
    · exact ⟨h.fits, hat⟩
  | result m =>
    cases m with
    | none => exact ⟨h.fits, trivial⟩
    | some m => exact ⟨hat, trivial⟩

theorem World.Sound.step (h : w.Sound req) {a : Action} (ha : w.resumesSound a = true) : (w.step req a).Sound req := by
  have hlater := w.later_step req a
  suffices hfits : (w.step req a).Fits (w.step req a).stored ∧ (w.step req a).FitsAt (w.step req a).drive from
    { h.toKnown.step a with requests := h.requests_step ha, fits := hfits.1, at_drive := hfits.2 }
  have hstirs := w.stirs_step req a
  generalize w.step req a = w' at hlater hstirs
  cases hstirs with
  | attach _ | crash => exact ⟨h.fits, trivial⟩
  | advance hs => exact h.advance _ _ ha hs
  | outside _ hdrive hstored =>
    exact ⟨hstored ▸ h.fits.later hlater h.stored, hdrive ▸ h.at_drive.later hlater h.drive⟩

/-- A resumed run keeps the guarantees of an uninterrupted one, in every run that never goes on from a branch alone, and
never deploys a stored request whose instant DDL is not what was stored of it. -/
theorem resumes_keep_guarantees (req : Request) (as : List Action)
    (h : Transition.Along (World.step req) (fun w a => w.resumesSound a = true) {} as) (n : Nat) :
    let dr := (Transition.run (World.step req) {} as).requests n
    (req.userBranch = true → dr.autoDelete = false) ∧ dr.validated = true ∧
      ∀ i, dr.deployedWith = some i → i = dr.instantEligible := by
  have hinit : World.Sound req {} :=
    { stored := nofun, drive := nofun, requests := fun _ => ⟨fun _ => rfl, rfl, nofun⟩, fits := nofun, at_drive := trivial }
  have hsound := (Transition.run_induction (fun _ _ hw ha => hw.step ha) hinit h).requests n
  exact ⟨hsound.kept, hsound.validated, hsound.instant⟩

theorem resumes_keep_guarantees_deferred :
    let as := Sample.created ++ Sample.go 3 ++ [.attach, .advance true true, .crash, .start]
    Transition.Along (World.step ⟨true, true⟩) (fun w a => w.resumesSound a = true) {} as ∧
      let dr := (Transition.run (World.step ⟨true, true⟩) {} as).requests 0
      dr.deployedWith = some true ∧ (true = true → dr.autoDelete = false) ∧ dr.validated = true ∧
        ∀ i, dr.deployedWith = some i → i = dr.instantEligible :=
  ⟨by decide, by decide, resumes_keep_guarantees ⟨true, true⟩ _ (by decide) 0⟩

/-- Cut off at its branch, the run goes on with an auto-deleting request from a branch of the user that nobody has
validated; cut off at its request, it deploys an instant-eligible request without instant DDL. -/
theorem resumes_drop_guarantees :
    let branch := (Transition.run (World.step ⟨true, false⟩) {} (.attach :: Sample.go 2 ++ [.crash, .attach] ++
      Sample.go 2)).requests 0
    let request := (Transition.run (World.step ⟨true, false⟩) {} (Sample.created ++ [.crash, .attach] ++
      Sample.go 3)).requests 0
    branch.autoDelete = true ∧ branch.validated = false ∧ request.deployedWith = some false ∧
      request.instantEligible = true := by
  decide

end SchemaBot.PlanetScale.Deploys
