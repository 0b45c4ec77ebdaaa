import SchemaBot.Lib.Run

/-!
# The Spirit engine

One engine of `pkg/engine/spirit` holds one running migration.
-/

namespace SchemaBot.Spirit


/-! ## The engine -/

inductive MigrationState
  | running | stopped | completed | failed
  deriving DecidableEq

def MigrationState.isOver : MigrationState → Bool
  | .completed | .failed => true
  | .running | .stopped => false

/-- `runningMigration`. `cancelFunc` is the goroutine that it cancels. -/
structure RunningMigration where
  originalDDLs : List String
  combinedStatement : String := ""
  tables : List String := []
  state : MigrationState := .running
  errorMessage : String := ""
  cancelFunc : Option Nat := none
  deriving DecidableEq

/-- The engine and its database: the migrations that were ever installed, the goroutines whose context is
cancelled, the statements that have taken effect, and those that goroutines have started. -/
structure Engine where
  migrations : List RunningMigration := []
  runningMigration : Option Nat := none
  cancelled : List Nat := []
  effects : List String := []
  started : List (Nat × String) := []
  deriving DecidableEq

inductive StatementType
  | createTable | dropTable | other
  deriving DecidableEq

/-- What the engine gets from outside: the classification and the tables of a statement, and whether a statement
that is run where it has taken effect changes nothing (`IF NOT EXISTS`, `IF EXISTS`); any other fails there. -/
structure Host where
  classifyStatement : String → Except String StatementType
  tables : String → Except String (List String)
  idempotent : String → Bool
  disablePendingDrops : Bool := false

def Engine.onRunning (e : Engine) (f : RunningMigration → RunningMigration) : Engine :=
  match e.runningMigration with
  | none => e
  | some m => { e with migrations := e.migrations.modify m f }

def Engine.stateOf (e : Engine) (m : Nat) : Option MigrationState := e.migrations[m]?.map (·.state)

/-! ## The goroutine of a migration -/

/-- The steps of a goroutine: its records, its looks at its context, and its statements. An `ALTER` starts with one
step and ends with another, so that it can be stopped in between. -/
inductive Task
  | setCancelFunc
  | single (what stmt : String)
  | track (combinedStatement : String) (tables : List String)
  | startAlter (combinedStatement : String)
  | alter (combinedStatement : String)
  | alterFailed (err : String)
  | checkStopped
  | setMigrationFailed (err : String)
  | setMigrationCompleted
  deriving DecidableEq

section
variable (host : Host) (g : Nat)

def Engine.begin (e : Engine) (stmt : String) : Engine :=
  if g ∈ e.cancelled then e else { e with started := e.started ++ [(g, stmt)] }

def Host.exec (stmt : String) (e : Engine) : Engine × Except String Unit :=
  if g ∈ e.cancelled then (e, .error "context canceled")
  else if stmt ∈ e.effects then (e, if host.idempotent stmt then .ok () else .error "already exists")
  else ({ e with effects := e.effects ++ [stmt] }, .ok ())

/-- One step of goroutine `g`, and the steps that are left. A failed statement ends the work, as a stop where the
context is cancelled; an `ALTER` that was stopped counts as done. -/
def Host.work (e : Engine) : List Task → Engine × List Task
  | [] => (e, [])
  | .setCancelFunc :: rest => (e.onRunning ({ · with cancelFunc := some g }), rest)
  | .single what stmt :: rest =>
    match host.exec g stmt (e.begin g stmt) with
    | (e, .ok ()) => (e, rest)
    | (e, .error err) => (e, [.checkStopped, .setMigrationFailed (what ++ err)])
  | .track combinedStatement tables :: rest => (e.onRunning ({ · with combinedStatement, tables }), rest)
  | .startAlter combinedStatement :: rest => (e.begin g combinedStatement, rest)
  | .alter combinedStatement :: rest =>
    match host.exec g combinedStatement e with
    | (e, .ok ()) => (e, rest)
    | (e, .error err) => (e, .alterFailed err :: rest)
  | .alterFailed err :: rest =>
    (e, if g ∈ e.cancelled then rest else [.setMigrationFailed ("schema change failed: " ++ err)])
  | .checkStopped :: rest => (e, if g ∈ e.cancelled then [] else rest)
  | .setMigrationFailed err :: _ => (e.onRunning ({ · with state := .failed, errorMessage := err }), [])
  | .setMigrationCompleted :: _ => (e.onRunning ({ · with state := .completed }), [])

def executeCreateStatements (creates : List String) : List Task := creates.map (.single "CREATE TABLE failed: ")

def executeDropStatements (drops : List String) : List Task :=
  drops.map (.single ("DROP TABLE phase failed: " ++
    if host.disablePendingDrops then "drop table directly: " else "quarantine dropped table: "))

def executeSpiritMigration (combinedStatement : String) : List Task :=
  match host.tables combinedStatement with
  | .error err => [.setMigrationFailed ("failed to parse combined statement: " ++ err)]
  | .ok tables => [.track combinedStatement tables, .startAlter combinedStatement, .alter combinedStatement]

structure DdlPhases where
  creates : List String := []
  alters : List String := []
  drops : List String := []

def Host.classifyDDLPhases : List String → Except String DdlPhases
  | [] => .ok {}
  | stmt :: rest => do
    let stmtType ← host.classifyStatement stmt
    let phases ← classifyDDLPhases rest
    return match stmtType with
      | .createTable => { phases with creates := stmt :: phases.creates }
      | .dropTable => { phases with drops := stmt :: phases.drops }
      | .other => { phases with alters := stmt :: phases.alters }

def executeAlterPhase (alters : List String) : List Task :=
  if alters = [] then [] else executeSpiritMigration host ("; ".intercalate alters)

/-- What `executeMigration` and `resumeMigration` end with. -/
def finishMigration (drops : List String) : List Task :=
  executeDropStatements host drops ++ [.checkStopped, .setMigrationCompleted]

def executeMigration (ddlStatements : List String) : List Task :=
  match host.classifyDDLPhases ddlStatements with
  | .error err => [.setMigrationFailed err]
  | .ok phases =>
    executeCreateStatements phases.creates ++ executeAlterPhase host phases.alters ++ finishMigration host phases.drops

def resumeMigration (originalDDLs : List String) (combinedStatement : String) : List Task :=
  if combinedStatement = "" then executeMigration host originalDDLs
  else
    executeSpiritMigration host combinedStatement ++ .checkStopped ::
      match host.classifyDDLPhases originalDDLs with
      | .error err => [.setMigrationFailed err]
      | .ok phases => finishMigration host phases.drops

end

/-! ## Calls and goroutines side by side -/

structure Goroutine where
  owner : Nat
  tasks : List Task
  deriving DecidableEq

def Goroutine.alive (t : Goroutine) : Bool := !t.tasks.isEmpty

/-- Where a call is; `Volume` is a stop that restarts. -/
inductive Stage
  | drain (ddls : List String)
  | drained (m : Nat) (ddls : List String)
  | clear (ddls : List String)
  | install (ddls : List String)
  | spawn (m : Nat) (body : List Task)
  | volume (unchanged : Bool)
  | stop (restarts : Bool)
  | cancel (m : Nat) (restarts : Bool)
  | await (m : Nat) (restarts : Bool)
  | start
  | restart (m : Nat) (originalDDLs : List String) (combinedStatement : String)
  | ended

def Stage.isEnded : Stage → Bool
  | .ended => true
  | _ => false

/-- `halted` are the migrations whose `Stop` has returned and that no `Start` has taken up since. -/
structure Shared where
  engine : Engine := {}
  goroutines : List Goroutine := []
  halted : List Nat := []

structure World where
  shared : Shared := {}
  calls : List Stage := []

def Shared.alive (c : Shared) (m : Nat) : Bool := c.goroutines.any fun t => t.owner = m && t.alive

/-- What `Stop` goes on with when it returns. -/
def Shared.stopReturns (c : Shared) (m : Nat) (restarts : Bool) : Shared × Stage :=
  ({ c with halted := m :: c.halted }, if restarts then .start else .ended)

def Shared.advance (host : Host) (c : Shared) : Stage → Shared × Stage
  | .drain ddls =>
    (c, match c.engine.runningMigration with
      | none => .install ddls
      | some m => .drained m ddls)
  | .drained m ddls => (c, if c.alive m then .drained m ddls else .clear ddls)
  | .clear ddls => ({ c with engine := { c.engine with runningMigration := none } }, .install ddls)
  | .install ddls =>
    let m := c.engine.migrations.length
    ({ c with engine := { c.engine with
        migrations := c.engine.migrations ++ [{ originalDDLs := ddls }], runningMigration := some m } },
      .spawn m (executeMigration host ddls))
  | .spawn m body => ({ c with goroutines := c.goroutines ++ [⟨m, .setCancelFunc :: body⟩] }, .ended)
  | .volume unchanged =>
    (c, if c.engine.runningMigration.isNone || unchanged then .ended else .stop true)
  | .stop restarts =>
    match c.engine.runningMigration with
    | none => (c, .ended)
    | some m =>
      if c.engine.stateOf m = some .stopped then c.stopReturns m restarts else (c, .cancel m restarts)
  | .cancel m restarts =>
    let cancelled := (c.engine.migrations[m]?.bind (·.cancelFunc)).toList ++ c.engine.cancelled
    let migrations := c.engine.migrations.modify m ({ · with state := .stopped })
    ({ c with engine := { c.engine with migrations, cancelled } }, .await m restarts)
  | .await m restarts => if c.alive m then (c, .await m restarts) else c.stopReturns m restarts
  | .start =>
    (c, match c.engine.runningMigration with
      | none => .ended
      | some m =>
        match c.engine.migrations[m]? with
        | none => .ended
        | some r => if r.state = .stopped then .restart m r.originalDDLs r.combinedStatement else .ended)
  | .restart m originalDDLs combinedStatement =>
    ({ c with
        engine := { c.engine with migrations := c.engine.migrations.modify m ({ · with state := .running }) }
        halted := c.halted.filter (· ≠ m) },
      .spawn m (resumeMigration host originalDDLs combinedStatement))
  | .ended => (c, .ended)

inductive Action
  | apply (ddls : List String)
  | stop
  | start
  | volume (unchanged : Bool)
  | advance (i : Nat)
  | work (g : Nat)
  deriving DecidableEq

def Action.begins : Action → Option Stage
  | .apply ddls => some (.drain ddls)
  | .stop => some (.stop false)
  | .start => some .start
  | .volume unchanged => some (.volume unchanged)
  | .advance _ | .work _ => none

def Shared.work (host : Host) (c : Shared) (g : Nat) : Shared :=
  match c.goroutines[g]? with
  | none => c
  | some t =>
    let (engine, tasks) := host.work g c.engine t.tasks
    { c with engine, goroutines := c.goroutines.set g { t with tasks } }

def World.step (host : Host) (w : World) (a : Action) : World :=
  match a.begins, a with
  | some stage, _ => { w with calls := w.calls ++ [stage] }
  | none, .advance i =>
    match w.calls[i]? with
    | none => w
    | some stage => ⟨(w.shared.advance host stage).1, w.calls.set i (w.shared.advance host stage).2⟩
  | none, .work g => { w with shared := w.shared.work host g }
  | none, _ => w

/-! ## What the calls keep -/

section
variable {e : Engine} {f : RunningMigration → RunningMigration} {m : Nat}

@[simp] theorem onRunning_runningMigration : (e.onRunning f).runningMigration = e.runningMigration := by
  unfold Engine.onRunning
  split <;> simp_all

@[simp] theorem onRunning_length : (e.onRunning f).migrations.length = e.migrations.length := by
  unfold Engine.onRunning
  split <;> simp

theorem onRunning_other (h : e.runningMigration ≠ some m) : (e.onRunning f).migrations[m]? = e.migrations[m]? := by
  unfold Engine.onRunning
  split
  · rfl
  · next n hn =>
    have hne : n ≠ m := fun heq => h (heq ▸ hn)
    simp [hne]

theorem onRunning_stateOf (hf : ∀ r, (f r).state = r.state) : (e.onRunning f).stateOf m = e.stateOf m := by
  unfold Engine.onRunning Engine.stateOf
  split
  · rfl
  · rw [List.getElem?_modify]
    cases e.migrations[m]? with
    | none => rfl
    | some r => simp [apply_ite RunningMigration.state, hf]

end

def Shared.Quiet (c : Shared) : Prop := ∀ t ∈ c.goroutines, t.alive = false

def Shared.Fits (c : Shared) : Stage → Prop
  | .drained m _ | .cancel m _ | .await m _ => c.engine.runningMigration = some m
  | .clear _ | .install _ => c.Quiet
  | .spawn m _ =>
    c.engine.runningMigration = some m ∧ c.Quiet ∧ c.engine.stateOf m = some .running ∧ m ∉ c.halted
  | .restart m _ _ => c.engine.runningMigration = some m ∧ c.Quiet ∧ c.engine.stateOf m = some .stopped
  | .drain _ | .volume _ | .stop _ | .start | .ended => True

structure Shared.Sound (c : Shared) (s : Stage) : Prop where
  own : ∀ t ∈ c.goroutines, t.alive = true → c.engine.runningMigration = some t.owner
  single : ∀ (i j : Nat) (t u : Goroutine), c.goroutines[i]? = some t → c.goroutines[j]? = some u →
    t.alive = true → u.alive = true → i = j
  valid : ∀ m, c.engine.runningMigration = some m → m < c.engine.migrations.length
  halted : ∀ m ∈ c.halted, c.alive m = false ∧ m < c.engine.migrations.length
  fits : c.Fits s
  stopped : ∀ m, c.engine.stateOf m = some .stopped → c.alive m = true → ∃ r, s = .await m r

structure Engine.Moves (e e' : Engine) : Prop where
  runningMigration : e'.runningMigration = e.runningMigration
  length : e'.migrations.length = e.migrations.length
  other : ∀ m, e.runningMigration ≠ some m → e'.migrations[m]? = e.migrations[m]?
  state : ∀ m, e'.stateOf m = e.stateOf m ∨ (e'.stateOf m).any (·.isOver) = true

theorem Engine.Moves.onRunning {e : Engine} {f : RunningMigration → RunningMigration}
    (hf : (∀ r, (f r).state = r.state) ∨ ∀ r, (f r).state.isOver = true) : e.Moves (e.onRunning f) := by
  refine ⟨by simp, by simp, fun _ => onRunning_other, fun m => ?_⟩
  rcases hf with hf | hf
  · exact .inl (onRunning_stateOf hf)
  · unfold Engine.onRunning Engine.stateOf
    split
    · exact .inl rfl
    · next n _ =>
      rw [List.getElem?_modify]
      by_cases hm : n = m
      · cases hr : e.migrations[m]? with
        | none => simp
        | some r => simp [hm, hf]
      · simp [hm]

theorem Host.work_moves (host : Host) (g : Nat) (e : Engine) (ts : List Task) : e.Moves (host.work g e ts).1 ∧
      ((∀ m, (host.work g e ts).1.stateOf m = e.stateOf m) ∨ (host.work g e ts).2 = []) := by
  have hrun : ∀ (effects : List String) (started : List (Nat × String)), e.Moves { e with effects, started } :=
    fun _ _ => ⟨rfl, rfl, fun _ _ => rfl, fun _ => .inl rfl⟩
  cases ts with
  | nil => exact ⟨hrun _ _, .inr rfl⟩
  | cons t rest =>
    cases t with
    | setCancelFunc | track _ _ =>
      exact ⟨.onRunning (.inl fun _ => rfl), .inl fun m => onRunning_stateOf fun _ => rfl⟩
    | setMigrationFailed _ | setMigrationCompleted => exact ⟨.onRunning (.inr fun _ => rfl), .inr rfl⟩
    | alterFailed _ | checkStopped => exact ⟨hrun _ _, .inl fun _ => rfl⟩
    | startAlter stmt =>
      simp only [Host.work, Engine.begin]
      split <;> exact ⟨hrun _ _, .inl fun _ => rfl⟩
    | single what stmt =>
      simp only [Host.work, Host.exec, Engine.begin]
      split <;> rename_i heq <;> (repeat' split at heq) <;> cases heq <;> exact ⟨hrun _ _, .inl fun _ => rfl⟩
    | alter stmt =>
      simp only [Host.work, Host.exec]
      split <;> rename_i heq <;> (repeat' split at heq) <;> cases heq <;> exact ⟨hrun _ _, .inl fun _ => rfl⟩

section
variable {host : Host} {c : Shared} {s : Stage} {g : Nat} {m : Nat}

theorem Shared.alive_iff : c.alive m = true ↔ ∃ t ∈ c.goroutines, t.owner = m ∧ t.alive = true := by
  simp [Shared.alive]

theorem Shared.Sound.quiet (hs : c.Sound s) (hm : c.engine.runningMigration = some m)
    (h : c.alive m = false) : c.Quiet := by
  intro t ht
  by_contra halive
  rw [Bool.not_eq_false] at halive
  have howner : t.owner = m := Option.some.inj ((hs.own t ht halive).symm.trans hm)
  have := Shared.alive_iff.2 ⟨t, ht, howner, halive⟩
  simp [h] at this

theorem Shared.Quiet.not_alive (h : c.Quiet) (m : Nat) : c.alive m = false := by
  rw [Bool.eq_false_iff]
  intro halive
  obtain ⟨t, ht, -, ht'⟩ := Shared.alive_iff.1 halive
  simp [h t ht] at ht'

theorem Shared.work_of_dead (h : ∀ t, c.goroutines[g]? = some t → t.alive = false) : c.work host g = c := by
  unfold Shared.work
  cases ht : c.goroutines[g]? with
  | none => rfl
  | some t =>
    obtain ⟨hlt, heq⟩ := List.getElem?_eq_some_iff.1 ht
    obtain ⟨owner, tasks⟩ := t
    obtain rfl : tasks = [] := by simpa [Goroutine.alive] using h _ ht
    simp only [Host.work]
    rw [← heq, List.set_getElem_self]

theorem Shared.Sound.work_alive (host : Host) (hs : c.Sound s) {t : Goroutine} (ht : c.goroutines[g]? = some t)
    (halive : t.alive = true) : c.engine.Moves (c.work host g).engine ∧ (c.work host g).halted = c.halted ∧
      ((∀ m, (c.work host g).engine.stateOf m = c.engine.stateOf m) ∨ (c.work host g).Quiet) ∧
      ∀ (i : Nat) (u : Goroutine), (c.work host g).goroutines[i]? = some u → u.alive = true →
        i = g ∧ u.owner = t.owner := by
  obtain ⟨hmoves, hend⟩ := host.work_moves g c.engine t.tasks
  have hold : ∀ (i : Nat) (u : Goroutine), (c.work host g).goroutines[i]? = some u → u.alive = true →
      i = g ∧ u = { t with tasks := (host.work g c.engine t.tasks).2 } := by
    intro i u hu hlive
    simp only [Shared.work, ht] at hu
    by_cases hi : g = i
    · subst hi
      rw [List.getElem?_set_self (List.getElem?_eq_some_iff.1 ht).1] at hu
      cases hu
      exact ⟨rfl, rfl⟩
    · rw [List.getElem?_set_ne hi] at hu
      exact absurd (hs.single g i t u ht hu halive hlive) hi
  refine ⟨?_, ?_, hend.imp (fun h => ?_) (fun h u hu => ?_), fun i u hu hlive => ?_⟩
  · simpa only [Shared.work, ht] using hmoves
  · simp only [Shared.work, ht]
  · simpa only [Shared.work, ht] using h
  · by_contra hlive
    obtain ⟨i, hi⟩ := List.mem_iff_getElem?.1 hu
    obtain ⟨-, rfl⟩ := hold i u hi (by simpa using hlive)
    simp [Goroutine.alive, h] at hlive
  · exact ⟨(hold i u hu hlive).1, by rw [(hold i u hu hlive).2]⟩

theorem Shared.Sound.work (hs : c.Sound s) (g : Nat) : (c.work host g).Sound s := by
  by_cases hdead : ∀ t, c.goroutines[g]? = some t → t.alive = false
  · rwa [Shared.work_of_dead hdead]
  · push Not at hdead
    obtain ⟨t, ht, halive⟩ := hdead
    rw [ne_eq, Bool.not_eq_false] at halive
    have hmem := List.mem_of_getElem? ht
    obtain ⟨hmoves, hhalted, -, hold⟩ := Shared.Sound.work_alive host hs ht halive
    have hnoisy : ¬ c.Quiet := fun hq => by simp [hq t hmem] at halive
    have halready : ∀ m, (c.work host g).alive m = true → c.alive m = true := by
      intro m hm
      obtain ⟨u, hu, howner, hlive⟩ := Shared.alive_iff.1 hm
      obtain ⟨i, hi⟩ := List.mem_iff_getElem?.1 hu
      exact Shared.alive_iff.2 ⟨t, hmem, (hold i u hi hlive).2.symm.trans howner, halive⟩
    refine ⟨fun u hu hlive => ?_, fun i j u v hu hv hlu hlv => ?_, fun m hm => ?_, fun m hm => ⟨?_, ?_⟩, ?_,
      fun m hm hlive => ?_⟩
    · obtain ⟨i, hi⟩ := List.mem_iff_getElem?.1 hu
      rw [(hold i u hi hlive).2, hmoves.runningMigration]
      exact hs.own t hmem halive
    · rw [(hold i u hu hlu).1, (hold j v hv hlv).1]
    · rw [hmoves.length]
      exact hs.valid m (hmoves.runningMigration.symm.trans hm)
    · rw [Bool.eq_false_iff]
      intro hlive
      exact Bool.eq_false_iff.1 (hs.halted m (hhalted ▸ hm)).1 (halready m hlive)
    · rw [hmoves.length]
      exact (hs.halted m (hhalted ▸ hm)).2
    · cases s with
      | drained m _ | cancel m _ | await m _ => exact hmoves.runningMigration.trans hs.fits
      | clear _ | install _ => exact absurd hs.fits hnoisy
      | spawn m body | restart m _ _ => exact absurd hs.fits.2.1 hnoisy
      | drain _ | volume _ | stop _ | start | ended => trivial
    · refine hs.stopped m ?_ (halready m hlive)
      rcases hmoves.state m with hsame | hover
      · rw [← hsame]
        exact hm
      · rw [hm] at hover
        cases hover

theorem Shared.Sound.not_alive (hs : c.Sound s) (hstopped : c.engine.stateOf m = some .stopped)
    (hs' : ∀ r, s ≠ .await m r) : c.alive m = false := by
  rw [Bool.eq_false_iff]
  intro halive
  obtain ⟨r, hr⟩ := hs.stopped m hstopped halive
  exact hs' r hr

theorem Shared.Sound.goto (hs : c.Sound s) {s' : Stage} (hfits : c.Fits s')
    (hawait : ∀ m r, s = .await m r → c.alive m = true → ∃ r, s' = .await m r := by rintro _ _ ⟨⟩) : c.Sound s' :=
  { hs with
    fits := hfits
    stopped := fun m hm halive => by
      obtain ⟨r, hr⟩ := hs.stopped m hm halive
      exact hawait m r hr halive }

theorem Shared.Sound.stopReturns (hs : c.Sound s) (halive : c.alive m = false)
    (hm : m < c.engine.migrations.length) (hrun : c.engine.runningMigration = some m) (restarts : Bool) :
    (c.stopReturns m restarts).1.Sound (c.stopReturns m restarts).2 := by
  have hquiet := hs.quiet hrun halive
  refine { hs with halted := fun n hn => ?_, fits := ?_, stopped := fun n _ hn => ?_ }
  · rcases List.mem_cons.1 hn with rfl | hn
    · exact ⟨halive, hm⟩
    · exact hs.halted n hn
  · cases restarts <;> exact trivial
  · have := hquiet.not_alive n
    rw [show c.alive n = true from hn] at this
    cases this

theorem stateOf_append (e : Engine) (r : RunningMigration) (m : Nat) :
    Option.map (·.state) (e.migrations ++ [r])[m]? =
      if m = e.migrations.length then some r.state else e.stateOf m := by
  unfold Engine.stateOf
  rcases Nat.lt_trichotomy m e.migrations.length with h | rfl | h
  · rw [List.getElem?_append_left h, if_neg (Nat.ne_of_lt h)]
  · simp
  · rw [if_neg (Nat.ne_of_gt h), List.getElem?_eq_none (by simp; omega), List.getElem?_eq_none (Nat.le_of_lt h)]

theorem stateOf_modify (e : Engine) (st : MigrationState) (n m : Nat) :
    Option.map (·.state) (e.migrations.modify n ({ · with state := st }))[m]? =
      if n = m then (e.stateOf m).map fun _ => st else e.stateOf m := by
  unfold Engine.stateOf
  rw [List.getElem?_modify]
  by_cases h : n = m <;> cases e.migrations[m]? <;> simp [h]

theorem Shared.Sound.of_quiet (hquiet : c.Quiet)
    (valid : ∀ m, c.engine.runningMigration = some m → m < c.engine.migrations.length)
    (halted : ∀ m ∈ c.halted, m < c.engine.migrations.length) (fits : c.Fits s) : c.Sound s := by
  refine ⟨fun t ht halive => ?_, fun i j t u ht _ halive _ => ?_, valid,
    fun m hm => ⟨hquiet.not_alive m, halted m hm⟩, fits, fun m _ halive => ?_⟩
  · cases halive.symm.trans (hquiet t ht)
  · cases halive.symm.trans (hquiet t (List.mem_of_getElem? ht))
  · cases halive.symm.trans (hquiet.not_alive m)

theorem Shared.Sound.advance (hs : c.Sound s) : (c.advance host s).1.Sound (c.advance host s).2 := by
  cases s with
  | drain ddls =>
    cases hr : c.engine.runningMigration with
    | none =>
      simp only [Shared.advance, hr]
      refine hs.goto fun t ht => ?_
      by_contra halive
      have hown := hs.own t ht (by simpa using halive)
      rw [hr] at hown
      cases hown
    | some m =>
      simp only [Shared.advance, hr]
      exact hs.goto hr
  | drained m ddls =>
    simp only [Shared.advance]
    split
    · exact hs
    · next h => exact hs.goto (hs.quiet hs.fits (by simpa using h))
  | clear ddls => exact .of_quiet hs.fits (fun m hm => by cases hm) (fun m hm => (hs.halted m hm).2) hs.fits
  | install ddls =>
    refine .of_quiet hs.fits (fun m hm => ?_) (fun m hm => ?_)
      ⟨rfl, hs.fits, ?_, fun hm => ?_⟩
    · cases hm
      simp [Shared.advance]
    · simpa [Shared.advance] using Nat.lt_succ_of_lt (hs.halted m hm).2
    · exact (stateOf_append c.engine _ _).trans (if_pos rfl)
    · exact absurd (hs.halted _ hm).2 (Nat.lt_irrefl _)
  | spawn m body =>
    obtain ⟨hrun, hquiet, hstate, hhalted⟩ := hs.fits
    have hnew : ∀ (i : Nat) (t : Goroutine), (c.goroutines ++ [⟨m, .setCancelFunc :: body⟩])[i]? = some t → t.alive = true → i = c.goroutines.length ∧ t.owner = m := by
      intro i t ht halive
      rcases Nat.lt_trichotomy i c.goroutines.length with hi | rfl | hi
      · rw [List.getElem?_append_left hi] at ht
        simp [hquiet t (List.mem_of_getElem? ht)] at halive
      · simp only [List.getElem?_concat_length, Option.some.injEq] at ht
        exact ⟨rfl, ht ▸ rfl⟩
      · rw [List.getElem?_eq_none (by simp; omega)] at ht
        cases ht
    have halive : ∀ n, (c.advance host (.spawn m body)).1.alive n = true → n = m := by
      intro n hn
      obtain ⟨t, ht, howner, hlive⟩ := Shared.alive_iff.1 hn
      obtain ⟨i, hi⟩ := List.mem_iff_getElem?.1 ht
      rw [← howner, (hnew i t hi hlive).2]
    refine ⟨fun t ht hlive => ?_, fun i j t u ht hu htl hul => ?_, hs.valid, fun n hn => ⟨?_, (hs.halted n hn).2⟩,
      trivial, fun n hn hlive => ?_⟩
    · obtain ⟨i, hi⟩ := List.mem_iff_getElem?.1 ht
      rw [(hnew i t hi hlive).2]
      exact hrun
    · rw [(hnew i t ht htl).1, (hnew j u hu hul).1]
    · rw [Bool.eq_false_iff]
      intro hlive
      exact hhalted (halive n hlive ▸ hn)
    · rw [halive n hlive] at hn
      cases hn.symm.trans hstate
  | volume unchanged =>
    simp only [Shared.advance]
    split
    · exact hs.goto trivial
    · exact hs.goto trivial
  | stop restarts =>
    simp only [Shared.advance]
    cases hr : c.engine.runningMigration with
    | none => exact hs.goto trivial
    | some m =>
      dsimp only
      split
      · next hstopped =>
        exact hs.stopReturns (hs.not_alive hstopped (by rintro _ ⟨⟩)) (hs.valid m hr) hr restarts
      · exact hs.goto hr
  | cancel m restarts =>
    have hrun : c.engine.runningMigration = some m := hs.fits
    refine ⟨hs.own, hs.single, fun n hn => ?_, fun n hn => ⟨(hs.halted n hn).1, ?_⟩, hrun,
      fun n _ halive => ⟨restarts, ?_⟩⟩
    · simpa [Shared.advance] using hs.valid n hn
    · simpa [Shared.advance] using (hs.halted n hn).2
    · obtain ⟨t, ht, howner, hlive⟩ := Shared.alive_iff.1 halive
      have hn : m = n := Option.some.inj (hrun.symm.trans ((hs.own t ht hlive).trans (congrArg some howner)))
      rw [hn]
      rfl
  | await m restarts =>
    simp only [Shared.advance]
    split
    · exact hs
    · next h => exact hs.stopReturns (by simpa using h) (hs.valid m hs.fits) hs.fits restarts
  | start =>
    cases hr : c.engine.runningMigration with
    | none =>
      simp only [Shared.advance, hr]
      exact hs.goto trivial
    | some m =>
      cases hm : c.engine.migrations[m]? with
      | none =>
        simp only [Shared.advance, hr, hm]
        exact hs.goto trivial
      | some r =>
        simp only [Shared.advance, hr, hm]
        split
        · next hstate =>
          have hstopped : c.engine.stateOf m = some .stopped := by rw [Engine.stateOf, hm, Option.map_some, hstate]
          exact hs.goto ⟨hr, hs.quiet hr (hs.not_alive hstopped (by rintro _ ⟨⟩)), hstopped⟩
        · exact hs.goto trivial
  | restart m ddls combined =>
    obtain ⟨hrun, hquiet, hstate⟩ := hs.fits
    refine .of_quiet hquiet (fun n hn => ?_) (fun n hn => ?_)
      ⟨hrun, hquiet, ?_, ?_⟩
    · simpa [Shared.advance] using hs.valid n hn
    · simpa [Shared.advance] using (hs.halted n (List.mem_of_mem_filter hn)).2
    · exact (stateOf_modify c.engine .running m m).trans (by rw [if_pos rfl, hstate]; rfl)
    · simp [Shared.advance]
  | ended => exact hs

end

/-! ## One call at a time -/

/-- The engine while calls are made in turn: one begins, the one in progress goes on from a stage in `P`, or a
goroutine works. -/
inductive Shared.Move (host : Host) (P : Stage → Prop) (c : Shared) : Stage → Shared → Stage → Prop
  | begin {a : Action} {s : Stage} (h : a.begins = some s) : Move host P c .ended c s
  | advance {s : Stage} (h : P s) : Move host P c s (c.advance host s).1 (c.advance host s).2
  | work {s : Stage} (g : Nat) : Move host P c s (c.work host g) s
  | stay {s : Stage} : Move host P c s c s

def InProgress (calls : List Stage) (s : Stage) : Prop :=
  (s = .ended ∧ ∀ s' ∈ calls, s'.isEnded = true) ∨
    ∃ i, calls[i]? = some s ∧ ∀ (j : Nat) (s' : Stage), j ≠ i → calls[j]? = some s' → s'.isEnded = true

def World.callsInTurn (w : World) (a : Action) : Bool := a.begins.isNone || w.calls.all (·.isEnded)

section
variable {host : Host} {P : Stage → Prop} {w : World} {c c' : Shared} {s s' : Stage}

theorem eq_ended (h : s.isEnded = true) : s = .ended := by
  cases s <;> first | rfl | cases h

theorem InProgress.begin (h : ∀ s ∈ w.calls, s.isEnded = true) (s : Stage) : InProgress (w.calls ++ [s]) s := by
  refine .inr ⟨w.calls.length, by simp, fun j s' hj hs' => ?_⟩
  have hlt : j < w.calls.length := by
    have := (List.getElem?_eq_some_iff.1 hs').1
    simp at this
    omega
  rw [List.getElem?_append_left hlt] at hs'
  exact h s' (List.mem_of_getElem? hs')

theorem World.move (host : Host) (hp : InProgress w.calls s) {a : Action} (ha : w.callsInTurn a = true)
    (hP : ∀ i s, a = .advance i → w.calls[i]? = some s → P s) :
    ∃ s', InProgress (w.step host a).calls s' ∧ w.shared.Move host P s (w.step host a).shared s' := by
  cases hb : a.begins with
  | some s' =>
    have hall : ∀ s' ∈ w.calls, s'.isEnded = true := by simpa [World.callsInTurn, hb] using ha
    have hs : s = .ended := by
      rcases hp with ⟨rfl, -⟩ | ⟨i, hi, -⟩
      · rfl
      · exact eq_ended (hall s (List.mem_of_getElem? hi))
    have hstep : w.step host a = { w with calls := w.calls ++ [s'] } := by simp [World.step, hb]
    rw [hstep, hs]
    exact ⟨s', .begin hall s', .begin hb⟩
  | none =>
    cases a with
    | work g => exact ⟨s, hp, .work g⟩
    | advance i =>
      unfold World.step
      cases hi : w.calls[i]? with
      | none => simpa [Action.begins, hi] using ⟨s, hp, .stay⟩
      | some s' =>
        simp only [Action.begins, hi]
        obtain ⟨hlt, heq⟩ := List.getElem?_eq_some_iff.1 hi
        cases hs' : s'.isEnded with
        | true =>
          obtain rfl := eq_ended hs'
          simp only [Shared.advance]
          rw [← heq, List.set_getElem_self]
          exact ⟨s, hp, .stay⟩
        | false =>
          rcases hp with ⟨-, hall⟩ | ⟨i', hi', hothers⟩
          · cases hs'.symm.trans (hall s' (List.mem_of_getElem? hi))
          · obtain rfl : i = i' := by
              by_contra hne
              cases hs'.symm.trans (hothers i s' hne hi)
            cases hi.symm.trans hi'
            refine ⟨_, .inr ⟨i, List.getElem?_set_self hlt, fun j s' hj hs' => ?_⟩, .advance (hP i s rfl hi)⟩
            rw [List.getElem?_set_ne (Ne.symm hj)] at hs'
            exact hothers j s' hj hs'
    | _ => cases hb

theorem Shared.Sound.move (hs : c.Sound s) (h : c.Move host P s c' s') : c'.Sound s' := by
  cases h with
  | @begin a s' hb => cases a <;> cases hb <;> exact hs.goto trivial
  | advance _ => exact hs.advance
  | work g => exact hs.work g
  | stay => exact hs

theorem sound_initial : ∃ s, InProgress ({} : World).calls s ∧ ({} : World).shared.Sound s :=
  ⟨.ended, .inl ⟨rfl, nofun⟩, .of_quiet nofun nofun nofun trivial⟩

end

/-! ## One goroutine at a time -/

/-- Where calls are made in turn, at most one goroutine is left at any time, and what it records it records on the
migration that it was started for. -/
theorem goroutines_keep_to_their_migration (host : Host) (as : List Action)
    (h : Transition.Along (World.step host) (fun w a => w.callsInTurn a = true) {} as) :
    let c := (Transition.run (World.step host) {} as).shared
    (∀ (i j : Nat) (t u : Goroutine), c.goroutines[i]? = some t → c.goroutines[j]? = some u →
      t.alive = true → u.alive = true → i = j) ∧
    ∀ (g : Nat) (t : Goroutine), c.goroutines[g]? = some t → t.alive = true →
      c.engine.runningMigration = some t.owner ∧
        ∀ m, m ≠ t.owner → (c.work host g).engine.migrations[m]? = c.engine.migrations[m]? := by
  obtain ⟨s, -, hs⟩ := Transition.run_induction (I := fun w : World => ∃ s, InProgress w.calls s ∧ w.shared.Sound s)
    (fun w a ⟨s, hp, hs⟩ ha => by
      obtain ⟨s', hp', hmove⟩ := World.move host hp ha fun _ _ _ _ => trivial
      exact ⟨s', hp', hs.move hmove⟩) sound_initial h
  refine ⟨hs.single, fun g t ht halive => ?_⟩
  have hrun := hs.own t (List.mem_of_getElem? ht) halive
  refine ⟨hrun, fun m hm => (Shared.Sound.work_alive host hs ht halive).1.other m ?_⟩
  rw [hrun]
  exact fun heq => hm (Option.some.inj heq).symm

def Sample.host : Host where
  classifyStatement stmt := .ok (if stmt = "CREATE TABLE a" then .createTable else .other)
  tables stmt := .ok [stmt]
  idempotent _ := false

def Sample.migrated : List Action :=
  [.apply ["CREATE TABLE a"], .advance 0, .advance 0, .advance 0, .work 0, .work 0, .work 0, .work 0]

theorem second_apply_waits :
    let as := Sample.migrated ++ [.apply ["ALTER"], .advance 1, .advance 1, .advance 1, .advance 1, .advance 1, .work 1]
    Transition.Along (World.step Sample.host) (fun w a => w.callsInTurn a = true) {} as ∧
      let c := (Transition.run (World.step Sample.host) {} as).shared
      c.goroutines.map (·.alive) = [false, true] ∧
        ∀ (g : Nat) (t : Goroutine), c.goroutines[g]? = some t → t.alive = true →
          c.engine.runningMigration = some t.owner ∧
            ∀ m, m ≠ t.owner → (c.work Sample.host g).engine.migrations[m]? = c.engine.migrations[m]? := by
  refine ⟨by decide +kernel, by decide +kernel, ?_⟩
  exact (goroutines_keep_to_their_migration Sample.host _ (by decide +kernel)).2

/-- Two calls of `Apply` find no migration, and both install theirs: two goroutines run, and the first records its
cancel function on the migration of the second. -/
theorem overlapping_applies_share_migration :
    let as := [.apply ["CREATE TABLE a"], .apply ["ALTER"], .advance 0, .advance 1, .advance 0, .advance 1, .advance 0,
      .advance 1]
    let c := (Transition.run (World.step Sample.host) {} as).shared
    c.goroutines.map (fun t => (t.owner, t.alive)) = [(0, true), (1, true)] ∧
      (c.work Sample.host 0).engine.migrations.map (·.cancelFunc) = [none, some 0] := by
  decide +kernel

/-! ## Stops and ends that last -/

def Shared.Over (c : Shared) (m : Nat) : Prop := (c.engine.stateOf m).any (·.isOver) = true

def World.stopsWork (w : World) : Action → Bool
  | .advance i =>
    match w.calls[i]? with
    | some (.cancel m _) => !(w.shared.engine.stateOf m).any (·.isOver)
    | _ => true
  | _ => true

def World.Starts (host : Host) (w : World) (a : Action) (m : Nat) : Prop :=
  ∃ g t, a = .work g ∧ w.shared.goroutines[g]? = some t ∧ t.owner = m ∧
    (w.step host a).shared.engine.started ≠ w.shared.engine.started

def World.Lasting (host : Host) (w : World) (a : Action) : Prop :=
  (∀ m, w.shared.Over m →
    (w.step host a).shared.engine.stateOf m = w.shared.engine.stateOf m ∧ ¬ w.Starts host a m) ∧
  ∀ m ∈ w.shared.halted, ¬ w.Starts host a m

def Shared.Settled (c : Shared) : Prop := ∀ m, c.Over m → c.alive m = false

section
variable {host : Host} {w : World} {c c' : Shared} {s s' : Stage} {a : Action}

theorem World.not_starts {m : Nat} (h : w.shared.alive m = false) : ¬ w.Starts host a m := by
  rintro ⟨g, t, rfl, ht, rfl, hstarts⟩
  refine hstarts (congrArg (·.engine.started) (Shared.work_of_dead fun u hu => ?_))
  cases ht.symm.trans hu
  rw [Bool.eq_false_iff]
  intro halive
  exact Bool.eq_false_iff.1 h (Shared.alive_iff.2 ⟨t, List.mem_of_getElem? ht, rfl, halive⟩)

theorem Shared.Settled.keep (hover : c.Settled)
    (hstate : ∀ m, c.Over m ∨ c'.Over m → c'.engine.stateOf m = c.engine.stateOf m)
    (halive : ∀ m, c.Over m → c'.alive m = true → c.alive m = true) :
    c'.Settled ∧ ∀ m, c.Over m → c'.engine.stateOf m = c.engine.stateOf m := by
  refine ⟨fun m hm => ?_, fun m hm => hstate m (.inl hm)⟩
  have hm' : c.Over m := by
    unfold Shared.Over at hm ⊢
    rw [← hstate m (.inr hm)]
    exact hm
  rw [Bool.eq_false_iff]
  intro hlive
  exact Bool.eq_false_iff.1 (hover m hm') (halive m hm' hlive)

theorem Shared.Settled.keep_modify (hover : c.Settled) {n : Nat} {st : MigrationState} (hn : ¬ c.Over n)
    (hst : st.isOver = false) (hgo : c'.goroutines = c.goroutines)
    (hmig : c'.engine.migrations = c.engine.migrations.modify n ({ · with state := st })) :
    c'.Settled ∧ ∀ m, c.Over m → c'.engine.stateOf m = c.engine.stateOf m := by
  have hstate : ∀ m, c'.engine.stateOf m = if n = m then (c.engine.stateOf m).map fun _ => st else c.engine.stateOf m := by
    intro m
    rw [← stateOf_modify, Engine.stateOf, hmig]
  refine hover.keep (fun m hm => ?_) (fun m _ hlive => ?_)
  · rw [hstate]
    refine if_neg ?_
    rintro rfl
    rcases hm with hm | hm
    · exact hn hm
    · rw [Shared.Over, hstate] at hm
      cases hold : c.engine.stateOf n <;> simp [hold, hst] at hm
  · simpa only [Shared.alive, hgo] using hlive

theorem Shared.Sound.lasting (hs : c.Sound s) (hover : c.Settled)
    (h : c.Move host (fun s => ∀ m r, s = .cancel m r → ¬ c.Over m) s c' s') :
    c'.Settled ∧ ∀ m, c.Over m → c'.engine.stateOf m = c.engine.stateOf m := by
  cases h with
  | begin _ | stay => exact ⟨hover, fun _ _ => rfl⟩
  | work g =>
    by_cases hdead : ∀ t, c.goroutines[g]? = some t → t.alive = false
    · rw [Shared.work_of_dead hdead]
      exact ⟨hover, fun _ _ => rfl⟩
    push Not at hdead
    obtain ⟨t, ht, halive⟩ := hdead
    rw [ne_eq, Bool.not_eq_false] at halive
    have hmem := List.mem_of_getElem? ht
    obtain ⟨hmoves, -, hend, hold⟩ := Shared.Sound.work_alive host hs ht halive
    -- the goroutine that works belongs to a migration that is not over
    have hother : ∀ m, c.Over m → (c.work host g).engine.stateOf m = c.engine.stateOf m := by
      intro m hm
      unfold Engine.stateOf
      rw [hmoves.other m]
      rw [hs.own t hmem halive]
      rintro ⟨⟩
      exact Bool.eq_false_iff.1 (hover _ hm) (Shared.alive_iff.2 ⟨t, hmem, rfl, halive⟩)
    refine ⟨?_, hother⟩
    rcases hend with hsame | hquiet
    · refine (hover.keep (fun m _ => hsame m) fun m _ hlive => ?_).1
      obtain ⟨u, hu, howner, hlive⟩ := Shared.alive_iff.1 hlive
      obtain ⟨i, hi⟩ := List.mem_iff_getElem?.1 hu
      exact Shared.alive_iff.2 ⟨t, hmem, (hold i u hi hlive).2.symm.trans howner, halive⟩
    · exact fun m _ => hquiet.not_alive m
  | advance hP =>
    cases s with
    | drain _ | drained _ _ | volume _ | stop _ | await _ _ | start =>
      dsimp only [Shared.advance]
      repeat' split
      all_goals exact hover.keep (fun _ _ => rfl) fun _ _ h => h
    | clear _ | ended => exact hover.keep (fun _ _ => rfl) fun _ _ h => h
    | install ddls =>
      refine hover.keep (fun m hm => (stateOf_append c.engine _ m).trans (if_neg ?_)) fun _ _ h => h
      rintro rfl
      rcases hm with hm | hm
      · simp [Shared.Over, Engine.stateOf] at hm
      · simp [Shared.advance, Shared.Over, Engine.stateOf, MigrationState.isOver] at hm
    | spawn m body =>
      refine hover.keep (fun _ _ => rfl) fun n hn hlive => ?_
      obtain ⟨u, hu, howner, hlive⟩ := Shared.alive_iff.1 hlive
      rcases List.mem_append.1 hu with hu | hu
      · exact Shared.alive_iff.2 ⟨u, hu, howner, hlive⟩
      · obtain rfl := List.mem_singleton.1 hu
        obtain rfl : m = n := howner
        rw [Shared.Over, hs.fits.2.2.1] at hn
        cases hn
    | cancel m r => exact hover.keep_modify (hP m r rfl) rfl rfl rfl
    | restart m ddls combined =>
      refine hover.keep_modify (fun hm => ?_) rfl rfl rfl
      rw [Shared.Over, hs.fits.2.2] at hm
      cases hm

theorem World.stopsWork_advance (h : w.stopsWork a = true) (i : Nat) (s : Stage) (ha : a = .advance i)
    (hi : w.calls[i]? = some s) (m : Nat) (r : Bool) (hs : s = .cancel m r) : ¬ w.shared.Over m := by
  subst ha hs
  simpa [World.stopsWork, hi, Shared.Over] using h

end

/-- Where calls are made in turn and no stop writes its state over a final one, completed and failed migrations keep
their state, and no statement of them, or of a migration whose stop has returned, starts. -/
theorem stops_are_final (host : Host) (as : List Action)
    (h : Transition.Along (World.step host) (fun w a => w.callsInTurn a = true ∧ w.stopsWork a = true) {} as) :
    Transition.Along (World.step host) (fun w a => w.Lasting host a) {} as := by
  refine Transition.Along.of_invariant
    (I := fun w : World => w.shared.Settled ∧ ∃ s, InProgress w.calls s ∧ w.shared.Sound s)
    (fun w a ⟨hover, s, hp, hs⟩ ha => ?_) (fun w a ⟨hover, s, hp, hs⟩ ha => ?_) ⟨nofun, sound_initial⟩ h
  · obtain ⟨s', hp', hmove⟩ := World.move host hp ha.1 (World.stopsWork_advance ha.2)
    exact ⟨(hs.lasting hover hmove).1, s', hp', hs.move hmove⟩
  · obtain ⟨s', -, hmove⟩ := World.move host hp ha.1 (World.stopsWork_advance ha.2)
    exact ⟨fun m hm => ⟨(hs.lasting hover hmove).2 m hm, World.not_starts (hover m hm)⟩,
      fun m hm => World.not_starts (hs.halted m hm).1⟩

def Sample.stoppedAndStarted : List Action :=
  [.apply ["CREATE TABLE a"], .advance 0, .advance 0, .advance 0, .work 0, .stop, .advance 1, .advance 1, .work 0, .work 0,
    .advance 1, .start, .advance 2, .advance 2, .advance 2, .work 1, .work 1, .work 1, .work 1]

theorem stop_before_statement_lasts :
    Transition.Along (World.step Sample.host) (fun w a => w.callsInTurn a = true ∧ w.stopsWork a = true) {}
        Sample.stoppedAndStarted ∧
      Transition.Along (World.step Sample.host) (fun w a => w.Lasting Sample.host a) {} Sample.stoppedAndStarted :=
  ⟨by decide +kernel, stops_are_final Sample.host _ (by decide +kernel)⟩

/-- A stop after the end makes a completed migration stopped, and a start then runs its statement again; and a second
stop returns at once while the first one still waits for a goroutine whose cancel function it did not find. -/
theorem stop_after_completion_reruns : (let stopped := Sample.migrated ++ [.stop, .advance 1, .advance 1]
    let restarted := stopped ++ [.advance 1, .start, .advance 2, .advance 2, .advance 2, .work 1, .work 1]
    (Transition.run (World.step Sample.host) {} Sample.migrated).shared.engine.stateOf 0 = some .completed ∧
      (Transition.run (World.step Sample.host) {} stopped).shared.engine.stateOf 0 = some .stopped ∧
      (Transition.run (World.step Sample.host) {} restarted).shared.engine.started =
        [(0, "CREATE TABLE a"), (1, "CREATE TABLE a")]) ∧
    let twice := [.apply ["CREATE TABLE a"], .advance 0, .advance 0, .advance 0, .stop, .advance 1, .advance 1, .stop,
      .advance 2]
    (Transition.run (World.step Sample.host) {} twice).shared.halted = [0] ∧
      (Transition.run (World.step Sample.host) {} (twice ++ [.work 0, .work 0])).shared.engine.started =
        [(0, "CREATE TABLE a")] := by
  decide +kernel

/-- Where calls are made in turn, no goroutine is left for a migration that is recorded as stopped once the calls have
returned. -/
theorem stopped_migrations_idle (host : Host) {as : List Action}
    (h : Transition.Along (World.step host) (fun w a => w.callsInTurn a = true) {} as) {m : Nat} :
    let w := Transition.run (World.step host) {} as
    (∀ s ∈ w.calls, s.isEnded = true) → w.shared.engine.stateOf m = some .stopped → w.shared.alive m = false := by
  intro w hended hstopped
  obtain ⟨s, hp, hs⟩ := Transition.run_induction (I := fun w : World => ∃ s, InProgress w.calls s ∧ w.shared.Sound s)
    (fun w a ⟨s, hp, hs⟩ ha => by
      obtain ⟨s', hp', hmove⟩ := World.move host hp ha fun _ _ _ _ => trivial
      exact ⟨s', hp', hs.move hmove⟩) sound_initial h
  rw [Bool.eq_false_iff]
  intro halive
  obtain ⟨r, rfl⟩ := hs.stopped m hstopped halive
  rcases hp with ⟨⟨⟩, -⟩ | ⟨i, hi, -⟩
  cases hended _ (List.mem_of_getElem? hi)

theorem stopped_migrations_idle_early :
    (Transition.run (World.step Sample.host) {} (Sample.stoppedAndStarted.take 11)).shared.alive 0 = false :=
  stopped_migrations_idle Sample.host (by decide +kernel) (by decide +kernel) (by decide +kernel)

end SchemaBot.Spirit
