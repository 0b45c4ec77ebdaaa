import SchemaBot.Engine.Spirit

/-!
# A migration that is stopped and started again

`Stop` cancels the goroutine wherever it is; `Start` infers what is left from whether a combined statement was
recorded.
-/

namespace SchemaBot.Spirit

/-! ## Statements one after the other -/

section
variable (host : Host) {E F : List String} {l : List String}

/-- Statements run where `effects` have taken effect: what has taken effect afterwards, unless one of them fails. -/
def Host.execAll (effects : List String) : List String → Option (List String)
  | [] => some effects
  | stmt :: rest =>
    if stmt ∈ effects then if host.idempotent stmt then execAll effects rest else none
    else execAll (effects ++ [stmt]) rest

theorem execAll_append (l l' : List String) :
    host.execAll E (l ++ l') = (host.execAll E l).bind (host.execAll · l') := by
  induction l generalizing E with
  | nil => rfl
  | cons stmt l ih =>
    simp only [List.cons_append, Host.execAll]
    split_ifs
    · exact ih
    · rfl
    · exact ih

theorem mem_of_execAll (h : host.execAll E l = some F) : ∀ stmt, stmt ∈ E ∨ stmt ∈ l → stmt ∈ F := by
  induction l generalizing E with
  | nil =>
    cases h
    simp
  | cons x l ih =>
    simp only [Host.execAll] at h
    intro stmt hstmt
    split_ifs at h with hx hid
    · refine ih h stmt ?_
      rcases hstmt with hstmt | hstmt
      · exact .inl hstmt
      · rcases List.mem_cons.1 hstmt with rfl | hstmt
        · exact .inl hx
        · exact .inr hstmt
    · refine ih h stmt ?_
      rcases hstmt with hstmt | hstmt
      · exact .inl (List.mem_append_left _ hstmt)
      · rcases List.mem_cons.1 hstmt with rfl | hstmt
        · exact .inl (by simp)
        · exact .inr hstmt

theorem idempotent_of_execAll (h : host.execAll E l = some F) :
    ∀ stmt ∈ l, stmt ∈ E → host.idempotent stmt = true := by
  induction l generalizing E with
  | nil => nofun
  | cons x l ih =>
    simp only [Host.execAll] at h
    intro stmt hstmt hmem
    split_ifs at h with hx hid
    · rcases List.mem_cons.1 hstmt with rfl | hstmt
      · exact hid
      · exact ih h stmt hstmt hmem
    · rcases List.mem_cons.1 hstmt with rfl | hstmt
      · exact absurd hmem hx
      · exact ih h stmt hstmt (List.mem_append_left _ hmem)

theorem execAll_again (h : ∀ stmt ∈ l, stmt ∈ E ∧ host.idempotent stmt = true) : host.execAll E l = some E := by
  induction l with
  | nil => rfl
  | cons x l ih =>
    obtain ⟨hx, hid⟩ := h x List.mem_cons_self
    simp only [Host.execAll, hx, hid]
    exact ih fun stmt hstmt => h stmt (List.mem_cons_of_mem _ hstmt)

theorem execAll_rerun {l mid rest : List String} (hall : host.execAll [] (l ++ mid ++ rest) = some F)
    (hE : host.execAll [] (l ++ mid) = some E) :
    host.execAll E (mid ++ rest) = some F ↔ ∀ stmt ∈ mid ++ rest, stmt ∈ E → host.idempotent stmt = true := by
  refine ⟨idempotent_of_execAll host, fun h => ?_⟩
  have hmid : host.execAll E mid = some E := execAll_again host fun stmt hstmt =>
    have hmem := mem_of_execAll host hE stmt (.inr (List.mem_append_right _ hstmt))
    ⟨hmem, h stmt (List.mem_append_left _ hstmt) hmem⟩
  rw [execAll_append, hmid]
  rwa [execAll_append, hE] at hall

end

/-! ## A goroutine that runs to its end -/

def Task.statement : Task → Option String
  | .single _ stmt | .alter stmt => some stmt
  | _ => none

def Task.Plain : Task → Prop
  | .setCancelFunc | .single _ _ | .track _ _ | .startAlter _ | .alter _ | .checkStopped => True
  | .alterFailed _ | .setMigrationFailed _ | .setMigrationCompleted => False

def Task.record (g : Nat) (r : RunningMigration) : Task → RunningMigration
  | .setCancelFunc => { r with cancelFunc := some g }
  | .track combinedStatement tables => { r with combinedStatement, tables }
  | _ => r

/-- Goroutine `g` takes a number of steps. -/
def Host.steps (host : Host) (g : Nat) : Nat → Engine × List Task → Engine × List Task
  | 0, x => x
  | n + 1, x => Host.steps host g n (host.work g x.1 x.2)

def Engine.outcome (e : Engine) : Option (List String) :=
  if e.stateOf 0 = some .completed then some e.effects else none

section
variable (host : Host) {g n : Nat} {r : RunningMigration} {cs : List Nat} {E F : List String}
  {sts : List (Nat × String)} {ts rest : List Task}

theorem steps_nil (n : Nat) (e : Engine) : host.steps g n (e, []) = (e, []) := by
  induction n with
  | zero => rfl
  | succ n ih => exact ih

theorem steps_plain (r : RunningMigration) (sts : List (Nat × String)) (ts rest : List Task)
    (hts : ∀ t ∈ ts, t.Plain) (hg : g ∉ cs) (h : host.execAll E (ts.filterMap Task.statement) = some F) :
    ∃ sts', ∀ n, host.steps g (ts.length + n) (⟨[r], some 0, cs, E, sts⟩, ts ++ rest) =
      host.steps g n (⟨[ts.foldl (Task.record g) r], some 0, cs, F, sts'⟩, rest) := by
  induction ts generalizing r E sts with
  | nil =>
    cases h
    exact ⟨sts, fun n => by rw [List.length_nil, Nat.zero_add]; rfl⟩
  | cons t ts ih =>
    have hts' : ∀ t ∈ ts, t.Plain := fun u hu => hts u (List.mem_cons_of_mem _ hu)
    simp only [List.length_cons, Nat.add_right_comm _ 1, Host.steps, List.cons_append]
    cases t with
    | setCancelFunc | track _ _ => exact ih _ _ hts' h
    | startAlter stmt | checkStopped =>
      simp only [Host.work, Engine.begin, if_neg hg]
      exact ih _ _ hts' h
    | single what stmt | alter stmt =>
      simp only [List.filterMap_cons, Task.statement, Host.execAll] at h
      simp only [Host.work, Host.exec, Engine.begin]
      split_ifs at h ⊢ <;> exact ih _ _ hts' h
    | alterFailed _ | setMigrationFailed _ | setMigrationCompleted => exact (hts _ List.mem_cons_self).elim

theorem steps_failed (hts : ∀ t ∈ ts, t.Plain) (hg : g ∉ cs) (h : host.execAll E (ts.filterMap Task.statement) = none)
    (hn : ts.length + 2 ≤ n) : (host.steps g n (⟨[r], some 0, cs, E, sts⟩, ts ++ rest)).1.outcome = none := by
  induction ts generalizing r E sts n with
  | nil => cases h
  | cons t ts ih =>
    have hts' : ∀ t ∈ ts, t.Plain := fun u hu => hts u (List.mem_cons_of_mem _ hu)
    rw [List.length_cons] at hn
    obtain ⟨n, rfl⟩ : ∃ k, n = k + 1 := ⟨n - 1, by omega⟩
    have hn' : ts.length + 2 ≤ n := by omega
    simp only [List.cons_append, Host.steps]
    cases t with
    | setCancelFunc | track _ _ => exact ih hts' h hn'
    | startAlter stmt | checkStopped =>
      simp only [Host.work, Engine.begin, if_neg hg]
      exact ih hts' h hn'
    | single what stmt | alter stmt =>
      simp only [List.filterMap_cons, Task.statement, Host.execAll] at h
      simp only [Host.work, Host.exec, Engine.begin]
      split_ifs at h ⊢
      · exact ih hts' h hn'
      · obtain ⟨n, rfl⟩ : ∃ k, n = k + 2 := ⟨n - 2, by omega⟩
        simp [Host.steps, Host.work, hg, steps_nil, Engine.onRunning, Engine.outcome, Engine.stateOf]
      · exact ih hts' h hn'
    | alterFailed _ | setMigrationFailed _ | setMigrationCompleted => exact (hts _ List.mem_cons_self).elim

theorem steps_outcome (hts : ∀ t ∈ ts, t.Plain) (hg : g ∉ cs) (hn : ts.length + 2 ≤ n) :
    (host.steps g n (⟨[r], some 0, cs, E, sts⟩, ts ++ [.setMigrationCompleted])).1.outcome =
      host.execAll E (ts.filterMap Task.statement) := by
  cases h : host.execAll E (ts.filterMap Task.statement) with
  | none => exact steps_failed host hts hg h hn
  | some F =>
    obtain ⟨sts', hsteps⟩ := steps_plain host r sts ts [.setMigrationCompleted] hts hg h
    obtain ⟨k, rfl⟩ : ∃ k, n = ts.length + (k + 1) := ⟨n - ts.length - 1, by omega⟩
    rw [hsteps]
    simp [Host.steps, Host.work, steps_nil, Engine.onRunning, Engine.outcome, Engine.stateOf]

theorem steps_cancelled (sts : List (Nat × String)) (rest : List Task) (hts : ∀ t ∈ ts, t.Plain) (hg : g ∈ cs) (hn : 2 * ts.length + 2 ≤ n) :
    ∃ r', host.steps g n (⟨[r], some 0, cs, E, sts⟩, ts ++ .checkStopped :: rest) =
        (⟨[r'], some 0, cs, E, sts⟩, []) ∧
      r'.state = r.state ∧ r'.originalDDLs = r.originalDDLs ∧
      (r'.combinedStatement = r.combinedStatement ∨ ∃ tables, .track r'.combinedStatement tables ∈ ts) := by
  induction ts generalizing r n with
  | nil =>
    obtain ⟨n, rfl⟩ : ∃ k, n = k + 1 := ⟨n - 1, by omega⟩
    exact ⟨r, by simp [Host.steps, Host.work, hg, steps_nil], rfl, rfl, .inl rfl⟩
  | cons t ts ih =>
    have hts' : ∀ t ∈ ts, t.Plain := fun u hu => hts u (List.mem_cons_of_mem _ hu)
    rw [List.length_cons] at hn
    obtain ⟨n, rfl⟩ : ∃ k, n = k + 2 := ⟨n - 2, by omega⟩
    simp only [Host.steps]
    cases t with
    | setCancelFunc =>
      obtain ⟨r', heq, hstate, hddls, hcomb⟩ := ih (n := n + 1) hts' (by omega)
      exact ⟨r', heq, hstate, hddls, hcomb.imp id (Exists.imp fun _ => List.mem_cons_of_mem _)⟩
    | track combinedStatement tables =>
      obtain ⟨r', heq, hstate, hddls, hcomb⟩ := ih (n := n + 1) hts' (by omega)
      refine ⟨r', heq, hstate, hddls, .inr ?_⟩
      rcases hcomb with hcomb | ⟨tables', h⟩
      · exact ⟨tables, by simp [hcomb]⟩
      · exact ⟨tables', List.mem_cons_of_mem _ h⟩
    | startAlter stmt =>
      obtain ⟨r', heq, hstate, hddls, hcomb⟩ := ih (n := n + 1) hts' (by omega)
      refine ⟨r', ?_, hstate, hddls, hcomb.imp id (Exists.imp fun _ => List.mem_cons_of_mem _)⟩
      simpa [Host.work, Engine.begin, hg, Host.steps] using heq
    | alter stmt =>
      obtain ⟨r', heq, hstate, hddls, hcomb⟩ := ih (r := r) (n := n) hts' (by omega)
      refine ⟨r', ?_, hstate, hddls, hcomb.imp id (Exists.imp fun _ => List.mem_cons_of_mem _)⟩
      simpa [Host.work, Host.exec, hg] using heq
    | checkStopped => exact ⟨r, by simp [Host.work, hg, steps_nil], rfl, rfl, .inl rfl⟩
    | single what stmt =>
      exact ⟨r, by simp [Host.work, Host.exec, Engine.begin, hg, steps_nil], rfl, rfl, .inl rfl⟩
    | alterFailed _ | setMigrationFailed _ | setMigrationCompleted => exact (hts _ List.mem_cons_self).elim

theorem steps_cancelled_single {what stmt : String} (hg : g ∈ cs) (hn : 2 ≤ n) :
    host.steps g n (⟨[r], some 0, cs, E, sts⟩, .single what stmt :: rest) = (⟨[r], some 0, cs, E, sts⟩, []) := by
  obtain ⟨n, rfl⟩ : ∃ k, n = k + 2 := ⟨n - 2, by omega⟩
  simp [Host.steps, Host.work, Host.exec, Engine.begin, hg, steps_nil]

theorem foldl_record (r : RunningMigration) (ts : List Task) :
    (ts.foldl (Task.record g) r).state = r.state ∧ (ts.foldl (Task.record g) r).originalDDLs = r.originalDDLs ∧
      (r.cancelFunc = some g → (ts.foldl (Task.record g) r).cancelFunc = some g) ∧
      ((ts.foldl (Task.record g) r).combinedStatement = r.combinedStatement ∨
        ∃ tables, .track (ts.foldl (Task.record g) r).combinedStatement tables ∈ ts) := by
  induction ts generalizing r with
  | nil => exact ⟨rfl, rfl, id, .inl rfl⟩
  | cons t ts ih =>
    obtain ⟨hstate, hddls, hcancel, hcomb⟩ := ih (t.record g r)
    refine ⟨hstate.trans ?_, hddls.trans ?_, fun h => hcancel ?_, ?_⟩
    · cases t <;> rfl
    · cases t <;> rfl
    · cases t <;> first | rfl | exact h
    · rcases hcomb with hcomb | ⟨tables, h⟩
      · cases t with
        | track _ tables => exact .inr ⟨tables, by rw [List.foldl_cons, hcomb]; exact List.mem_cons_self⟩
        | _ => exact .inl hcomb
      · exact .inr ⟨tables, List.mem_cons_of_mem _ h⟩

end

/-! ## Stop and start -/

def Shared.call (host : Host) : Nat → Stage → Shared → Shared
  | 0, _, c => c
  | k + 1, s, c => Shared.call host k (c.advance host s).2 (c.advance host s).1

def Shared.works (host : Host) (g : Nat) : Nat → Shared → Shared
  | 0, c => c
  | n + 1, c => Shared.works host g n (c.work host g)

def enough (ddls : List String) : Nat := 2 * ddls.length + 16

section
variable (host : Host) (ddls : List String)

def applied : Shared := Shared.call host 3 (.drain ddls) {}

def uninterrupted : Shared := (applied host ddls).works host 0 (enough ddls)

/-- `Stop` comes when the goroutine has made `n` steps, and waits for its end. -/
def stoppedAt (n : Nat) : Shared :=
  (((applied host ddls).works host 0 n).call host 2 (.stop false)).works host 0 (enough ddls)

def startedAgain (n : Nat) : Shared := ((stoppedAt host ddls n).call host 3 .start).works host 1 (enough ddls)

/-- `Stop` and `Start` come to the end of an uninterrupted run that completes. -/
def Resumes (n : Nat) : Prop :=
  (uninterrupted host ddls).engine.outcome.isSome ∧
    (startedAgain host ddls n).engine.outcome = (uninterrupted host ddls).engine.outcome

structure Planned (phases : DdlPhases) : Prop where
  classified : host.classifyDDLPhases ddls = .ok phases
  parsed : phases.alters ≠ [] → ∃ tables, host.tables ("; ".intercalate phases.alters) = .ok tables

def DdlPhases.tasks (phases : DdlPhases) : List Task :=
  executeCreateStatements phases.creates ++ (executeAlterPhase host phases.alters ++
    executeDropStatements host phases.drops)

end

section
variable (host : Host) {c : Shared} {g : Nat} {t : Goroutine}

theorem works_eq (n : Nat) (h : c.goroutines[g]? = some t) : c.works host g n = { c with
      engine := (host.steps g n (c.engine, t.tasks)).1
      goroutines := c.goroutines.set g { t with tasks := (host.steps g n (c.engine, t.tasks)).2 } } := by
  induction n generalizing c t with
  | zero =>
    obtain ⟨hlt, rfl⟩ := List.getElem?_eq_some_iff.1 h
    change c = { c with goroutines := c.goroutines.set g c.goroutines[g] }
    rw [List.set_getElem_self]
  | succ n ih =>
    have hwork : (c.work host g).goroutines[g]? = some { t with tasks := (host.work g c.engine t.tasks).2 } := by
      simp only [Shared.work, h]
      exact List.getElem?_set_self (List.getElem?_eq_some_iff.1 h).1
    rw [Shared.works, ih hwork]
    simp [Shared.work, h, Host.steps]

theorem works_none (n : Nat) (h : c.goroutines[g]? = none) : c.works host g n = c := by
  induction n with
  | zero => rfl
  | succ n ih => rw [Shared.works, Shared.work, h, ih]

end

section
variable (host : Host) {ddls : List String} {n : Nat} {r : RunningMigration} {cs : List Nat} {E F : List String}
  {sts : List (Nat × String)} {ts ts' : List Task} {e : Engine}

/-- The engine after `Apply`, with the steps of its goroutine. -/
def begun (ddls : List String) : Engine × List Task :=
  (⟨[{ originalDDLs := ddls }], some 0, [], [], []⟩, .setCancelFunc :: executeMigration host ddls)

theorem applied_works (n : Nat) : (applied host ddls).works host 0 n =
    ⟨(host.steps 0 n (begun host ddls)).1, [⟨0, (host.steps 0 n (begun host ddls)).2⟩], []⟩ := by
  rw [works_eq host n rfl]
  rfl

theorem stoppedAt_eq (hn : host.steps 0 n (begun host ddls) = (⟨[r], some 0, cs, E, sts⟩, ts))
    (hr : r.state ≠ .stopped) (he : host.steps 0 (enough ddls)
      (⟨[{ r with state := .stopped }], some 0, r.cancelFunc.toList ++ cs, E, sts⟩, ts) = (e, ts')) :
    stoppedAt host ddls n = ⟨e, [⟨0, ts'⟩], []⟩ := by
  have hstop : Shared.call host 2 (.stop false) ⟨⟨[r], some 0, cs, E, sts⟩, [⟨0, ts⟩], []⟩ =
      ⟨⟨[{ r with state := .stopped }], some 0, r.cancelFunc.toList ++ cs, E, sts⟩, [⟨0, ts⟩], []⟩ := by
    simp [Shared.call, Shared.advance, Engine.stateOf, hr]
  rw [stoppedAt, applied_works, hn, hstop, works_eq host _ rfl]
  change Shared.mk _ [⟨0, _⟩] [] = _
  rw [he]

end

section
variable {host : Host} {ddls : List String} {phases : DdlPhases} {F : List String} {combined : String} {k : Nat}
  {tables : List String}

theorem Planned.plain (h : Planned host ddls phases) : ∀ t ∈ phases.tasks host, t.Plain := by
  intro t ht
  simp only [DdlPhases.tasks, List.mem_append, executeCreateStatements, executeDropStatements, List.mem_map] at ht
  rcases ht with ⟨_, _, rfl⟩ | ht | ⟨_, _, rfl⟩
  · trivial
  · unfold executeAlterPhase at ht
    split_ifs at ht with halters
    · cases ht
    · obtain ⟨tables, htables⟩ := h.parsed halters
      simp only [executeSpiritMigration, htables, List.mem_cons, List.not_mem_nil, or_false] at ht
      rcases ht with rfl | rfl | rfl <;> trivial
  · trivial

theorem Planned.executeMigration (h : Planned host ddls phases) :
    executeMigration host ddls = (phases.tasks host ++ [.checkStopped]) ++ [.setMigrationCompleted] := by
  simp [Spirit.executeMigration, h.classified, DdlPhases.tasks, finishMigration]

theorem length_phases (h : host.classifyDDLPhases ddls = .ok phases) :
    phases.creates.length + phases.alters.length + phases.drops.length = ddls.length := by
  induction ddls generalizing phases with
  | nil =>
    cases h
    rfl
  | cons stmt rest ih =>
    simp only [Host.classifyDDLPhases] at h
    cases hstmt : host.classifyStatement stmt with
    | error => simp [hstmt, bind, Except.bind] at h
    | ok stmtType =>
      cases hrest : host.classifyDDLPhases rest with
      | error => simp [hstmt, hrest, bind, Except.bind] at h
      | ok phases' =>
        have := ih hrest
        simp only [hstmt, hrest, bind, Except.bind, pure, Except.pure, Except.ok.injEq] at h
        subst h
        cases stmtType <;> simp <;> omega

theorem Planned.length (h : Planned host ddls phases) : (phases.tasks host).length ≤ ddls.length + 2 := by
  have hlen := length_phases h.classified
  have halters : (executeAlterPhase host phases.alters).length ≤ phases.alters.length + 2 := by
    unfold executeAlterPhase
    split_ifs with halters
    · simp
    · have := List.length_pos_iff.2 halters
      obtain ⟨tables, htables⟩ := h.parsed halters
      simp only [executeSpiritMigration, htables, List.length_cons, List.length_nil]
      omega
  simp only [DdlPhases.tasks, List.length_append, executeCreateStatements, executeDropStatements, List.length_map]
  omega

theorem planned_of_outcome (h : (uninterrupted host ddls).engine.outcome.isSome) : ∃ phases, Planned host ddls phases := by
  rw [uninterrupted, applied_works] at h
  cases hphases : host.classifyDDLPhases ddls with
  | error err =>
    obtain ⟨k, hk⟩ : ∃ k, enough ddls = k + 2 := ⟨2 * ddls.length + 14, rfl⟩
    rw [hk] at h
    simp [begun, Spirit.executeMigration, hphases, Host.steps, Host.work, steps_nil, Engine.onRunning, Engine.outcome,
      Engine.stateOf] at h
  | ok phases =>
    refine ⟨phases, hphases, fun halters => ?_⟩
    cases htables : host.tables ("; ".intercalate phases.alters) with
    | ok tables => exact ⟨tables, rfl⟩
    | error err =>
      have hplain : ∀ t ∈ Task.setCancelFunc :: executeCreateStatements phases.creates, t.Plain := by
        simp [executeCreateStatements, Task.Plain]
      have hlen : (Task.setCancelFunc :: executeCreateStatements phases.creates).length + 2 ≤ enough ddls := by
        have := length_phases hphases
        simp only [executeCreateStatements, List.length_cons, List.length_map, enough]
        omega
      simp only [begun, Spirit.executeMigration, hphases, executeAlterPhase, if_neg halters, executeSpiritMigration,
        htables, List.append_assoc] at h
      rw [← List.cons_append] at h
      cases hexec : host.execAll [] ((Task.setCancelFunc :: executeCreateStatements phases.creates).filterMap
          Task.statement) with
      | none =>
        rw [steps_failed host hplain List.not_mem_nil hexec hlen] at h
        cases h
      | some F =>
        obtain ⟨sts, hsteps⟩ := steps_plain host { originalDDLs := ddls } [] _ _ hplain List.not_mem_nil hexec
        obtain ⟨k, hk⟩ := Nat.exists_eq_add_of_le (Nat.le_of_succ_le hlen)
        rw [hk, Nat.add_assoc, hsteps, Nat.add_comm] at h
        simp [Host.steps, Host.work, steps_nil, Engine.onRunning, Engine.outcome, Engine.stateOf] at h

/-- The migration when a stop has returned: completed, or stopped with the statements of the first `k` tasks in
effect. Where a combined statement is recorded, all `CREATE`s are among them. -/
def Interrupted (host : Host) (ddls : List String) (phases : DdlPhases) (F E : List String) (r : RunningMigration) : Prop :=
  (r.state = .completed ∧ E = F) ∨
    (r.state = .stopped ∧ r.originalDDLs = ddls ∧ ∃ k,
      host.execAll [] (((phases.tasks host).take k).filterMap Task.statement) = some E ∧
        (r.combinedStatement = "" ∨ phases.creates.length ≤ k ∧
          ∃ tables, .track r.combinedStatement tables ∈ phases.tasks host))

theorem not_mem_creates {creates : List String} : .track combined tables ∉ executeCreateStatements creates := by
  simp [executeCreateStatements]

def DdlPhases.body (host : Host) (phases : DdlPhases) : List Task :=
  .setCancelFunc :: (phases.tasks host ++ [.checkStopped])

theorem Planned.plain_body (h : Planned host ddls phases) : ∀ t ∈ phases.body host, t.Plain := by
  simpa [DdlPhases.body, Task.Plain, or_imp, forall_and] using h.plain

theorem statements_body : (phases.body host).filterMap Task.statement =
    (phases.tasks host).filterMap Task.statement := by
  simp [DdlPhases.body, List.filterMap_cons, Task.statement]

section
variable (h : Planned host ddls phases)
include h

theorem Planned.begun : begun host ddls =
    (⟨[{ originalDDLs := ddls }], some 0, [], [], []⟩, phases.body host ++ [.setMigrationCompleted]) := by
  rw [Spirit.begun, h.executeMigration, DdlPhases.body, List.cons_append]

section
variable (hall : host.execAll [] ((phases.tasks host).filterMap Task.statement) = some F)
include hall

theorem Planned.steps {n : Nat} (hn : n ≤ (phases.body host).length) :
    ∃ E sts, host.execAll [] (((phases.body host).take n).filterMap Task.statement) = some E ∧
      ∀ m, host.steps 0 (n + m) (Spirit.begun host ddls) = host.steps 0 m
        (⟨[((phases.body host).take n).foldl (Task.record 0) { originalDDLs := ddls }], some 0, [], E, sts⟩,
          (phases.body host).drop n ++ [.setMigrationCompleted]) := by
  rw [← statements_body, ← List.take_append_drop n (phases.body host), List.filterMap_append, execAll_append] at hall
  cases hE : host.execAll [] (((phases.body host).take n).filterMap Task.statement) with
  | none => simp [hE] at hall
  | some E =>
    obtain ⟨sts, hsteps⟩ := steps_plain host { originalDDLs := ddls } [] ((phases.body host).take n)
      ((phases.body host).drop n ++ [.setMigrationCompleted]) (fun t ht => h.plain_body t (List.mem_of_mem_take ht))
      (List.not_mem_nil) hE
    refine ⟨E, sts, rfl, fun m => ?_⟩
    rw [← hsteps, ← List.append_assoc, List.take_append_drop, List.length_take, Nat.min_eq_left hn, h.begun]

theorem Planned.stoppedAt_tasks (hk : k ≤ (phases.tasks host).length) :
    ∃ r E sts, stoppedAt host ddls (k + 1) = ⟨⟨[r], some 0, [0], E, sts⟩, [⟨0, []⟩], []⟩ ∧
      Interrupted host ddls phases F E r := by
  have hlen := h.length
  obtain ⟨E, sts, hE, hsteps⟩ := h.steps hall (n := k + 1) (by simp [DdlPhases.body]; omega)
  obtain ⟨hstate, hddls, hcancel, hcomb⟩ := foldl_record { originalDDLs := ddls, cancelFunc := some 0 }
    ((phases.tasks host).take k)
  obtain ⟨r, hr⟩ : ∃ r, ((phases.tasks host).take k).foldl (Task.record 0)
    { originalDDLs := ddls, cancelFunc := some 0 } = r := ⟨_, rfl⟩
  rw [hr] at hstate hddls hcancel hcomb
  simp only [DdlPhases.body, List.take_succ_cons, List.drop_succ_cons, List.take_append_of_le_length hk,
    List.drop_append_of_le_length hk, List.append_assoc, List.singleton_append] at hE hsteps
  have hn : host.steps 0 (k + 1) (Spirit.begun host ddls) = (⟨[r], some 0, [], E, sts⟩,
      (phases.tasks host).drop k ++ [.checkStopped, .setMigrationCompleted]) := hr ▸ hsteps 0
  have hrun : r.state ≠ .stopped := by simp [hstate]
  have hcs : r.cancelFunc.toList ++ [] = [0] := by simp [hcancel rfl]
  by_cases hcreates : phases.creates.length ≤ k
  · obtain ⟨r', heq, hstate', hddls', hcomb'⟩ := steps_cancelled host (r := { r with state := .stopped }) sts
      [.setMigrationCompleted] (fun t ht => h.plain t (List.mem_of_mem_drop ht)) (List.mem_singleton_self 0)
      (show 2 * ((phases.tasks host).drop k).length + 2 ≤ enough ddls by simp only [List.length_drop, enough]; omega)
    refine ⟨r', E, sts, stoppedAt_eq host hn hrun (by rw [hcs]; exact heq), .inr ⟨hstate', hddls'.trans hddls, k, hE, ?_⟩⟩
    rcases hcomb' with hcomb' | ⟨tables, htrack⟩
    · rw [hcomb']
      exact hcomb.imp id fun ⟨tables, htrack⟩ => ⟨hcreates, tables, List.mem_of_mem_take htrack⟩
    · exact .inr ⟨hcreates, tables, List.mem_of_mem_drop htrack⟩
  · -- the next task is a CREATE, which fails
    obtain ⟨what, stmt, ts, hdrop⟩ : ∃ what stmt ts, (phases.tasks host).drop k = .single what stmt :: ts := by
      have hlt : k < (executeCreateStatements phases.creates).length := by
        simpa [executeCreateStatements] using hcreates
      rw [DdlPhases.tasks, List.drop_append_of_le_length (Nat.le_of_lt hlt), List.drop_eq_getElem_cons hlt]
      exact ⟨_, _, _, by simp only [executeCreateStatements, List.getElem_map]; rfl⟩
    refine ⟨{ r with state := .stopped }, E, sts, stoppedAt_eq host hn hrun ?_, .inr ⟨rfl, hddls, k, hE, .inl ?_⟩⟩
    · rw [hcs, hdrop]
      exact steps_cancelled_single host (List.mem_singleton_self 0) (by simp [enough])
    · refine hcomb.resolve_right fun ⟨tables, htrack⟩ => ?_
      rw [DdlPhases.tasks, List.take_append_of_le_length (by simp [executeCreateStatements]; omega)] at htrack
      exact not_mem_creates (List.mem_of_mem_take htrack)

theorem Planned.stoppedAt (n : Nat) :
    ∃ r cs E sts, Spirit.stoppedAt host ddls n = ⟨⟨[r], some 0, cs, E, sts⟩, [⟨0, []⟩], []⟩ ∧ 1 ∉ cs ∧
      Interrupted host ddls phases F E r := by
  have hlength : (phases.body host).length = (phases.tasks host).length + 2 := by simp [DdlPhases.body]
  obtain ⟨E, sts, hE, hsteps⟩ := h.steps hall Nat.le.refl
  rw [List.take_length, statements_body, hall, Option.some.injEq] at hE
  rw [List.take_length, List.drop_length] at hsteps
  obtain ⟨hstate, hddls, -, hcomb⟩ := foldl_record { originalDDLs := ddls } (phases.body host)
  have hcancel : ((phases.body host).foldl (Task.record 0) { originalDDLs := ddls }).cancelFunc = some 0 :=
    (foldl_record { originalDDLs := ddls, cancelFunc := some 0 } _).2.2.1 rfl
  obtain ⟨r, hr⟩ : ∃ r, (phases.body host).foldl (Task.record 0) { originalDDLs := ddls } = r := ⟨_, rfl⟩
  rw [hr] at hstate hddls hcomb hsteps hcancel
  rcases Nat.lt_trichotomy n (phases.body host).length with hlt | rfl | hgt
  · cases n with
    | zero =>
      -- nothing is cancelled yet
      obtain ⟨sts', hstopped⟩ := steps_plain host { originalDDLs := ddls, state := .stopped } [] (phases.body host)
        [.setMigrationCompleted] h.plain_body (List.not_mem_nil) (statements_body.symm ▸ hall)
      obtain ⟨k, hk⟩ : ∃ k, enough ddls = (phases.body host).length + (k + 1) :=
        ⟨enough ddls - (phases.body host).length - 1, by have := h.length; simp only [enough]; omega⟩
      refine ⟨{ (phases.body host).foldl (Task.record 0) { originalDDLs := ddls, state := .stopped } with
        state := .completed }, [], F, sts', stoppedAt_eq host (congrArg (host.steps 0 0) h.begun) nofun ?_,
        List.not_mem_nil, .inl ⟨rfl, rfl⟩⟩
      rw [hk]
      exact (hstopped _).trans (steps_nil host _ _)
    | succ k =>
      obtain ⟨r, E, sts, heq, hint⟩ := h.stoppedAt_tasks hall (k := k) (by omega)
      exact ⟨r, [0], E, sts, heq, by simp, hint⟩
  · refine ⟨{ r with state := .completed }, [0], E, sts, stoppedAt_eq host (hsteps 0) (by simp [hstate]) ?_, by simp,
      .inl ⟨rfl, hE.symm⟩⟩
    rw [hcancel]
    exact steps_nil host _ _
  · obtain ⟨m, rfl⟩ : ∃ m, n = (phases.body host).length + (m + 1) := ⟨n - (phases.body host).length - 1, by omega⟩
    refine ⟨{ r with state := .stopped }, [0], E, sts, stoppedAt_eq host
      ((hsteps _).trans (steps_nil host _ _)) nofun ?_, by simp,
      .inr ⟨rfl, hddls, (phases.tasks host).length, by rw [List.take_length, hall, hE], ?_⟩⟩
    · rw [hcancel]
      exact steps_nil host _ _
    · refine hcomb.imp id fun ⟨tables, htrack⟩ => ⟨?_, tables, ?_⟩
      · simp [DdlPhases.tasks, executeCreateStatements]
      · simpa [DdlPhases.body] using htrack

end

theorem mem_tasks_track (ht : .track combined tables ∈ phases.tasks host) :
    executeAlterPhase host phases.alters = executeSpiritMigration host combined ∧
      executeSpiritMigration host combined = [.track combined tables, .startAlter combined, .alter combined] := by
  simp only [DdlPhases.tasks, List.mem_append, not_mem_creates, false_or, executeDropStatements, List.mem_map,
    reduceCtorEq, and_false, exists_false, or_false] at ht
  unfold executeAlterPhase at ht ⊢
  split_ifs at ht ⊢ with halters
  · cases ht
  · obtain ⟨tables', htables⟩ := h.parsed halters
    simp only [executeSpiritMigration, htables, List.mem_cons, Task.track.injEq, reduceCtorEq, List.not_mem_nil,
      or_false] at ht ⊢
    obtain ⟨rfl, rfl⟩ := ht
    simp [htables]

theorem Planned.resumeMigration
    (hcomb : combined = "" ∨ phases.creates.length ≤ k ∧ ∃ tables, .track combined tables ∈ phases.tasks host) :
    ∃ body l mid rest, Spirit.resumeMigration host ddls combined = body ++ [.setMigrationCompleted] ∧
      (∀ t ∈ body, t.Plain) ∧ body.length ≤ ddls.length + 5 ∧ body.filterMap Task.statement = mid ++ rest ∧
      (phases.tasks host).filterMap Task.statement = l ++ mid ++ rest ∧
      ((phases.tasks host).take k).filterMap Task.statement = l ++ mid := by
  have hlen := h.length
  by_cases hempty : combined = ""
  · refine ⟨phases.tasks host ++ [.checkStopped], [], ((phases.tasks host).take k).filterMap Task.statement,
      ((phases.tasks host).drop k).filterMap Task.statement, ?_, ?_, ?_, ?_, ?_, rfl⟩
    · rw [Spirit.resumeMigration, if_pos hempty, h.executeMigration]
    · simpa [Task.Plain, or_imp, forall_and] using h.plain
    · simp only [List.length_append, List.length_singleton]
      omega
    · rw [← List.filterMap_append]
      simp [Task.statement]
    · rw [List.nil_append, ← List.filterMap_append, List.take_append_drop]
  · obtain ⟨hk, tables, ht⟩ := hcomb.resolve_left hempty
    obtain ⟨halters, hspirit⟩ := mem_tasks_track h ht
    have hplain := h.plain
    simp only [DdlPhases.tasks, halters, List.length_append, List.mem_append] at hlen hplain
    obtain ⟨later, hlater⟩ : ∃ later, executeSpiritMigration host combined ++ executeDropStatements host phases.drops =
      later := ⟨_, rfl⟩
    refine ⟨executeSpiritMigration host combined ++ .checkStopped :: (executeDropStatements host phases.drops ++
      [.checkStopped]), (executeCreateStatements phases.creates).filterMap Task.statement,
      (later.take (k - phases.creates.length)).filterMap Task.statement,
      (later.drop (k - phases.creates.length)).filterMap Task.statement, ?_, ?_, ?_, ?_, ?_, ?_⟩
    · simp [Spirit.resumeMigration, if_neg hempty, h.classified, finishMigration]
    · intro t ht
      simp only [List.mem_append, List.mem_cons, List.not_mem_nil, or_false] at ht
      rcases ht with ht | rfl | ht | rfl
      · exact hplain t (.inr (.inl ht))
      · trivial
      · exact hplain t (.inr (.inr ht))
      · trivial
    · simp only [List.length_append, List.length_cons, List.length_nil]
      omega
    · rw [← List.filterMap_append, ← hlater]
      simp [List.filterMap_cons, Task.statement]
    · rw [List.append_assoc, ← List.filterMap_append, List.take_append_drop, DdlPhases.tasks, List.filterMap_append,
        halters, hlater]
    · rw [DdlPhases.tasks, halters, hlater, List.take_append, List.filterMap_append]
      simp [executeCreateStatements, List.take_of_length_le, hk]

end

end

/-- `Stop` and `Start` come to the end of a run that completes, whenever no statement that `Start` runs again has taken
effect before, or running it again changes nothing. -/
theorem stop_start_resumes_iff (host : Host) (ddls : List String) (n : Nat) : Resumes host ddls n ↔
      (uninterrupted host ddls).engine.outcome.isSome ∧
        ∀ r, (stoppedAt host ddls n).engine.migrations[0]? = some r → r.state = .stopped →
          ∀ stmt ∈ (resumeMigration host r.originalDDLs r.combinedStatement).filterMap Task.statement,
            stmt ∈ (stoppedAt host ddls n).engine.effects → host.idempotent stmt = true := by
  refine and_congr_right fun hsome => ?_
  obtain ⟨phases, h⟩ := planned_of_outcome hsome
  have hlen := h.length
  have houtcome : (uninterrupted host ddls).engine.outcome =
      host.execAll [] ((phases.tasks host).filterMap Task.statement) := by
    rw [uninterrupted, applied_works, h.begun, steps_outcome host h.plain_body List.not_mem_nil, statements_body]
    simp only [DdlPhases.body, enough, List.length_cons, List.length_append, List.length_nil]
    omega
  rw [houtcome] at hsome ⊢
  obtain ⟨F, hF⟩ := Option.isSome_iff_exists.1 hsome
  obtain ⟨r, cs, E, sts, hstopped, hcs, hint⟩ := h.stoppedAt hF n
  rw [startedAgain, hstopped, hF]
  simp only [List.getElem?_cons_zero, Option.some.injEq, forall_eq']
  rcases hint with ⟨hstate, rfl⟩ | ⟨hstate, hddls, k, hE, hcomb⟩
  · refine iff_of_true ?_ fun hs => ?_
    · simp [Shared.call, Shared.advance, hstate, works_none, Engine.outcome, Engine.stateOf]
    · simp [hstate] at hs
  · obtain ⟨body, l, mid, rest, hresume, hplain, hlength, hbody, hall, htake⟩ := h.resumeMigration hcomb
    rw [hall] at hF
    rw [htake] at hE
    have hstart : Shared.call host 3 .start ⟨⟨[r], some 0, cs, E, sts⟩, [⟨0, []⟩], []⟩ =
        ⟨⟨[{ r with state := .running }], some 0, cs, E, sts⟩,
          [⟨0, []⟩, ⟨0, .setCancelFunc :: body ++ [.setMigrationCompleted]⟩], []⟩ := by
      simp [Shared.call, Shared.advance, hstate, hddls, hresume]
    rw [hstart, works_eq host _ rfl, hddls, hresume]
    simp only [hstate]
    rw [steps_outcome host (by simpa [Task.Plain] using hplain) hcs (by simp [enough]; omega)]
    simpa [List.filterMap_cons, Task.statement, hbody] using execAll_rerun host hF hE

def Sample.creates : Host := { Sample.host with classifyStatement := fun _ => .ok .createTable }

/-- A stop between two `CREATE`s: `Start` runs the first one again, which fails. A stop after the `ALTER`: `Start` runs the
`ALTER` again. -/
theorem stop_after_create_fails :
    ((uninterrupted Sample.creates ["CREATE TABLE a", "CREATE TABLE b"]).engine.outcome =
        some ["CREATE TABLE a", "CREATE TABLE b"] ∧
      (startedAgain Sample.creates ["CREATE TABLE a", "CREATE TABLE b"] 2).engine.stateOf 0 = some .failed) ∧
    (uninterrupted Sample.host ["CREATE TABLE a", "ALTER"]).engine.outcome = some ["CREATE TABLE a", "ALTER"] ∧
      (startedAgain Sample.host ["CREATE TABLE a", "ALTER"] 5).engine.stateOf 0 = some .failed := by
  decide +kernel

end SchemaBot.Spirit
