import Mathlib.Data.List.Nodup
import Mathlib.Data.List.Range
import SchemaBot.Lib.Run

/-!
# Changes of a PlanetScale branch

`applyChangesToBranch` of `pkg/engine/planetscale`.
-/

namespace SchemaBot.PlanetScale

/-! ## One keyspace -/

inductive ErrorCode
  | retry | internal | responseMalformed | other
  deriving DecidableEq

/-- What is asked of an error: its PlanetScale code, whether it tells of a lost connection, and whether its text contains
`schema snapshot is in progress`. -/
structure EngineError where
  code : Option ErrorCode := none
  invalidConn : Bool := false
  transientTransport : Bool := false
  isSnapshotInProgress : Bool := false
  deriving DecidableEq

def isRetryablePSError (err : EngineError) : Bool :=
  (match err.code with
    | some .retry | some .internal | some .responseMalformed => true
    | some .other | none => false) || err.isSnapshotInProgress

def isRetryableEngineError (err : EngineError) : Bool :=
  isRetryablePSError err || err.invalidConn || err.transientTransport

/-- The change of a keyspace, with the VSchema that `getVSchemaContent` finds for it. -/
structure SchemaChange where
  vschemaContent : String := ""
  ddls : List String := []

inductive Step
  | vschema | ping
  | ddl (k : Nat)
  deriving DecidableEq

def SchemaChange.steps (sc : SchemaChange) : List Step :=
  (if sc.vschemaContent = "" then [] else [.vschema]) ++
    if sc.ddls = [] then [] else .ping :: (List.range sc.ddls.length).map .ddl

abbrev Log := List (Step × Bool)

def applyKeyspaceChangesOnce (answer : Step → Option EngineError) : List Step → Log × Option EngineError
  | [] => ([], none)
  | s :: rest =>
    match answer s with
    | some err => ([(s, false)], some err)
    | none => ((s, true) :: (applyKeyspaceChangesOnce answer rest).1, (applyKeyspaceChangesOnce answer rest).2)

def maxRetries : Nat := 3

def maxSnapshotRetries : Nat := 5

inductive Outcome
  | applied | cancelled | exhausted
  | failed (err : EngineError)
  deriving DecidableEq

structure Site where
  answer : Nat → Step → Option EngineError
  cancelled : Nat → Bool := fun _ => false

def attemptsAfter (err : EngineError) (maxAttempts : Nat) : Nat :=
  if err.isSnapshotInProgress = true ∧ maxAttempts = maxRetries then maxSnapshotRetries else maxAttempts

def applyKeyspaceChanges (site : Site) (steps : List Step) : List Nat → Nat → List Log × Outcome
  | [], _ => ([], .exhausted)
  | attempt :: later, maxAttempts =>
    if maxAttempts ≤ attempt then ([], .exhausted)
    else if 0 < attempt ∧ site.cancelled attempt = true then ([], .cancelled)
    else
      match applyKeyspaceChangesOnce (site.answer attempt) steps with
      | (log, none) => ([log], .applied)
      | (log, some err) =>
        if isRetryableEngineError err then
          let r := applyKeyspaceChanges site steps later (attemptsAfter err maxAttempts)
          (log :: r.1, r.2)
        else ([log], .failed err)

def SchemaChange.attempts (site : Site) (sc : SchemaChange) : List Log × Outcome :=
  applyKeyspaceChanges site sc.steps (List.range maxSnapshotRetries) maxRetries

def SchemaChange.NotRepeated (site : Site) (sc : SchemaChange) : Prop :=
  ((sc.attempts site).1.flatten.Pairwise fun x y => ∀ k, x = (.ddl k, true) → y.1 ≠ .ddl k) ∧
    ((∀ s ∈ sc.steps, ∃ log ∈ (sc.attempts site).1, (s, true) ∈ log) → (sc.attempts site).2 = .applied)

section
variable {site : Site} {sc : SchemaChange} {steps : List Step} {attempts : List Nat} {log : Log} {maxAttempts : Nat}

/-- An attempt makes its calls in order, and all but the last one have succeeded. -/
theorem applyKeyspaceChangesOnce_eq (answer : Step → Option EngineError) (steps : List Step) :
    ∃ done, done <+: steps ∧
      (applyKeyspaceChangesOnce answer steps = (done.map (·, true), none) ∧ done = steps ∨
        ∃ s err, done ++ [s] <+: steps ∧
          applyKeyspaceChangesOnce answer steps = (done.map (·, true) ++ [(s, false)], some err)) := by
  induction steps with
  | nil => exact ⟨[], List.nil_prefix, .inl ⟨rfl, rfl⟩⟩
  | cons s rest ih =>
    cases hs : answer s with
    | some err => exact ⟨[], List.nil_prefix, .inr ⟨s, err, by simp, by simp [applyKeyspaceChangesOnce, hs]⟩⟩
    | none =>
      obtain ⟨done, hdone, ⟨heq, rfl⟩ | ⟨t, err, ht, heq⟩⟩ := ih
      · exact ⟨s :: done, List.prefix_rfl, .inl ⟨by simp [applyKeyspaceChangesOnce, hs, heq], rfl⟩⟩
      · refine ⟨s :: done, List.cons_prefix_cons.2 ⟨rfl, hdone⟩, .inr ⟨t, err, ?_, ?_⟩⟩
        · exact List.cons_prefix_cons.2 ⟨rfl, ht⟩
        · simp [applyKeyspaceChangesOnce, hs, heq]

theorem mem_attempts (h : log ∈ (applyKeyspaceChanges site steps attempts maxAttempts).1) :
    ∃ answer, log = (applyKeyspaceChangesOnce answer steps).1 := by
  induction attempts generalizing maxAttempts with
  | nil => cases h
  | cons attempt later ih =>
    unfold applyKeyspaceChanges at h
    split_ifs at h
    · cases h
    · cases h
    · cases heq : applyKeyspaceChangesOnce (site.answer attempt) steps with
      | mk l r =>
        rw [heq] at h
        have hl : l = (applyKeyspaceChangesOnce (site.answer attempt) steps).1 := by rw [heq]
        cases r with
        | none => exact ⟨_, (List.mem_singleton.1 h).trans hl⟩
        | some err =>
          dsimp only at h
          split_ifs at h
          · rcases List.mem_cons.1 h with rfl | h
            · exact ⟨_, hl⟩
            · exact ih h
          · exact ⟨_, (List.mem_singleton.1 h).trans hl⟩

/-- The statements that an attempt has come to, or has made, begin with the first one. -/
theorem ddl_zero_mem {l : List Step} {k : Nat} (h : l <+: sc.steps) (hk : .ddl k ∈ l) : .ddl 0 ∈ l := by
  obtain ⟨n, rfl⟩ : ∃ n, l = sc.steps.take n := ⟨l.length, List.prefix_iff_eq_take.1 h⟩
  unfold SchemaChange.steps at hk ⊢
  cases hn : sc.ddls with
  | nil =>
    have := List.mem_of_mem_take hk
    split_ifs at this <;> simp at this
  | cons d ds =>
    simp only [hn, reduceCtorEq, if_false, List.length_cons, List.range_succ_eq_map, List.map_cons, List.take_append,
      List.mem_append] at hk ⊢
    refine hk.imp (fun hk => ?_) fun hk => ?_
    · have := List.mem_of_mem_take hk
      split_ifs at this <;> simp at this
    · match hm : n - (if sc.vschemaContent = "" then [] else [Step.vschema]).length with
      | 0 | 1 => simp [hm] at hk
      | m + 2 => simp

theorem nodup_steps : sc.steps.Nodup := by
  have hddl : ((List.range sc.ddls.length).map Step.ddl).Nodup :=
    List.Nodup.map (fun a b h => by injection h) List.nodup_range
  unfold SchemaChange.steps
  split_ifs <;> simp [hddl]

/-- The last call has succeeded: the attempt was the last one, and the change is applied. -/
theorem applied_of_last {s : Step} (hnodup : (steps ++ [s]).Nodup)
    (h : log ∈ (applyKeyspaceChanges site (steps ++ [s]) attempts maxAttempts).1) (hs : (s, true) ∈ log) :
    (applyKeyspaceChanges site (steps ++ [s]) attempts maxAttempts).2 = .applied := by
  induction attempts generalizing maxAttempts with
  | nil => cases h
  | cons attempt later ih =>
    unfold applyKeyspaceChanges at h ⊢
    split_ifs at h ⊢
    · cases h
    · cases h
    · obtain ⟨done, hdone, ⟨heq, -⟩ | ⟨t, err, ht, heq⟩⟩ := applyKeyspaceChangesOnce_eq (site.answer attempt) (steps ++ [s])
      · rw [heq]
      · -- a failed attempt has not come to the end of its calls
        have hlog : (s, true) ∉ done.map (·, true) ++ [(t, false)] := by
          intro hmem
          have hmem : s ∈ done := by simpa using hmem
          obtain ⟨rest, hrest⟩ := ht
          rw [← hrest, List.append_assoc] at hnodup
          refine (List.nodup_append.1 hnodup).2.2 s hmem s ?_ rfl
          have hlast := congrArg List.getLast? hrest
          rw [List.append_assoc, List.getLast?_append_of_ne_nil _ (by simp), List.getLast?_concat] at hlast
          exact List.mem_of_getLast? hlast
        rw [heq] at h ⊢
        dsimp only at h ⊢
        split_ifs at h ⊢
        · rcases List.mem_cons.1 h with rfl | h
          · exact absurd hs hlog
          · exact ih h
        · obtain rfl := List.mem_singleton.1 h
          exact absurd hs hlog

end

def Sample.change : SchemaChange := { ddls := ["ALTER TABLE a", "ALTER TABLE b"] }

/-- The connection is lost at the second statement of the first attempt; the second attempt begins with the first
statement again, which has taken effect and fails for good. -/
def Sample.site : Site where
  answer
    | 0, .ddl 1 => some { invalidConn := true }
    | 1, .ddl 0 => some {}
    | _, _ => none

def maxConcurrentKeyspaces : Nat := 3

structure Worker where
  left : List Step
  busy : Bool := false
  attempt : Nat := 0
  maxAttempts : Nat := maxRetries
  deriving DecidableEq

structure Group where
  workers : List Worker := []
  committed : List Nat := []
  deriving DecidableEq

inductive Action
  | start
  | call (i : Nat)
  | answer (i : Nat) (err : Option EngineError)

def Worker.after (sc : SchemaChange) (w : Worker) : Option EngineError → Worker
  | none => { w with left := w.left.tail, busy := false }
  | some err =>
    let maxAttempts := attemptsAfter err w.maxAttempts
    if isRetryableEngineError err = true ∧ w.attempt + 1 < maxAttempts then
      { left := sc.steps, attempt := w.attempt + 1, maxAttempts }
    else { w with left := [], busy := false }

/-- `applyChangesToBranch`, one action at a time. -/
def Group.step (changes : List SchemaChange) (g : Group) : Action → Group
  | .start =>
    match changes[g.workers.length]? with
    | none => g
    | some sc =>
      if (g.workers.filter (·.left ≠ [])).length < maxConcurrentKeyspaces then
        { g with workers := g.workers ++ [{ left := sc.steps }] }
      else g
  | .call i => { g with workers := g.workers.modify i fun w => { w with busy := w.left ≠ [] } }
  | .answer i err =>
    match changes[i]?, g.workers[i]? with
    | some sc, some w =>
      if w.busy then
        { workers := g.workers.set i (w.after sc err)
          committed := if err = none ∧ w.left.head? = some .vschema then i :: g.committed else g.committed }
      else g
    | _, _ => g

def Group.Ordered (changes : List SchemaChange) (g : Group) (a : Action) : Prop :=
  (∀ (i j : Nat) (w w' : Worker), g.workers[i]? = some w → g.workers[j]? = some w' → w.busy = true → w'.busy = true →
    w.left.head? = some .vschema → w'.left.head? = some .vschema → i = j) ∧
  ∀ (i k : Nat) (w : Worker), a = .call i → g.workers[i]? = some w → w.left.head? = some (.ddl k) →
    ∀ (j : Nat) (sc : SchemaChange), changes[j]? = some sc → sc.vschemaContent ≠ "" → j ∈ g.committed

def Alone (changes : List SchemaChange) : Prop :=
  changes.Pairwise fun a b => (a.vschemaContent ≠ "" → b.steps = []) ∧ (b.vschemaContent ≠ "" → a.steps = [])

instance (changes : List SchemaChange) : Decidable (Alone changes) :=
  inferInstanceAs (Decidable (List.Pairwise _ _))

section
variable {changes : List SchemaChange} {g : Group} {sc : SchemaChange}

def Group.Sound (changes : List SchemaChange) (g : Group) : Prop :=
  ∀ (i : Nat) (w : Worker), g.workers[i]? = some w → ∃ sc, changes[i]? = some sc ∧ w.left <:+ sc.steps ∧
    (sc.vschemaContent ≠ "" → i ∈ g.committed ∨ w.left = sc.steps ∨ w.left = [])

theorem Alone.steps_eq (h : Alone changes) {i j : Nat} {a b : SchemaChange} (ha : changes[i]? = some a)
    (hb : changes[j]? = some b) (hij : i ≠ j) (hv : a.vschemaContent ≠ "") : b.steps = [] := by
  obtain ⟨hi, rfl⟩ := List.getElem?_eq_some_iff.1 ha
  obtain ⟨hj, rfl⟩ := List.getElem?_eq_some_iff.1 hb
  rcases Nat.lt_or_gt_of_ne hij with hlt | hlt
  · exact (List.pairwise_iff_getElem.1 h i j hi hj hlt).1 hv
  · exact (List.pairwise_iff_getElem.1 h j i hj hi hlt).2 hv

theorem steps_of_vschema (hv : sc.vschemaContent ≠ "") : sc.steps.head? = some .vschema := by
  simp [SchemaChange.steps, hv]

theorem vschema_of_mem (h : .vschema ∈ sc.steps) : sc.vschemaContent ≠ "" := by
  rintro hv
  simp only [SchemaChange.steps] at h
  split_ifs at h <;> simp at h

theorem Group.Sound.ordered (hs : g.Sound changes) (h : Alone changes) (a : Action) : g.Ordered changes a := by
  have hmem : ∀ {w : Worker} {sc : SchemaChange} {s : Step}, w.left <:+ sc.steps → w.left.head? = some s → s ∈ sc.steps :=
    fun hsuffix hhead => hsuffix.subset (List.mem_of_mem_head? hhead)
  refine ⟨fun i j w w' hw hw' _ _ hv hv' => ?_, fun i k w _ hw hddl j sc hsc hv => ?_⟩
  · by_contra hij
    obtain ⟨sc, hsc, hsuffix, -⟩ := hs i w hw
    obtain ⟨sc', hsc', hsuffix', -⟩ := hs j w' hw'
    have hsteps := h.steps_eq hsc hsc' hij (vschema_of_mem (hmem hsuffix hv))
    simpa [hsteps] using hmem hsuffix' hv'
  · obtain ⟨sc', hsc', hsuffix, hcommitted⟩ := hs i w hw
    by_cases hij : j = i
    · subst hij
      obtain rfl := Option.some.inj (hsc.symm.trans hsc')
      rcases hcommitted hv with hin | hall | hnil
      · exact hin
      · simp [hall, steps_of_vschema hv] at hddl
      · simp [hnil] at hddl
    · have hsteps := h.steps_eq hsc hsc' hij hv
      simpa [hsteps] using hmem hsuffix hddl

theorem Worker.after_sound {w : Worker} (hsuffix : w.left <:+ sc.steps) (err : Option EngineError) :
    (w.after sc err).left <:+ sc.steps ∧ (err ≠ none → (w.after sc err).left = sc.steps ∨ (w.after sc err).left = []) := by
  cases err with
  | none => exact ⟨(List.tail_suffix _).trans hsuffix, nofun⟩
  | some err =>
    simp only [Worker.after]
    split_ifs
    · exact ⟨List.suffix_rfl, fun _ => .inl rfl⟩
    · exact ⟨List.nil_suffix, fun _ => .inr rfl⟩

theorem Group.Sound.step (hs : g.Sound changes) (a : Action) : (g.step changes a).Sound changes := by
  cases a with
  | start =>
    simp only [Group.step]
    cases hsc : changes[g.workers.length]? with
    | none => exact hs
    | some sc =>
      split_ifs
      · intro i w hw
        rcases Nat.lt_trichotomy i g.workers.length with hi | rfl | hi
        · exact hs i w (by rwa [List.getElem?_append_left hi] at hw)
        · obtain rfl : w = { left := sc.steps } := by simpa using hw.symm
          exact ⟨sc, hsc, List.suffix_rfl, fun _ => .inr (.inl rfl)⟩
        · rw [List.getElem?_eq_none (by simp; omega)] at hw
          cases hw
      · exact hs
  | call i =>
    intro j w hw
    simp only [Group.step, List.getElem?_modify] at hw
    obtain ⟨w', hw', rfl⟩ := Option.map_eq_some_iff.1 hw
    split_ifs <;> exact hs j w' hw'
  | answer i err =>
    simp only [Group.step]
    cases hsc : changes[i]? with
    | none => exact hs
    | some sc =>
      cases hw : g.workers[i]? with
      | none => exact hs
      | some w =>
        dsimp only
        split
        · intro j w' hw'
          have hmore : ∀ j ∈ g.committed,
              j ∈ if err = none ∧ w.left.head? = some .vschema then i :: g.committed else g.committed := by
            intro j hj
            split_ifs
            · exact List.mem_cons_of_mem _ hj
            · exact hj
          by_cases hij : i = j
          · subst hij
            obtain ⟨sc', hsc', hsuffix, hcommitted⟩ := hs i w hw
            obtain rfl := Option.some.inj (hsc.symm.trans hsc')
            obtain rfl : w.after sc err = w' := by
              simpa [List.getElem?_set_self (List.getElem?_eq_some_iff.1 hw).1] using hw'
            obtain ⟨hsuffix', hagain⟩ := Worker.after_sound hsuffix err
            refine ⟨sc, hsc, hsuffix', fun hv => ?_⟩
            by_cases herr : err = none
            · subst herr
              rcases hcommitted hv with hin | hall | hnil
              · exact .inl (hmore i hin)
              · exact .inl (by simp [hall, steps_of_vschema hv])
              · exact .inr (.inr (by simp [Worker.after, hnil]))
            · exact .inr (hagain herr)
          · rw [List.getElem?_set_ne hij] at hw'
            obtain ⟨sc', hsc', hsuffix, hcommitted⟩ := hs j w' hw'
            exact ⟨sc', hsc', hsuffix, fun hv => (hcommitted hv).imp_left (hmore j)⟩
        · exact hs

end

/-- Where no other change has anything to do next to one that updates its VSchema, every schedule keeps the order. -/
theorem schedules_ordered (changes : List SchemaChange) (h : Alone changes) (as : List Action) :
    Transition.Along (Group.step changes) (fun g a => g.Ordered changes a) {} as :=
  Transition.Along.of_run_invariant (I := Group.Sound changes) (fun _ a hs => hs.step a)
    (fun _ a hs => hs.ordered h a) nofun

def Sample.both : SchemaChange := { vschemaContent := "V", ddls := ["ALTER TABLE a"] }

theorem schedules_ordered_single : Alone [Sample.both, {}] ∧
      Transition.Along (Group.step [Sample.both, {}]) (fun g a => g.Ordered [Sample.both, {}] a) {}
        [.start, .start, .call 0, .answer 0 none, .call 0, .answer 0 none, .call 0] :=
  ⟨by decide, schedules_ordered _ (by decide) _⟩

/-- Two goroutines update their VSchemas at once, and a statement is executed before the VSchema of another keyspace. -/
theorem schedules_overlap :
    (Transition.run (Group.step [Sample.both, Sample.both]) {} [.start, .start, .call 0, .call 1]).workers.map
        (fun w => (w.busy, w.left.head?)) = [(true, some .vschema), (true, some .vschema)] ∧
      (let g := Transition.run (Group.step [Sample.change, Sample.both]) {}
        [.start, .start, .call 0, .answer 0 none, .call 0]
      g.workers.map (fun w => (w.busy, w.left.head?)) = [(true, some (.ddl 0)), (false, some .vschema)] ∧
        g.committed = []) := by
  decide

/-! ## From a branch to a deploy request -/

structure Keyspace (T V : Type) where
  tables : T
  vschema : V
  deriving DecidableEq

/-- What the schema files of a keyspace ask for, with its `vschema.json` if there is one, and what its planned DDL makes of
the tables of a branch. -/
structure KeyspaceFiles (T V : Type) where
  tables : T
  vschema : Option V := none
  vschemaChanged : Bool := false
  ddl : T → Option T := some

/-- A database: its main branch, the others by name, and what `RefreshSchema` makes of one of them. -/
structure Database (T V : Type) where
  mainBranch : List Char
  main : String → Keyspace T V
  branches : List Char → Option (String → Keyspace T V)
  refreshSchema : (String → Keyspace T V) → String → Keyspace T V
  safeMigrations : Bool := true

structure FreshRequest (T V : Type) where
  database : List Char
  planID : List Char
  branch : List Char := []
  keyspaces : List String
  files : String → KeyspaceFiles T V

def generateBranchName (database planID : List Char) : List Char :=
  "schemabot-".toList ++ (database.map fun c => if c = '_' then '-' else c).take 20 ++ '-' :: planID.drop (planID.length - 8)

section
variable {T V : Type} (db : Database T V) (req : FreshRequest T V)

/-- `createBranch`. A name that is taken stands for the branch that has it. -/
def Database.createBranch (name : List Char) : Option (String → Keyspace T V) :=
  if db.safeMigrations then some (if name = db.mainBranch then db.main else (db.branches name).getD db.main) else none

def Database.openBranch : Option (String → Keyspace T V) :=
  if req.branch = [] then db.createBranch (generateBranchName req.database req.planID)
  else if req.branch = db.mainBranch then none
  else (db.branches req.branch).map db.refreshSchema

/-- What `applyChangesToBranch` makes of a branch, keyspace by keyspace. -/
def applyChanges (files : String → KeyspaceFiles T V) :
    List String → (String → Keyspace T V) → Option (String → Keyspace T V)
  | [], branch => some branch
  | ks :: rest, branch => do
    let tables ← (files ks).ddl (branch ks).tables
    let vschema := if (files ks).vschemaChanged then (files ks).vschema.getD (branch ks).vschema else (branch ks).vschema
    applyChanges files rest (Function.update branch ks ⟨tables, vschema⟩)

variable [DecidableEq T] [DecidableEq V]

def verifyBranchMatchesMain (branch : String → Keyspace T V) : Bool :=
  req.keyspaces.all fun ks => (branch ks).tables = (db.main ks).tables

def verifyBranchMatchesDesired (branch : String → Keyspace T V) : Bool :=
  req.keyspaces.all fun ks =>
    (branch ks).tables = (req.files ks).tables && (req.files ks).vschema.all ((branch ks).vschema = ·)

/-- The branch that a fresh `Apply` creates its deploy request from, if it comes to that. -/
def Database.apply : Option (String → Keyspace T V) := do
  let branch ← db.openBranch req
  if req.branch ≠ [] && !verifyBranchMatchesMain db req branch then none
  else do
    let branch ← applyChanges req.files req.keyspaces branch
    if verifyBranchMatchesDesired req branch then some branch else none

def Database.requested (ks : String) : Keyspace T V :=
  if ks ∈ req.keyspaces then ⟨(req.files ks).tables, (req.files ks).vschema.getD (db.main ks).vschema⟩ else db.main ks

variable {db req} {branch b : String → Keyspace T V}

omit [DecidableEq T] [DecidableEq V] in
theorem applyChanges_frame {files : String → KeyspaceFiles T V} {l : List String} (h : applyChanges files l branch = some b)
    (ks : String) : (ks ∉ l → b ks = branch ks) ∧ ((files ks).vschema = none → (b ks).vschema = (branch ks).vschema) := by
  induction l generalizing branch with
  | nil =>
    cases h
    exact ⟨fun _ => rfl, fun _ => rfl⟩
  | cons k l ih =>
    obtain ⟨tables, -, h⟩ := Option.bind_eq_some_iff.1 h
    obtain ⟨hout, hvschema⟩ := ih h
    by_cases hk : ks = k
    · subst hk
      refine ⟨fun hn => absurd List.mem_cons_self hn, fun hnone => (hvschema hnone).trans ?_⟩
      simp [hnone]
    · rw [Function.update_of_ne hk] at hout hvschema
      exact ⟨fun hn => hout fun hl => hn (List.mem_cons_of_mem _ hl), hvschema⟩

theorem Database.apply_eq_some (h : db.apply req = some b) :
    ∃ base, db.openBranch req = some base ∧ applyChanges req.files req.keyspaces base = some b ∧
      verifyBranchMatchesDesired req b = true := by
  obtain ⟨base, hbase, h⟩ := Option.bind_eq_some_iff.1 h
  split at h
  · cases h
  · obtain ⟨b', hb, h⟩ := Option.bind_eq_some_iff.1 h
    split_ifs at h with hdesired
    cases h
    exact ⟨base, hbase, hb, hdesired⟩

end

namespace Sample

def taken : Database Nat Nat where
  mainBranch := "main".toList
  main _ := ⟨0, 0⟩
  branches name :=
    if name = "schemabot-shop-plan-001".toList then some fun ks => if ks = "billing" then ⟨7, 0⟩ else ⟨0, 0⟩ else none
  refreshSchema := id

def orders : FreshRequest Nat Nat where
  database := "shop".toList
  planID := "plan-001".toList
  keyspaces := ["orders"]
  files _ := { tables := 1, ddl := fun _ => some 1 }

end Sample

end SchemaBot.PlanetScale
