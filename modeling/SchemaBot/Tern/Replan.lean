import SchemaBot.Tern.Drive

/-!
# Re-planning before a resume

Before an apply is resumed, `replanAndFilterTasks` (`pkg/tern/local_control_resume.go`) plans again against the
live schema.
-/

namespace SchemaBot

open Concurrent

variable {ctx : Ctx} {now : Nat} {task : Task} {tasks held : List Task} {r : ReplanResult} {s s' : Store}

/-! ## The re-plan -/

def flatTableChanges (changes : List EngineSchemaChange) : List EngineTableChange :=
  changes.flatMap (·.tableChanges)

/-- `replanDDL`, whose keys are those of `needsChange`: a later change of the same table replaces an earlier
one. -/
def replanDDL (changes : List EngineSchemaChange) : String → Option String :=
  (flatTableChanges changes).foldl (fun index tc => Function.update index tc.table (some tc.ddl)) fun _ => none

structure ReplanResult where
  activeTasks : List Task := []
  completedCount : Nat := 0
  deriving DecidableEq

/-- The task loop of `replanAndFilterTasks`, with the tasks as they are held afterwards. -/
def partitionTasks (ctx : Ctx) (now : Nat) (ddls : String → Option String) :
    List Task → StoreMethod (ReplanResult × List Task)
  | [] => pure ({}, [])
  | task :: tasks => do
    if task.state = .completed then do
      let (result, tasks) ← partitionTasks ctx now ddls tasks
      pure (result, task :: tasks)
    else match ddls task.tableName with
      | none => do
        let task ← transitionTaskState ctx
          { task with progress.progressPercent := 100, completedAt := some now } .completed
        let (result, tasks) ← partitionTasks ctx now ddls tasks
        pure ({ result with completedCount := result.completedCount + 1 }, task :: tasks)
      | some ddl => do
        let task := { task with ddl }
        let (result, tasks) ← partitionTasks ctx now ddls tasks
        pure ({ result with activeTasks := task :: result.activeTasks }, task :: tasks)

/-- `replanAndFilterTasks`, given the answer of `planWithEngine`. -/
def replanAndFilterTasks (replanOut : Except String (List EngineSchemaChange)) (ctx : Ctx) (tasks : List Task) :
    StoreMethod (ReplanResult × List Task) := do
  match replanOut with
  | .error message => throw ⟨"re-plan failed: " ++ message, .unnamed⟩
  | .ok changes => do
    let now ← Method.read (·.now)
    partitionTasks ctx now (replanDDL changes) tasks

/-! ## What each task asks for -/

def Task.ownDDLs (task : Task) (changes : List EngineSchemaChange) : List String :=
  ((changes.filter (·.namespaceName = task.namespaceName)).flatMap (·.tableChanges)).filterMap fun tc =>
    if tc.table = task.tableName then some tc.ddl else none

def Task.replannedAway (task : Task) (now : Nat) : Task :=
  { task with progress.progressPercent := 100, completedAt := some now, state := .completed }

/-- What the re-plan is for, task by task: one that is over is left alone, one whose own table has no change is
marked completed, with one update of its row, and every other is active with a DDL of its own table. -/
inductive ReplanMeets (changes : List EngineSchemaChange) (ctx : Ctx) (now : Nat) :
    List Task → Store → ReplanResult → List Task → Store → Prop
  | nil {s : Store} : ReplanMeets changes ctx now [] s {} [] s
  | over {task : Task} {tasks held : List Task} {r : ReplanResult} {s s' : Store}
      (hover : task.state.isTerminal = true) (hrest : ReplanMeets changes ctx now tasks s r held s') :
      ReplanMeets changes ctx now (task :: tasks) s r (task :: held) s'
  | done {task : Task} {tasks held : List Task} {r : ReplanResult} {s s' : Store}
      (hlive : task.state.isTerminal = false) (hnone : task.ownDDLs changes = [])
      (hrest : ReplanMeets changes ctx now tasks ((updateTask ctx (task.replannedAway now)).call s).1 r held s') :
      ReplanMeets changes ctx now (task :: tasks) s { r with completedCount := r.completedCount + 1 }
        (task.replannedAway now :: held) s'
  | active {task : Task} {tasks held : List Task} {r : ReplanResult} {s s' : Store} {ddl : String}
      (hlive : task.state.isTerminal = false) (hown : ddl ∈ task.ownDDLs changes)
      (hrest : ReplanMeets changes ctx now tasks s r held s') :
      ReplanMeets changes ctx now (task :: tasks) s
        { r with activeTasks := { task with ddl } :: r.activeTasks } ({ task with ddl } :: held) s'

/-- The tasks that get it: one that has completed, or one that is not over and whose table is not shadowed by a
table of the same name in another namespace: the last change of a table of that name, if there is one, has a DDL
of its own. -/
def Task.Unshadowed (task : Task) (changes : List EngineSchemaChange) : Prop :=
  task.state = .completed ∨
    task.state.isTerminal = false ∧
      ∀ tc ∈ ((flatTableChanges changes).filter (·.table = task.tableName)).getLast?, tc.ddl ∈ task.ownDDLs changes

/-! ## The index -/

theorem foldl_update_getLast {α β κ : Type} [DecidableEq κ] (key : α → κ) (val : α → β) (l : List α) (k : κ) :
    ∀ index : κ → Option β,
      l.foldl (fun index a => Function.update index (key a) (some (val a))) index k =
        ((l.filter (key · = k)).getLast?.map val).or (index k) := by
  induction l with
  | nil => exact fun _ => rfl
  | cons a l ih =>
    intro index
    rw [List.foldl_cons, ih]
    by_cases hk : key a = k
    · subst hk
      rw [List.filter_cons_of_pos (by simp), List.getLast?_cons]
      cases (l.filter (key · = key a)).getLast? <;> simp
    · rw [List.filter_cons_of_neg (by simpa using hk), Function.update_of_ne (Ne.symm hk)]

theorem replanDDL_eq (changes : List EngineSchemaChange) (table : String) :
    replanDDL changes table = ((flatTableChanges changes).filter (·.table = table)).getLast?.map (·.ddl) := by
  rw [replanDDL, foldl_update_getLast]
  exact Option.or_none

theorem Task.mem_ownDDLs {task : Task} {changes : List EngineSchemaChange} {ddl : String} :
    ddl ∈ task.ownDDLs changes ↔
      ∃ sc ∈ changes, sc.namespaceName = task.namespaceName ∧
        ∃ tc ∈ sc.tableChanges, tc.table = task.tableName ∧ tc.ddl = ddl := by
  simp only [Task.ownDDLs, List.mem_filterMap, List.mem_flatMap, List.mem_filter, decide_eq_true_eq]
  constructor
  · rintro ⟨tc, ⟨sc, ⟨hsc, hns⟩, htc⟩, h⟩
    split at h
    · exact ⟨sc, hsc, hns, tc, htc, ‹_›, Option.some.inj h⟩
    · cases h
  · rintro ⟨sc, hsc, hns, tc, htc, ht, rfl⟩
    exact ⟨tc, ⟨sc, ⟨hsc, hns⟩, htc⟩, if_pos ht⟩

theorem Task.ownDDLs_eq_nil {task : Task} {changes : List EngineSchemaChange}
    (h : replanDDL changes task.tableName = none) : task.ownDDLs changes = [] := by
  refine List.eq_nil_iff_forall_not_mem.2 fun ddl hddl => ?_
  obtain ⟨sc, hsc, -, tc, htc, ht, -⟩ := Task.mem_ownDDLs.1 hddl
  have hmem : tc ∈ (flatTableChanges changes).filter (·.table = task.tableName) :=
    List.mem_filter.2 ⟨List.mem_flatMap.2 ⟨sc, hsc, htc⟩, by simpa using ht⟩
  rw [replanDDL_eq, Option.map_eq_none_iff, List.getLast?_eq_none_iff] at h
  rw [h] at hmem
  cases hmem

theorem Task.unshadowed_iff {task : Task} {changes : List EngineSchemaChange} : task.Unshadowed changes ↔
      task.state = .completed ∨ task.state.isTerminal = false ∧
        ∀ ddl ∈ replanDDL changes task.tableName, ddl ∈ task.ownDDLs changes := by
  simp only [Task.Unshadowed, replanDDL_eq, Option.mem_def, Option.map_eq_some_iff, forall_exists_index, and_imp,
    forall_apply_eq_imp_iff₂]

/-! ## The loop, task by task -/

theorem transitionTaskState_eq (ctx : Ctx) (task : Task) (newState : TaskState) (s : Store) :
    (transitionTaskState ctx task newState).call s =
      (((updateTask ctx { task with state := newState }).call s).1, .ok { task with state := newState }) := by
  unfold transitionTaskState
  rw [Method.call_bind_ok (Method.call_attempt _ s), Method.call_pure]

section
variable {ddls : String → Option String}

theorem partitionTasks_completed (hstate : task.state = .completed)
    (h : (partitionTasks ctx now ddls tasks).call s = (s', .ok (r, held))) :
    (partitionTasks ctx now ddls (task :: tasks)).call s = (s', .ok (r, task :: held)) := by
  rw [partitionTasks, if_pos hstate, Method.call_bind_ok h, Method.call_pure]

theorem partitionTasks_none (hstate : task.state ≠ .completed) (hddl : ddls task.tableName = none)
    (h : (partitionTasks ctx now ddls tasks).call ((updateTask ctx (task.replannedAway now)).call s).1 =
      (s', .ok (r, held))) :
    (partitionTasks ctx now ddls (task :: tasks)).call s =
      (s', .ok ({ r with completedCount := r.completedCount + 1 }, task.replannedAway now :: held)) := by
  have hmark : (transitionTaskState ctx
      { task with progress.progressPercent := 100, completedAt := some now } .completed).call s =
      (((updateTask ctx (task.replannedAway now)).call s).1, .ok (task.replannedAway now)) :=
    transitionTaskState_eq ctx _ _ s
  rw [partitionTasks, if_neg hstate]
  simp only [hddl]
  rw [Method.call_bind_ok hmark, Method.call_bind_ok h, Method.call_pure]

theorem partitionTasks_some {ddl : String} (hstate : task.state ≠ .completed)
    (hddl : ddls task.tableName = some ddl) (h : (partitionTasks ctx now ddls tasks).call s = (s', .ok (r, held))) :
    (partitionTasks ctx now ddls (task :: tasks)).call s =
      (s', .ok ({ r with activeTasks := { task with ddl } :: r.activeTasks }, { task with ddl } :: held)) := by
  rw [partitionTasks, if_neg hstate]
  simp only [hddl]
  rw [Method.call_bind_ok h, Method.call_pure]

theorem partitionTasks_counts (ctx : Ctx) (now : Nat) (ddls : String → Option String) (tasks : List Task) :
    ∀ s, ∃ s' r held, (partitionTasks ctx now ddls tasks).call s = (s', .ok (r, held)) ∧
      r.activeTasks.length + r.completedCount = tasks.countP (·.state ≠ .completed) := by
  induction tasks with
  | nil => exact fun s => ⟨s, {}, [], rfl, rfl⟩
  | cons task tasks ih =>
    intro s
    by_cases hstate : task.state = .completed
    · obtain ⟨s', r, held, h, hc⟩ := ih s
      refine ⟨s', r, task :: held, partitionTasks_completed hstate h, ?_⟩
      rw [List.countP_cons_of_neg (by simpa using hstate), hc]
    · have hcount : (task :: tasks).countP (·.state ≠ .completed) = tasks.countP (·.state ≠ .completed) + 1 :=
        List.countP_cons_of_pos (by simpa using hstate)
      cases hddl : ddls task.tableName with
      | none =>
        obtain ⟨s', r, held, h, hc⟩ := ih ((updateTask ctx (task.replannedAway now)).call s).1
        exact ⟨s', _, _, partitionTasks_none hstate hddl h, by rw [hcount, ← hc]; rfl⟩
      | some ddl =>
        obtain ⟨s', r, held, h, hc⟩ := ih s
        refine ⟨s', _, _, partitionTasks_some hstate hddl h, ?_⟩
        rw [hcount, ← hc, List.length_cons, Nat.add_right_comm]

end

/-! ## Which inputs each task gets its own change on -/

section
variable {changes : List EngineSchemaChange}

theorem ReplanMeets.counts (h : ReplanMeets changes ctx now tasks s r held s') :
    r.activeTasks.length + r.completedCount = tasks.countP (·.state.isTerminal = false) := by
  induction h with
  | nil => rfl
  | «over» hover _ ih => rw [List.countP_cons_of_neg (by simp [hover]), ih]
  | done hlive _ _ ih =>
    rw [List.countP_cons_of_pos (by simp [hlive]), ← ih]
    rfl
  | active hlive _ _ ih =>
    rw [List.countP_cons_of_pos (by simp [hlive]), ← ih, List.length_cons, Nat.add_right_comm]

theorem countP_live_le (tasks : List Task) :
    tasks.countP (·.state.isTerminal = false) ≤ tasks.countP (·.state ≠ .completed) := by
  refine List.countP_mono_left fun task _ hlive => ?_
  simp only [decide_eq_true_eq] at hlive ⊢
  rintro hdone
  rw [hdone] at hlive
  cases hlive

theorem replanMeets_of_unshadowed (hall : ∀ task ∈ tasks, task.Unshadowed changes) (s : Store) :
    ∃ s' r held, (partitionTasks ctx now (replanDDL changes) tasks).call s = (s', .ok (r, held)) ∧
      ReplanMeets changes ctx now tasks s r held s' := by
  induction tasks generalizing s with
  | nil => exact ⟨s, {}, [], rfl, .nil⟩
  | cons task tasks ih =>
    have hrest := fun t ht => hall t (List.mem_cons_of_mem _ ht)
    rcases Task.unshadowed_iff.1 (hall task List.mem_cons_self) with hdone | ⟨hlive, hown⟩
    · obtain ⟨s', r, held, h, hm⟩ := ih hrest s
      exact ⟨s', r, _, partitionTasks_completed hdone h, .over (by rw [hdone]; rfl) hm⟩
    · have hstate : task.state ≠ .completed := fun hdone => by rw [hdone] at hlive; cases hlive
      cases hddl : replanDDL changes task.tableName with
      | none =>
        obtain ⟨s', r, held, h, hm⟩ := ih hrest ((updateTask ctx (task.replannedAway now)).call s).1
        exact ⟨s', _, _, partitionTasks_none hstate hddl h, .done hlive (Task.ownDDLs_eq_nil hddl) hm⟩
      | some ddl =>
        obtain ⟨s', r, held, h, hm⟩ := ih hrest s
        exact ⟨s', _, _, partitionTasks_some hstate hddl h, .active hlive (hown ddl hddl) hm⟩

theorem ReplanMeets.cons_cases (h : ReplanMeets changes ctx now (task :: tasks) s r held s') :
    task.state.isTerminal = true ∧
      (∃ held₁, held = task :: held₁ ∧ ReplanMeets changes ctx now tasks s r held₁ s') ∨
    task.state.isTerminal = false ∧
      (∃ r₁ held₁, r = { r₁ with completedCount := r₁.completedCount + 1 } ∧ held = task.replannedAway now :: held₁ ∧
        ReplanMeets changes ctx now tasks ((updateTask ctx (task.replannedAway now)).call s).1 r₁ held₁ s') ∨
    task.state.isTerminal = false ∧
      (∃ ddl ∈ task.ownDDLs changes, ∃ r₁ held₁, r = { r₁ with activeTasks := { task with ddl } :: r₁.activeTasks } ∧
        held = { task with ddl } :: held₁ ∧ ReplanMeets changes ctx now tasks s r₁ held₁ s') := by
  cases h with
  | «over» hover hrest => exact .inl ⟨hover, _, rfl, hrest⟩
  | done hlive _ hrest => exact .inr (.inl ⟨hlive, _, _, rfl, rfl, hrest⟩)
  | active hlive hown hrest => exact .inr (.inr ⟨hlive, _, hown, _, _, rfl, rfl, hrest⟩)

theorem live_of_replanMeets (hdone : task.state ≠ .completed)
    (hcall : (partitionTasks ctx now (replanDDL changes) (task :: tasks)).call s = (s', .ok (r, held)))
    (hmeets : ReplanMeets changes ctx now (task :: tasks) s r held s') : task.state.isTerminal = false := by
  obtain ⟨s₁, r₁, held₁, h, hcount⟩ := partitionTasks_counts ctx now (replanDDL changes) (task :: tasks) s
  cases h.symm.trans hcall
  by_contra hover
  have hmet := hmeets.counts
  rw [List.countP_cons_of_pos (by simpa using hdone)] at hcount
  rw [List.countP_cons_of_neg (by simpa using hover)] at hmet
  have hle := countP_live_le tasks
  omega

theorem unshadowed_of_replanMeets
    (hcall : (partitionTasks ctx now (replanDDL changes) tasks).call s = (s', .ok (r, held)))
    (hmeets : ReplanMeets changes ctx now tasks s r held s') : ∀ task ∈ tasks, task.Unshadowed changes := by
  induction tasks generalizing s s' r held with
  | nil => exact fun _ h => nomatch h
  | cons task tasks ih =>
    rw [List.forall_mem_cons, Task.unshadowed_iff]
    by_cases hdone : task.state = .completed
    · obtain ⟨s₁, r₁, held₁, h, -⟩ := partitionTasks_counts ctx now (replanDDL changes) tasks s
      have heq := (partitionTasks_completed hdone h).symm.trans hcall
      obtain ⟨rfl, rfl, rfl⟩ := heq
      rcases hmeets.cons_cases with ⟨-, held₂, hheld, hrest⟩ | ⟨hlive, -⟩ | ⟨hlive, -⟩
      · rw [List.cons.injEq] at hheld
        rw [← hheld.2] at hrest
        exact ⟨.inl hdone, ih h hrest⟩
      · simp [hdone, TaskState.isTerminal] at hlive
      · simp [hdone, TaskState.isTerminal] at hlive
    · have hlive := live_of_replanMeets hdone hcall hmeets
      cases hddl : replanDDL changes task.tableName with
      | none =>
        obtain ⟨s₁, r₁, held₁, h, -⟩ := partitionTasks_counts ctx now (replanDDL changes) tasks
          ((updateTask ctx (task.replannedAway now)).call s).1
        have heq := (partitionTasks_none hdone hddl h).symm.trans hcall
        obtain ⟨rfl, rfl, rfl⟩ := heq
        refine ⟨.inr ⟨hlive, fun _ hmem => nomatch hmem⟩, ?_⟩
        rcases hmeets.cons_cases with ⟨hover, -⟩ | ⟨-, r₂, held₂, hr, hheld, hrest⟩ | ⟨-, ddl, -, r₂, held₂, -, hheld, -⟩
        · simp [hlive] at hover
        · cases r₁
          cases r₂
          simp only [List.cons.injEq, true_and] at hr hheld
          obtain ⟨rfl, rfl⟩ := hr
          exact ih h (hheld ▸ hrest)
        · rw [List.cons.injEq] at hheld
          exact absurd (congrArg Task.state hheld.1).symm hdone
      | some ddl =>
        obtain ⟨s₁, r₁, held₁, h, -⟩ := partitionTasks_counts ctx now (replanDDL changes) tasks s
        have heq := (partitionTasks_some hdone hddl h).symm.trans hcall
        obtain ⟨rfl, rfl, rfl⟩ := heq
        rcases hmeets.cons_cases with ⟨hover, -⟩ | ⟨-, r₂, held₂, -, hheld, -⟩ | ⟨-, ddl', hown, r₂, held₂, hr, hheld, hrest⟩
        · simp [hlive] at hover
        · rw [List.cons.injEq] at hheld
          exact absurd (congrArg Task.state hheld.1) hdone
        · rw [List.cons.injEq] at hheld
          cases r₁
          cases r₂
          simp only [ReplanResult.mk.injEq, List.cons.injEq] at hr
          obtain ⟨⟨-, rfl⟩, rfl⟩ := hr
          have hsame : ddl = ddl' := congrArg Task.ddl hheld.1
          refine ⟨.inr ⟨hlive, fun _ hmem => ?_⟩, ih h (hheld.2 ▸ hrest)⟩
          rw [← Option.some.inj hmem, hsame]
          exact hown

theorem call_replanAndFilterTasks (changes : List EngineSchemaChange) (ctx : Ctx) (tasks : List Task) (s : Store) :
    (replanAndFilterTasks (.ok changes) ctx tasks).call s =
      (partitionTasks ctx s.now (replanDDL changes) tasks).call s :=
  Method.call_bind_ok (Method.call_read _ s)

/-- The re-plan does what it is for, for every task of the list, exactly when no task is shadowed or over
without having completed. -/
theorem replan_meets_iff (changes : List EngineSchemaChange) (ctx : Ctx) (tasks : List Task) (s : Store) :
    (∃ s' r held, (replanAndFilterTasks (.ok changes) ctx tasks).call s = (s', .ok (r, held)) ∧
      ReplanMeets changes ctx s.now tasks s r held s') ↔ ∀ task ∈ tasks, task.Unshadowed changes := by
  constructor
  · rintro ⟨s', r, held, hcall, hmeets⟩
    exact unshadowed_of_replanMeets hcall hmeets
  · exact fun hall => replanMeets_of_unshadowed hall s

end

/-! ## A plan of two namespaces -/

namespace Sample

/-- `users` of the namespace `app` is still to change, and so is the `users` of `audit`. -/
def twoNamespaces : List EngineSchemaChange :=
  [{ namespaceName := "app", tableChanges := [⟨"users", "ALTER TABLE users ADD COLUMN email text", "alter"⟩] },
    { namespaceName := "audit", tableChanges := [⟨"users", "ALTER TABLE users DROP COLUMN note", "alter"⟩] }]

def appUsers : Task :=
  { id := 1, applyId := 1, namespaceName := "app", tableName := "users", state := .stopped
    ddl := "ALTER TABLE users ADD COLUMN email text" }

def failedOrders : Task := { id := 2, applyId := 1, namespaceName := "app", tableName := "orders", state := .failed }

def stoppedStore : Store := { tasks := [appUsers, failedOrders], now := 7 }

end Sample

open Sample in
/-- The task of `app` goes on with the DDL of `audit`, and the failed task is completed, in the store as well. -/
theorem replan_crosses_namespaces :
    (replanAndFilterTasks (.ok twoNamespaces) {} [appUsers, failedOrders]).call stoppedStore =
      ({ stoppedStore with tasks := [appUsers, { failedOrders.replannedAway 7 with updatedAt := 7 }] },
        .ok ({ activeTasks := [{ appUsers with ddl := "ALTER TABLE users DROP COLUMN note" }], completedCount := 1 },
          [{ appUsers with ddl := "ALTER TABLE users DROP COLUMN note" }, failedOrders.replannedAway 7])) ∧
      appUsers.ownDDLs twoNamespaces = ["ALTER TABLE users ADD COLUMN email text"] ∧
      ¬ ∃ s' r held, (replanAndFilterTasks (.ok twoNamespaces) {} [appUsers, failedOrders]).call stoppedStore =
        (s', .ok (r, held)) ∧ ReplanMeets twoNamespaces {} 7 [appUsers, failedOrders] stoppedStore r held s' := by
  refine ⟨by rfl, by decide, ?_⟩
  rintro ⟨s', r, held, hcall, hmeets⟩
  rw [call_replanAndFilterTasks] at hcall
  have hfailed := unshadowed_of_replanMeets hcall hmeets failedOrders (by decide)
  rcases hfailed with hdone | ⟨hlive, -⟩
  · exact absurd hdone (by decide)
  · exact absurd hlive (by decide)

end SchemaBot
