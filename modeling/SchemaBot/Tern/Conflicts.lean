import SchemaBot.Tern.Replan

/-!
# The conflict check of a new apply

Before a local client starts an apply it looks for tasks of the same database that are not over
(`checkActiveTaskConflict` in `pkg/tern/local_apply.go`).
-/

namespace SchemaBot

open Concurrent

/-- What `Progress` of the engine returns: a result, an error, or both, and the task whose work it is about. -/
structure ProgressAnswer where
  result : Option ProgressResult
  err : Option String := none
  work : Option Nat := none

structure ConflictSite where
  store : Store := {}
  asked : List (Task × ProgressAnswer) := []
  writes : List (Task × ProgressAnswer) := []

inductive ConflictError
  | panicked
  | refused (message : String)
  deriving DecidableEq

abbrev ConflictMethod := Method ConflictSite ConflictError

/-! ## The check -/

def noActiveSchemaChange : String := "No active schema change"

def abandonedMessage : String :=
  "Task abandoned: engine has no active schema change (server may have crashed)"

/-- `GetByDatabase`, newest first, with the database type of each task. -/
def Store.getByDatabase (s : Store) (database : String) : List (Task × String) :=
  s.tasks.reverse.filterMap fun t =>
    (s.applies.find? fun a => a.id = t.applyId && a.database = database).map fun a => (t, a.databaseType)

def settleStaleTask (answer : ProgressAnswer) (read task : Task) (newState : TaskState) : ConflictMethod Unit :=
  Method.write fun w =>
    ({ w with
        store := (Method.call (transitionTaskState {} task newState) w.store).1
        writes := w.writes ++ [(read, answer)] }, ())

/-- `tryResolveStaleTask`. A client without an engine resolves nothing. -/
def tryResolveStaleTask (engine : Option ProgressAnswer) (t : Task) : ConflictMethod Bool :=
  match engine with
  | none => pure false
  | some answer => do
    Method.write fun w => ({ w with asked := w.asked ++ [(t, answer)] }, ())
    match answer.result with
    -- The result is logged before the error is looked at.
    | none => throw .panicked
    | some result =>
      if answer.err.isSome then pure false
      else do
        let now ← Method.read (·.store.now)
        if result.state.isTerminal then do
          settleStaleTask answer t { t with completedAt := some now } (engineStateToStorage result.state)
          pure true
        else if result.message = noActiveSchemaChange then
          if t.state.isInFlight then do
            settleStaleTask answer t { t with errorMessage := abandonedMessage, completedAt := some now } .failed
            pure true
          else pure false
        else pure false

def findBlockingTask (engine : Task → Option ProgressAnswer) (databaseType : String) :
    List (Task × String) → ConflictMethod String
  | [] => pure ""
  | (t, type) :: rest =>
    if type ≠ databaseType ∨ t.state.isTerminal = true then findBlockingTask engine databaseType rest
    else do
      if ← tryResolveStaleTask (engine t) t then findBlockingTask engine databaseType rest
      else pure t.taskIdentifier

/-- The attempts of `checkActiveTaskConflict` from one on, with those that are left after it. `engine` is what the
engine answers at an attempt, for a task. -/
def conflictAttempts (engine : Nat → Task → Option ProgressAnswer) (database databaseType : String) :
    (left attempt : Nat) → ConflictMethod Unit
  | left, attempt => do
    let tasks ← Method.read (·.store.getByDatabase database)
    let blocking ← findBlockingTask (engine attempt) databaseType tasks
    if blocking = "" then pure ()
    else match left with
      | 0 => throw (.refused "schema change already in progress for this database")
      | left + 1 => conflictAttempts engine database databaseType left (attempt + 1)

def checkActiveTaskConflict (engine : Nat → Task → Option ProgressAnswer) (database databaseType : String) :
    ConflictMethod Unit :=
  conflictAttempts engine database databaseType 9 0

/-! ## What the check asks, and what it writes -/

def Resolving (p : Task × ProgressAnswer) : Bool :=
  match p.2.result with
  | none => false
  | some result => p.2.err.isNone &&
      (result.state.isTerminal || (result.message = noActiveSchemaChange && p.1.state.isInFlight))

/-- A piece of the check, run from `w` to `w'` with the outcome `r`: it writes the tasks for which it got a resolving
answer and no other row, and it panics on an answer without a result. -/
structure Checked {α : Type} (w w' : ConflictSite) (r : Except ConflictError α) : Prop where
  asked : ∃ new, w'.asked = w.asked ++ new ∧ w'.writes = w.writes ++ new.filter Resolving ∧
    (r = .error .panicked ↔ ∃ p ∈ new, p.2.result = none)
  kept : ∀ task ∈ w.store.tasks, task ∈ w'.store.tasks ∨ ∃ answer, (task, answer) ∈ w'.writes
  ids : w'.store.tasks.map (·.id) = w.store.tasks.map (·.id)

section
variable {α β : Type} {w w' w'' : ConflictSite} {t : Task} {answer : ProgressAnswer} {r : Except ConflictError Bool}

theorem Checked.refl {r : Except ConflictError α} (h : r ≠ .error .panicked) : Checked w w r where
  asked := ⟨[], by simp [h]⟩
  kept _ hmem := .inl hmem
  ids := rfl

theorem Checked.trans {a : α} {r : Except ConflictError β} (h : Checked w w' (.ok a : Except ConflictError α))
    (h' : Checked w' w'' r) : Checked w w'' r := by
  obtain ⟨new, hasked, hwrites, hpanic⟩ := h.asked
  obtain ⟨new', hasked', hwrites', hpanic'⟩ := h'.asked
  refine ⟨⟨new ++ new', ?_, ?_, ?_⟩, ?_, h'.ids.trans h.ids⟩
  · rw [hasked', hasked, List.append_assoc]
  · rw [hwrites', hwrites, List.filter_append, List.append_assoc]
  · rw [hpanic']
    constructor
    · rintro ⟨p, hp, hnone⟩
      exact ⟨p, List.mem_append_right _ hp, hnone⟩
    · rintro ⟨p, hp, hnone⟩
      rcases List.mem_append.1 hp with hp | hp
      · cases hpanic.2 ⟨p, hp, hnone⟩
      · exact ⟨p, hp, hnone⟩
  · intro task hmem
    rcases h.kept task hmem with hmem' | ⟨answer, hwritten⟩
    · exact h'.kept task hmem'
    · right
      refine ⟨answer, ?_⟩
      rw [hwrites']
      exact List.mem_append_left _ hwritten

theorem Checked.keys {r : Except ConflictError α} (h : Checked w w' r)
    (hkeys : Table.KeysUnique (·.id) w.store.tasks) : Table.KeysUnique (·.id) w'.store.tasks := by
  unfold Table.KeysUnique
  rw [h.ids]
  exact hkeys

theorem Checked.bind {m : ConflictMethod α} {g : α → ConflictMethod β}
    (h : Checked w (Method.call m w).1 (Method.call m w).2)
    (hg : ∀ w' a, Method.call m w = (w', .ok a) → Checked w' (Method.call (g a) w').1 (Method.call (g a) w').2) :
    Checked w (Method.call (m >>= g) w).1 (Method.call (m >>= g) w).2 := by
  rw [Method.call_bind]
  generalize Method.call m w = r at h hg
  obtain ⟨w', e | a⟩ := r
  · obtain ⟨new, hasked, hwrites, hpanic⟩ := h.asked
    refine ⟨⟨new, hasked, hwrites, ?_⟩, h.kept, h.ids⟩
    rw [← hpanic, Except.error.injEq, Except.error.injEq]
  · exact h.trans (hg w' a rfl)

theorem transitionTaskState_tasks (task : Task) (newState : TaskState) (s : Store) :
    (Method.call (transitionTaskState {} task newState) s).1.tasks =
      Table.update (fun r => decide (r.id = task.id)) (assignTask { task with state := newState } s) s.tasks := by
  have hguard : taskWriteGuardFromContext {} { task with state := newState } = .ok .unguarded := rfl
  rw [transitionTaskState_eq]
  unfold updateTask
  rw [hguard, Method.call_bind_ok (Method.call_lift _ _), execTasks, Method.call_bind_ok (Method.call_write _ _)]
  split <;> simp [WriteGuard.verifyStillOwned, WriteGuard.taskPredicate, Store.updateTasks]

theorem checked_settle (task : Task) (newState : TaskState) (hkeys : Table.KeysUnique (·.id) w.store.tasks)
    (ht : t ∈ w.store.tasks) (hid : task.id = t.id) (hresolving : Resolving (t, answer) = true)
    (hcall : Method.call (do settleStaleTask answer t task newState; pure true)
      { w with asked := w.asked ++ [(t, answer)] } = (w', r)) :
    Checked w w' r ∧ ∀ other ∈ w.store.tasks, other.id ≠ t.id → other ∈ w'.store.tasks := by
  obtain ⟨hw, rfl⟩ := Prod.mk.inj hcall
  have hstore : w'.store.tasks = Table.update (fun r => decide (r.id = task.id))
      (assignTask { task with state := newState } w.store) w.store.tasks :=
    hw ▸ transitionTaskState_tasks task newState w.store
  have hasked : w'.asked = w.asked ++ [(t, answer)] := hw ▸ rfl
  have hwrites : w'.writes = w.writes ++ [(t, answer)] := hw ▸ rfl
  have hresult : answer.result ≠ none := by
    intro hnone
    simp [Resolving, hnone] at hresolving
  have hother : ∀ other ∈ w.store.tasks, other.id ≠ t.id → other ∈ w'.store.tasks := by
    intro other hmem hne
    rw [hstore]
    refine Table.mem_update_of_neg hmem ?_
    simpa [hid] using hne
  refine ⟨⟨⟨[(t, answer)], hasked, ?_, ?_⟩, ?_, ?_⟩, hother⟩
  · rw [hwrites, List.filter_cons_of_pos hresolving, List.filter_nil]
  · simp [hresult]
  · intro other hmem
    by_cases hsame : other.id = t.id
    · right
      refine ⟨answer, ?_⟩
      rw [hkeys.eq hmem ht hsame, hwrites]
      exact List.mem_append_right _ (.head _)
    · exact .inl (hother other hmem hsame)
  · rw [hstore]
    exact Table.map_update Task.id fun _ => rfl

theorem checked_ask {r : Except ConflictError α} (hresolving : Resolving (t, answer) = false)
    (hpanic : r = .error .panicked ↔ answer.result = none) :
    Checked w { w with asked := w.asked ++ [(t, answer)] } r where
  asked := by
    refine ⟨[(t, answer)], rfl, ?_, ?_⟩
    · simp [hresolving]
    · simp [hpanic]
  kept _ hmem := .inl hmem
  ids := rfl

theorem checked_tryResolveStaleTask (engine : Option ProgressAnswer)
    (hkeys : Table.KeysUnique (·.id) w.store.tasks) (ht : t ∈ w.store.tasks) :
    Checked w (Method.call (tryResolveStaleTask engine t) w).1 (Method.call (tryResolveStaleTask engine t) w).2 ∧
      ∀ other ∈ w.store.tasks, other.id ≠ t.id →
        other ∈ (Method.call (tryResolveStaleTask engine t) w).1.store.tasks := by
  unfold tryResolveStaleTask
  cases engine with
  | none => exact ⟨.refl nofun, fun _ hmem _ => hmem⟩
  | some answer =>
    rw [Method.call_bind_ok (Method.call_write _ _)]
    cases hresult : answer.result with
    | none => exact ⟨checked_ask (by simp [Resolving, hresult]) (by simp [hresult]), fun _ hmem _ => hmem⟩
    | some result =>
      dsimp only
      by_cases herr : answer.err.isSome = true
      · rw [if_pos herr]
        refine ⟨checked_ask ?_ (by simp [hresult]), fun _ hmem _ => hmem⟩
        obtain ⟨message, herr⟩ := Option.isSome_iff_exists.1 herr
        simp [Resolving, hresult, herr]
      rw [if_neg herr, Method.call_bind_ok (Method.call_read _ _)]
      by_cases hterminal : result.state.isTerminal = true
      · rw [if_pos hterminal]
        refine checked_settle { t with completedAt := some w.store.now } (engineStateToStorage result.state) hkeys ht
          rfl ?_ rfl
        simpa [Resolving, hresult, hterminal] using herr
      rw [if_neg hterminal]
      by_cases hmessage : result.message = noActiveSchemaChange
      · rw [if_pos hmessage]
        by_cases hflight : t.state.isInFlight = true
        · rw [if_pos hflight]
          refine checked_settle { t with errorMessage := abandonedMessage, completedAt := some w.store.now } .failed
            hkeys ht rfl ?_ rfl
          simpa [Resolving, hresult, hmessage, hflight] using herr
        · rw [if_neg hflight]
          refine ⟨checked_ask ?_ (by simp [hresult]), fun _ hmem _ => hmem⟩
          simp [Resolving, hresult, hterminal, hflight]
      · rw [if_neg hmessage]
        refine ⟨checked_ask ?_ (by simp [hresult]), fun _ hmem _ => hmem⟩
        simp [Resolving, hresult, hterminal, hmessage]

theorem checked_findBlockingTask (engine : Task → Option ProgressAnswer) (databaseType : String)
    (tasks : List (Task × String)) (w : ConflictSite) (hkeys : Table.KeysUnique (·.id) w.store.tasks)
    (hstored : ∀ p ∈ tasks, p.1 ∈ w.store.tasks) (hids : (tasks.map (·.1.id)).Nodup) :
    Checked w (Method.call (findBlockingTask engine databaseType tasks) w).1
      (Method.call (findBlockingTask engine databaseType tasks) w).2 := by
  induction tasks generalizing w with
  | nil => exact .refl nofun
  | cons p rest ih =>
    obtain ⟨t, type⟩ := p
    have hrest : ∀ p ∈ rest, p.1 ∈ w.store.tasks := fun p hp => hstored p (.tail _ hp)
    obtain ⟨hnew, hids⟩ := List.nodup_cons.1 hids
    unfold findBlockingTask
    by_cases hskip : type ≠ databaseType ∨ t.state.isTerminal = true
    · rw [if_pos hskip]
      exact ih w hkeys hrest hids
    rw [if_neg hskip]
    obtain ⟨hchecked, hother⟩ := checked_tryResolveStaleTask (engine t) hkeys (hstored _ (.head _))
    refine .bind hchecked fun w' resolved hcall => ?_
    rw [hcall] at hchecked hother
    cases resolved with
    | false => exact .refl nofun
    | true =>
      refine ih w' (hchecked.keys hkeys) ?_ hids
      intro p hp
      refine hother p.1 (hrest p hp) fun heq => hnew ?_
      exact List.mem_map.2 ⟨p, hp, heq⟩

theorem Store.getByDatabase_stored (s : Store) (database : String) (hkeys : Table.KeysUnique (·.id) s.tasks) :
    (∀ p ∈ s.getByDatabase database, p.1 ∈ s.tasks) ∧ ((s.getByDatabase database).map (·.1.id)).Nodup := by
  constructor
  · intro p hp
    obtain ⟨t, ht, hp⟩ := List.mem_filterMap.1 hp
    obtain ⟨a, -, rfl⟩ := Option.map_eq_some_iff.1 hp
    exact List.mem_reverse.1 ht
  · have hkeys' : (s.tasks.reverse.map (·.id)).Nodup := by
      rw [List.map_reverse]
      exact List.nodup_reverse.2 hkeys
    unfold Store.getByDatabase
    generalize s.tasks.reverse = tasks at hkeys'
    induction tasks with
    | nil => exact List.nodup_nil
    | cons t rest ih =>
      obtain ⟨hnew, hrest⟩ := List.nodup_cons.1 hkeys'
      rw [List.filterMap_cons]
      split
      · exact ih hrest
      · next p hp =>
        obtain ⟨a, -, rfl⟩ := Option.map_eq_some_iff.1 hp
        refine List.nodup_cons.2 ⟨fun hmem => hnew ?_, ih hrest⟩
        obtain ⟨q, hq, hid⟩ := List.mem_map.1 hmem
        obtain ⟨t', ht', hq⟩ := List.mem_filterMap.1 hq
        obtain ⟨b, -, rfl⟩ := Option.map_eq_some_iff.1 hq
        exact List.mem_map.2 ⟨t', ht', hid⟩

theorem checked_conflictAttempts (engine : Nat → Task → Option ProgressAnswer) (database databaseType : String)
    (left attempt : Nat) (w : ConflictSite) (hkeys : Table.KeysUnique (·.id) w.store.tasks) :
    Checked w (Method.call (conflictAttempts engine database databaseType left attempt) w).1
      (Method.call (conflictAttempts engine database databaseType left attempt) w).2 := by
  have hattempt : ∀ (attempt : Nat) (w : ConflictSite), Table.KeysUnique (·.id) w.store.tasks →
      Checked w
        (Method.call (findBlockingTask (engine attempt) databaseType (w.store.getByDatabase database)) w).1
        (Method.call (findBlockingTask (engine attempt) databaseType (w.store.getByDatabase database)) w).2 := by
    intro attempt w hkeys
    obtain ⟨hstored, hids⟩ := w.store.getByDatabase_stored database hkeys
    exact checked_findBlockingTask (engine attempt) databaseType _ w hkeys hstored hids
  induction left generalizing attempt w with
  | zero =>
    unfold conflictAttempts
    rw [Method.call_bind_ok (Method.call_read _ w)]
    refine .bind (hattempt attempt w hkeys) fun w' blocking _ => ?_
    split <;> exact .refl nofun
  | succ left ih =>
    unfold conflictAttempts
    rw [Method.call_bind_ok (Method.call_read _ w)]
    refine .bind (hattempt attempt w hkeys) fun w' blocking hcall => ?_
    split
    · exact .refl nofun
    · have hchecked := hattempt attempt w hkeys
      rw [hcall] at hchecked
      exact ih (attempt + 1) w' (hchecked.keys hkeys)

end

/-! ## The frame of the check -/

/-- The check leaves alone what it does not know about: it does not panic, it writes a task only in flight and on an
answer about the task's own work, and all other rows are as they were, those that rest or wait among them. -/
structure SparesOthers (s : Store) (w : ConflictSite) (r : Except ConflictError Unit) : Prop where
  noPanic : r ≠ .error .panicked
  writes : ∀ p ∈ w.writes, p.1.state.isInFlight = true ∧ p.2.work = some p.1.id
  others : ∀ task ∈ s.tasks, task ∈ w.store.tasks ∨ ∃ answer, (task, answer) ∈ w.writes
  resting : ∀ task ∈ s.tasks, task.state = .stopped ∨ task.state = .failedRetryable ∨ task.state = .pending →
    task ∈ w.store.tasks

def ProgressAnswer.Suits (answer : ProgressAnswer) (task : Task) : Prop :=
  answer.result ≠ none ∧
    (Resolving (task, answer) = true → task.state.isInFlight = true ∧ answer.work = some task.id)

/-- The check spares what it should exactly if every answer that it gets suits the task it has asked for. -/
theorem conflict_check_spares_iff (engine : Nat → Task → Option ProgressAnswer) (database databaseType : String)
    (s : Store) (hkeys : Table.KeysUnique (·.id) s.tasks) :
    SparesOthers s (Method.call (checkActiveTaskConflict engine database databaseType) { store := s }).1
        (Method.call (checkActiveTaskConflict engine database databaseType) { store := s }).2 ↔
      ∀ p ∈ (Method.call (checkActiveTaskConflict engine database databaseType) { store := s }).1.asked,
        p.2.Suits p.1 := by
  have hchecked := checked_conflictAttempts engine database databaseType 9 0 { store := s } hkeys
  change Checked _ (Method.call (checkActiveTaskConflict engine database databaseType) { store := s }).1
    (Method.call (checkActiveTaskConflict engine database databaseType) { store := s }).2 at hchecked
  generalize Method.call (checkActiveTaskConflict engine database databaseType) { store := s } = run at hchecked
  obtain ⟨w, r⟩ := run
  obtain ⟨new, hasked, hwrites, hpanic⟩ := hchecked.asked
  subst hasked
  constructor
  · intro hspares p hp
    refine ⟨fun hnone => hspares.noPanic (hpanic.2 ⟨p, hp, hnone⟩), fun hresolving => ?_⟩
    refine hspares.writes p ?_
    rw [hwrites]
    exact List.mem_filter.2 ⟨hp, hresolving⟩
  · intro hsuits
    have hflight : ∀ p ∈ w.writes, p.1.state.isInFlight = true ∧ p.2.work = some p.1.id := by
      intro p hp
      rw [hwrites] at hp
      obtain ⟨hp, hresolving⟩ := List.mem_filter.1 hp
      exact (hsuits p hp).2 hresolving
    refine ⟨?_, hflight, hchecked.kept, ?_⟩
    · intro hr
      obtain ⟨p, hp, hnone⟩ := hpanic.1 hr
      exact (hsuits p hp).1 hnone
    · intro task htask hrest
      rcases hchecked.kept task htask with hmem | ⟨answer, hwritten⟩
      · exact hmem
      · have hin := (hflight _ hwritten).1
        rcases hrest with hst | hst | hst <;> rw [hst] at hin <;> cases hin

namespace Sample

def earlierTask (st : TaskState) : Task :=
  { id := 1, taskIdentifier := "task-1", applyId := 1, tableName := "users", state := st }

def earlierStore (st : TaskState) : Store where
  applies := [{ id := 1, applyIdentifier := "apply-1", database := "app", databaseType := databaseTypeMySQL }]
  tasks := [earlierTask st]

def conflictRun (answer : ProgressAnswer) (st : TaskState) : ConflictSite × Except ConflictError Unit :=
  Method.call (checkActiveTaskConflict (fun _ _ => some answer) "app" databaseTypeMySQL) { store := earlierStore st }

def completedWork (id : Nat) : ProgressAnswer := { result := some { state := .completed }, work := some id }

end Sample

open Sample in
/-- An engine that has completed some other task makes the check complete a task that waits to be retried, and one that
is stopped; an engine that fails without a result makes it panic. -/
theorem conflict_check_completes_resting :
    (conflictRun (completedWork 7) .failedRetryable).1.store.tasks.map (·.state) = [.completed] ∧
    (conflictRun (completedWork 7) .stopped).1.store.tasks.map (·.state) = [.completed] ∧
    (conflictRun { result := none, err := some "connection refused" } .running).2 = .error .panicked := by
  decide +kernel

open Sample in
/-- The answers about a task in flight are used for that task. -/
theorem conflict_check_spares_running :
    SparesOthers (earlierStore .running) (conflictRun (completedWork 1) .running).1
      (conflictRun (completedWork 1) .running).2 := by
  have hkeys : Table.KeysUnique (·.id) (earlierStore .running).tasks := List.nodup_singleton 1
  refine (conflict_check_spares_iff (fun _ _ => some (completedWork 1)) "app" databaseTypeMySQL
    (earlierStore .running) hkeys).2 ?_
  have hasked : (conflictRun (completedWork 1) .running).1.asked = [(earlierTask .running, completedWork 1)] := rfl
  intro p hp
  change p ∈ (conflictRun (completedWork 1) .running).1.asked at hp
  rw [hasked] at hp
  cases List.mem_singleton.1 hp
  exact ⟨nofun, fun _ => ⟨rfl, rfl⟩⟩

end SchemaBot
