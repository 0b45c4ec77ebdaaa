import SchemaBot.Storage.Statements

/-!
# What a successful update has written

The `Update`s of tasks, operations and applies. A write that changed no row succeeds after another look at the
lease, not at the row.
-/

namespace SchemaBot

open Concurrent

/-- The row `k` is stored, with the values that `f` assigns. -/
def Holds {α : Type} (key : α → Nat) (k : Nat) (f : α → α) (rows : List α) : Prop :=
  ∃ r ∈ rows, key r = k ∧ f r = r

section
variable {α : Type} {key : α → Nat} {k : Nat} {p : α → Bool} {f : α → α} {t : List α}

theorem holds_update (hkey : ∀ r, key (f r) = key r) (hf : ∀ r, f (f r) = f r) :
    Holds key k f (Table.update (fun r => key r = k && p r) f t) ↔
      ∃ r ∈ t, key r = k ∧ (p r = true ∨ f r = r) := by
  constructor
  · rintro ⟨r, hr, hk, hsame⟩
    obtain ⟨o, ho, rfl⟩ := Table.mem_update.1 hr
    by_cases hp : (decide (key o = k) && p o) = true
    · rw [Bool.and_eq_true, decide_eq_true_eq] at hp
      exact ⟨o, ho, hp.1, .inl hp.2⟩
    · rw [if_neg hp] at hk hsame
      exact ⟨o, ho, hk, .inr hsame⟩
  · rintro ⟨r, hr, hk, hsame⟩
    by_cases hp : p r = true
    · exact ⟨f r, Table.mem_update_of_pos hr (by simp [hk, hp]), (hkey r).trans hk, hf r⟩
    · exact ⟨r, Table.mem_update_of_neg hr (by simp [hp]), hk, hsame.resolve_left hp⟩

end

section
variable {ctx : Ctx} {s : Store}

/-- The lease predicate of the statement of `taskStore.Update`. -/
def Ctx.admitsTask (ctx : Ctx) (s : Store) (task t : Task) : Bool :=
  match taskWriteGuardFromContext ctx task with
  | .error _ => false
  | .ok guard => guard.taskPredicate s t

theorem call_verifyStillOwned (guard : WriteGuard) (s : Store) : (Method.call guard.verifyStillOwned s).1 = s := by
  refine call_readOnly ?_ s
  cases guard with
  | unguarded => exact .pure _
  | apply lease => exact always_ensureApplyLeaseStillOwned (fun _ => rfl) lease
  | operation lease => exact always_ensureOperationLeaseStillOwned (fun _ => rfl) lease

theorem holds_updateTask {task : Task} (h : (Method.call (updateTask ctx task) s).2 = .ok ()) :
    Holds Task.id task.id (assignTask task s) (Method.call (updateTask ctx task) s).1.tasks ↔
      ∃ t ∈ s.tasks, t.id = task.id ∧ (ctx.admitsTask s task t = true ∨ assignTask task s t = t) := by
  unfold updateTask at h ⊢
  unfold Ctx.admitsTask
  cases hguard : taskWriteGuardFromContext ctx task with
  | error e =>
    rw [hguard] at h
    cases h
  | ok guard =>
    rw [Method.call_bind_ok (Method.call_lift _ s), execTasks, Method.call_bind_ok (Method.call_write _ s)]
    split
    · rw [call_verifyStillOwned]
      exact holds_update (fun _ => rfl) fun _ => rfl
    · exact holds_update (fun _ => rfl) fun _ => rfl

theorem owned_of_checkUpdatedOrExists {id : Nat} {guard : WriteGuard}
    (h : (Method.call (checkUpdatedOrExists 0 id guard false) s).2 = .ok ()) :
    ∃ op ∈ s.operations, op.id = id ∧ guard.operationPredicate s op = true := by
  have hrow : ∀ {op}, s.getOperation id = some op → op ∈ s.operations ∧ op.id = id := fun hget =>
    ⟨List.mem_of_find?_eq_some hget, by simpa using List.find?_some hget⟩
  cases guard with
  | unguarded =>
    cases hget : s.getOperation id with
    | none => simp [checkUpdatedOrExists, Method.call_bind, hget, applyOperationMissingResult] at h
    | some op => exact ⟨op, (hrow hget).1, (hrow hget).2, rfl⟩
  | apply lease =>
    cases howned : s.applyLeaseMatches lease with
    | false => simp [checkUpdatedOrExists, ensureApplyLeaseStillOwned, Method.call_bind, howned] at h
    | true =>
      cases hget : s.getOperation id with
      | none =>
        simp [checkUpdatedOrExists, ensureApplyLeaseStillOwned, Method.call_bind, howned, hget,
          applyOperationMissingResult] at h
      | some op =>
        refine ⟨op, (hrow hget).1, (hrow hget).2, ?_⟩
        have hmine : op.applyId = lease.applyId := by
          by_contra hne
          simp [checkUpdatedOrExists, ensureApplyLeaseStillOwned, Method.call_bind, howned, hget, hne] at h
        simpa [WriteGuard.operationPredicate, hmine, Store.applyLeaseMatches] using howned
  | operation lease =>
    cases howned : s.operationLeaseOwnsRow id lease.token with
    | false =>
      cases hget : s.getOperation id <;>
        simp [checkUpdatedOrExists, Method.call_bind, howned, hget, applyOperationMissingResult] at h
    | true =>
      obtain ⟨op, hop, hid⟩ := List.any_eq_true.1 howned
      rw [Bool.and_eq_true, decide_eq_true_eq] at hid
      exact ⟨op, hop, hid.1, hid.2⟩

theorem holds_updateState {id : Nat} {newState : ApplyState}
    (h : (Method.call (updateState ctx id newState) s).2 = .ok ()) :
    ∃ op ∈ (Method.call (updateState ctx id newState) s).1.operations, op.id = id ∧ op.state = newState := by
  unfold updateState execStateUpdate writeOperation at h ⊢
  cases hguard : operationWriteGuardFromContext ctx with
  | error e =>
    rw [hguard] at h
    cases h
  | ok guard =>
    rw [hguard, Method.call_bind_ok (Method.call_lift _ s), execOperations,
      Method.call_bind_ok (Method.call_write _ s)] at h
    rw [Method.call_bind_ok (Method.call_lift _ s), execOperations, Method.call_bind_ok (Method.call_write _ s),
      call_readOnly (always_checkUpdatedOrExists (fun _ => rfl) _ _ _ _)]
    -- a row that the statement meets
    obtain ⟨op, hop, hp⟩ : ∃ op ∈ s.operations, (op.id = id && guard.operationPredicate s op) = true := by
      by_cases hzero : Table.affected (fun op => op.id = id && guard.operationPredicate s op)
          (touch s.now fun op => { op with state := newState }) s.operations = 0
      · have hs : s.updateOperations (fun s op => op.id = id && guard.operationPredicate s op)
            (fun s => touch s.now fun op => { op with state := newState }) = s :=
          congrArg (fun ops => { s with operations := ops }) (Table.update_eq_self_of_affected hzero)
        rw [hzero, hs] at h
        obtain ⟨op, hop, hid, hp⟩ := owned_of_checkUpdatedOrExists h
        exact ⟨op, hop, by simp [hid, hp]⟩
      · exact Table.exists_of_affected_ne_zero hzero
    refine ⟨_, Table.mem_update_of_pos hop hp, ?_⟩
    grind [touch]

theorem holds_applyUpdate {apply : Apply} (h : (Method.call (update ctx apply) s).2 = .ok ()) :
    Holds Apply.id apply.id (assignUpdate apply s) (Method.call (update ctx apply) s).1.applies ↔
      ∃ a ∈ s.applies, a.id = apply.id := by
  rcases call_update ctx apply s with ⟨e, he⟩ | ⟨lease, hlease, -, hconfirm, he⟩
  · rw [he] at h
    cases h
  · rw [he]
    have hagain : ∀ a, assignUpdate apply s (assignUpdate apply s a) = assignUpdate apply s a := by
      intro a
      simp only [assignUpdate]
      split <;> rfl
    refine Iff.trans (holds_update (fun _ => rfl) hagain) ⟨?_, ?_⟩
    · rintro ⟨a, ha, hid, -⟩
      exact ⟨a, ha, hid⟩
    · rintro ⟨a, ha, hid⟩
      rcases Store.confirmUpdate_ok hlease hconfirm with rfl | ⟨r, hr, hwritten⟩
      · exact ⟨a, ha, hid, .inl rfl⟩
      · rw [updateRow, Bool.and_eq_true, decide_eq_true_eq] at hwritten
        exact ⟨r, hr, hwritten.1, .inl hwritten.2⟩

end

/-- An update that succeeds has left its values in the row, where there is one: the row of an operation always,
that of an apply if it is stored, and that of a task if it is stored and passes the lease predicate or had the values
before. -/
theorem updates_held_iff (ctx : Ctx) (s : Store) : (∀ task, (Method.call (updateTask ctx task) s).2 = .ok () →
      (Holds Task.id task.id (assignTask task s) (Method.call (updateTask ctx task) s).1.tasks ↔
        ∃ t ∈ s.tasks, t.id = task.id ∧ (ctx.admitsTask s task t = true ∨ assignTask task s t = t))) ∧
    (∀ id newState, (Method.call (updateState ctx id newState) s).2 = .ok () →
      ∃ op ∈ (Method.call (updateState ctx id newState) s).1.operations, op.id = id ∧ op.state = newState) ∧
    ∀ apply, (Method.call (update ctx apply) s).2 = .ok () →
      (Holds Apply.id apply.id (assignUpdate apply s) (Method.call (update ctx apply) s).1.applies ↔
        ∃ a ∈ s.applies, a.id = apply.id) :=
  ⟨fun _ => holds_updateTask, fun _ _ => holds_updateState, fun _ => holds_applyUpdate⟩

/-- Under the lease of the first operation, a task of the second is completed: the write succeeds and changes
nothing. -/
theorem update_of_other_operation :
    let task : Task := { id := 1, applyOperationId := some 2 }
    let s : Store := { operations := [{ id := 1, leaseToken := 7 }, { id := 2 }], tasks := [task] }
    let update := updateTask { operationLease := some ⟨1, 1, 7⟩ } { task with state := .completed }
    (Method.call update s).2 = .ok () ∧ (Method.call update s).1.tasks = s.tasks := by
  decide

end SchemaBot
