import SchemaBot.Storage.Evolution

/-!
# What a creating transaction writes

The insertion loops of `createWithRows`, read back.
-/

namespace SchemaBot

open Concurrent

/-! ## The inserted rows -/

/-- The row that `insertApply` adds to `s`. -/
def Store.applyRow (s : Store) (a : Apply) : Apply :=
  { a with
    id := s.nextApply
    options := some (a.options.getD {})
    leaseOwner := "", leaseToken := 0, leaseAcquiredAt := none
    createdAt := s.now, updatedAt := s.now
    startedAt := none, completedAt := none, revertSkippedAt := none }

/-- The row that `insertApplyOperation` adds under `id`. -/
def operationRow (applyId now id : Nat) (op : ApplyOperation) : ApplyOperation :=
  { op with
    id, applyId
    attempt := 0
    leaseOwner := "", leaseToken := 0, leaseAcquiredAt := none
    createdAt := now, updatedAt := now }

/-- The rows of several operations, under the identifiers from `id` on. -/
def operationRows (applyId now : Nat) : Nat → List ApplyOperation → List ApplyOperation
  | _, [] => []
  | id, op :: ops => operationRow applyId now id op :: operationRows applyId now (id + 1) ops

section
variable {applyId now id : Nat} {ops : List ApplyOperation} {o : ApplyOperation}

theorem mem_operationRows (h : o ∈ operationRows applyId now id ops) :
    ∃ op ∈ ops, ∃ k, (id ≤ k ∧ k < id + ops.length) ∧ o = operationRow applyId now k op := by
  induction ops generalizing id with
  | nil => cases h
  | cons op ops ih =>
    rcases List.mem_cons.1 h with rfl | h
    · exact ⟨op, .head _, id, ⟨Nat.le_refl _, by simp⟩, rfl⟩
    · obtain ⟨op', hop, k, hk, he⟩ := ih h
      exact ⟨op', .tail _ hop, k, ⟨by omega, by rw [List.length_cons]; omega⟩, he⟩

theorem operationRow_mem (applyId now id : Nat) {op : ApplyOperation} (h : op ∈ ops) :
    ∃ k, operationRow applyId now k op ∈ operationRows applyId now id ops := by
  induction ops generalizing id with
  | nil => cases h
  | cons op' ops ih =>
    rcases List.mem_cons.1 h with rfl | h
    · exact ⟨id, .head _⟩
    · obtain ⟨k, hk⟩ := ih (id + 1) h
      exact ⟨k, .tail _ hk⟩

theorem operationRows_append (xs ys : List ApplyOperation) : operationRows applyId now id (xs ++ ys) =
      operationRows applyId now id xs ++ operationRows applyId now (id + xs.length) ys := by
  induction xs generalizing id with
  | nil => rfl
  | cons x xs ih =>
    rw [List.cons_append, operationRows, operationRows, ih, List.length_cons,
      show id + 1 + xs.length = id + (xs.length + 1) by omega, List.cons_append]

end

/-! ## The transaction, statement by statement -/

structure Store.SameButChildren (s t : Store) : Prop where
  now : t.now = s.now
  applies : t.applies = s.applies
  controlRequests : t.controlRequests = s.controlRequests
  nextApply : t.nextApply = s.nextApply
  nextControl : t.nextControl = s.nextControl
  nextToken : t.nextToken = s.nextToken

theorem Store.SameButChildren.refl (s : Store) : s.SameButChildren s := ⟨rfl, rfl, rfl, rfl, rfl, rfl⟩

theorem Store.SameButChildren.trans {s t u : Store} (h : s.SameButChildren t)
    (h' : t.SameButChildren u) : s.SameButChildren u :=
  ⟨h'.now.trans h.now, h'.applies.trans h.applies, h'.controlRequests.trans h.controlRequests,
    h'.nextApply.trans h.nextApply, h'.nextControl.trans h.nextControl,
    h'.nextToken.trans h.nextToken⟩

section
variable {s t : Store} {applyId : Nat} {id : Nat} {ts : List Task}

theorem Store.insertApply_ok {a : Apply} (h : s.insertApply a = .ok (t, id)) : id = s.nextApply ∧
      t = { s with applies := s.applies ++ [s.applyRow a], nextApply := s.nextApply + 1 } := by
  unfold insertApply at h
  split at h
  · cases h
  · cases h; exact ⟨rfl, rfl⟩

theorem Store.insertApplyOperation_ok {op : ApplyOperation} (h : s.insertApplyOperation op = .ok (t, id)) :
    s.SameButChildren t ∧ t.nextOperation = s.nextOperation + 1 ∧
      t.operations = s.operations ++ [operationRow op.applyId s.now s.nextOperation op] := by
  unfold insertApplyOperation at h
  split at h
  · cases h
  · cases h; exact ⟨⟨rfl, rfl, rfl, rfl, rfl, rfl⟩, rfl, rfl⟩

theorem Store.insertTask_ok {k : Task} (h : s.insertTask k = .ok (t, id)) :
    s.SameButChildren t ∧ t.operations = s.operations ∧ t.nextOperation = s.nextOperation ∧
      t.tasks = s.tasks ++ [{ k with id := s.nextTask }] := by
  unfold insertTask at h
  split at h
  · cases h
  · cases h; exact ⟨⟨rfl, rfl, rfl, rfl, rfl, rfl⟩, rfl, rfl, rfl⟩

theorem Store.insertTasks_ok (h : Store.insertTasks applyId ts s = .ok t) :
    s.SameButChildren t ∧ t.operations = s.operations ∧ t.nextOperation = s.nextOperation := by
  induction ts generalizing s with
  | nil => cases h; exact ⟨.refl _, rfl, rfl⟩
  | cons k ts ih =>
    obtain ⟨⟨s', _⟩, hi, h⟩ := bind_eq_ok h
    obtain ⟨hs, ho, hn, -⟩ := insertTask_ok hi
    obtain ⟨hs', ho', hn'⟩ := ih h
    exact ⟨hs.trans hs', ho'.trans ho, hn'.trans hn⟩

theorem Store.insertGroupTasks_ok {operationId : Nat}
    (h : Store.insertGroupTasks applyId operationId ts s = .ok t) :
    s.SameButChildren t ∧ t.operations = s.operations ∧ t.nextOperation = s.nextOperation :=
  insertTasks_ok (insertGroupTasks_eq operationId ts s ▸ h)

theorem Store.insertGroups_ok {gs : List ApplyOperationWithTasks}
    (h : Store.insertGroups applyId gs s = .ok t) : s.SameButChildren t ∧ t.operations =
      s.operations ++ operationRows applyId s.now s.nextOperation (gs.map (·.operation)) := by
  induction gs generalizing s with
  | nil => cases h; exact ⟨.refl _, by simp [operationRows]⟩
  | cons g gs ih =>
    unfold insertGroups at h
    split at h
    · cases h
    · obtain ⟨⟨s', id⟩, hi, h⟩ := bind_eq_ok h
      obtain ⟨s'', hi', hrest⟩ := bind_eq_ok h
      obtain ⟨hs, hn, ho⟩ := insertApplyOperation_ok hi
      obtain ⟨hs', ho', hn'⟩ := insertGroupTasks_ok hi'
      obtain ⟨hs'', ho''⟩ := ih hrest
      refine ⟨hs.trans (hs'.trans hs''), ?_⟩
      rw [ho'', ho', ho, hn', hn, hs'.now, hs.now, List.append_assoc]
      rfl

theorem Store.insertOperations_ok {ops : List ApplyOperation} {ids : List Nat}
    (h : Store.insertOperations applyId ops s = .ok (t, ids)) : s.SameButChildren t ∧
      t.operations = s.operations ++ operationRows applyId s.now s.nextOperation ops := by
  induction ops generalizing s ids with
  | nil => cases h; exact ⟨.refl _, by simp [operationRows]⟩
  | cons op ops ih =>
    obtain ⟨⟨s', id⟩, hi, h⟩ := bind_eq_ok h
    obtain ⟨⟨s'', ids'⟩, hi', h⟩ := bind_eq_ok h
    cases h
    obtain ⟨hs, hn, ho⟩ := insertApplyOperation_ok hi
    obtain ⟨hs', ho'⟩ := ih hi'
    refine ⟨hs.trans hs', ?_⟩
    rw [ho', ho, hn, hs.now, List.append_assoc]
    rfl

end

/-! ## The created apply -/

/-- `t` is `s` with a new apply and its operations, admitted by the overlap check. -/
structure Store.Created (s : Store) (a : Apply) (ops : List ApplyOperation) (t : Store) : Prop where
  check : s.checkCreate a (a.deployment :: ops.map (·.deployment)) = .ok ()
  now : t.now = s.now
  applies : t.applies = s.applies ++ [s.applyRow a]
  operations : t.operations = s.operations ++ operationRows s.nextApply s.now s.nextOperation ops
  controlRequests : t.controlRequests = s.controlRequests
  nextToken : t.nextToken = s.nextToken

section
variable (s : Store) (a : Apply)

theorem created_createWithRows (ops : List ApplyOperation) {writeRows : Store → Nat → Except StoreError Store}
    (hw : ∀ s' t, writeRows s' s.nextApply = .ok t → s'.SameButChildren t ∧
      t.operations = s'.operations ++ operationRows s.nextApply s'.now s'.nextOperation ops) :
    (∃ e, Method.call (createWithRows a (a.deployment :: ops.map (·.deployment)) writeRows) s =
      (s, .error e)) ∨
    ∃ t, Method.call (createWithRows a (a.deployment :: ops.map (·.deployment)) writeRows) s =
      (t, .ok s.nextApply) ∧ s.Created a ops t := by
  unfold createWithRows
  rw [Method.call_transaction]
  split
  · next t id hf =>
    obtain ⟨_, hcheck, hf⟩ := bind_eq_ok hf
    obtain ⟨⟨s', id'⟩, hi, hf⟩ := bind_eq_ok hf
    obtain ⟨t', hrows, hf⟩ := bind_eq_ok hf
    cases hf
    obtain ⟨rfl, rfl⟩ := Store.insertApply_ok hi
    obtain ⟨hs, ho⟩ := hw _ _ hrows
    exact .inr ⟨t, rfl, hcheck, hs.now, hs.applies, ho, hs.controlRequests, hs.nextToken⟩
  · next e _ => exact .inl ⟨e, rfl⟩

theorem created_create : (∃ e, Method.call (create a) s = (s, .error e)) ∨
      ∃ t, Method.call (create a) s = (t, .ok s.nextApply) ∧ s.Created a [] t := by
  refine created_createWithRows s a [] fun s' t h => ?_
  cases h
  exact ⟨.refl _, by simp [operationRows]⟩

theorem created_createWithTasksAndOperations (tasks : List Task) (ops : List ApplyOperation) :
    (∃ e, Method.call (createWithTasksAndOperations a tasks ops) s = (s, .error e)) ∨
      ∃ t, Method.call (createWithTasksAndOperations a tasks ops) s = (t, .ok s.nextApply) ∧
        s.Created a ops t := by
  refine created_createWithRows s a _ fun s' t h => ?_
  obtain ⟨⟨u, ids⟩, hi, h⟩ := bind_eq_ok h
  obtain ⟨tasks', -, hrest⟩ := bind_eq_ok h
  obtain ⟨hs, ho⟩ := Store.insertOperations_ok hi
  obtain ⟨hs', ho', -⟩ := Store.insertTasks_ok hrest
  exact ⟨hs.trans hs', ho'.trans ho⟩

theorem created_createWithGroupedOperations (groups : List ApplyOperationWithTasks) :
    (∃ e, Method.call (createWithGroupedOperations a groups) s = (s, .error e)) ∨
      ∃ t, Method.call (createWithGroupedOperations a groups) s = (t, .ok s.nextApply) ∧
        s.Created a (groups.map (·.operation)) t := by
  have hds : groups.map (·.operation.deployment) =
      (groups.map (·.operation)).map (·.deployment) := by rw [List.map_map]; rfl
  unfold createWithGroupedOperations
  rw [hds]
  refine created_createWithRows s a _ fun s' t h => ?_
  unfold Store.insertApplyGroupedOperations at h
  split at h
  · cases h
  · exact Store.insertGroups_ok h

end

end SchemaBot
