import SchemaBot.Lib.Transaction
import SchemaBot.Storage.Creation
import SchemaBot.Storage.Safety

/-!
# The creation of an apply is all or nothing

The creating transactions of `Storage/Applies`, statement by statement and with statements that may fail.
-/

namespace SchemaBot

open Concurrent

/-! ## The transactions -/

section
variable (fault : FaultPlan StoreError) (applyId : Nat)

abbrev StoreTx := Tx Store StoreError

/-- The task loop of `insertApplyGroupedOperations`. -/
def insertGroupTasksTx (operationId : Nat) : List Task → StoreTx Unit
  | [] => pure ()
  | t :: ts => do
    let _ ← Tx.stmt fault (·.insertTask { t with applyId, applyOperationId := some operationId })
    insertGroupTasksTx operationId ts

/-- The group loop of `insertApplyGroupedOperations`. -/
def insertGroupsTx : List ApplyOperationWithTasks → StoreTx Unit
  | [] => pure ()
  | g :: gs =>
    if g.tasks = [] ∧ g.operation.operationKind ≠ .groupFinalizer ∧ g.allowTaskless = false then
      throw ⟨"create apply deployment " ++ g.operation.deployment ++
        ": grouped work operation has no tasks", .unnamed⟩
    else do
      let operationId ← Tx.stmt fault (·.insertApplyOperation { g.operation with applyId })
      insertGroupTasksTx fault applyId operationId g.tasks
      insertGroupsTx gs

/-- The operation loop of `insertApplyTasksAndOperations`. -/
def insertOperationsTx : List ApplyOperation → StoreTx (List Nat)
  | [] => pure []
  | op :: ops => do
    let id ← Tx.stmt fault (·.insertApplyOperation { op with applyId })
    let ids ← insertOperationsTx ops
    pure (id :: ids)

/-- The task loop of `insertApplyTasksAndOperations`. -/
def insertTasksTx : List Task → StoreTx Unit
  | [] => pure ()
  | t :: ts => do
    let _ ← Tx.stmt fault (·.insertTask { t with applyId })
    insertTasksTx ts

/-- `createWithRows`: the overlap check, the insert of the apply, and the rows that follow. -/
def createWithRowsTx (a : Apply) (newDeployments : List String) (writeRows : Nat → StoreTx Unit) :
    StoreMethod Nat :=
  Tx.commit fault do
    let _ ← Tx.stmt fault fun s => do
      s.checkCreate a newDeployments
      .ok (s, ())
    let id ← Tx.stmt fault (·.insertApply a)
    writeRows id
    pure id

/-- `CreateWithGroupedOperations`. -/
def createWithGroupedOperationsTx (a : Apply) (groups : List ApplyOperationWithTasks) : StoreMethod Nat :=
  createWithRowsTx fault a (a.deployment :: groups.map (·.operation.deployment)) fun id =>
    if groups = [] then throw ⟨"create apply: grouped operations are empty", .unnamed⟩
    else insertGroupsTx fault id groups

/-- `CreateWithTasksAndOperations`. -/
def createWithTasksAndOperationsTx (a : Apply) (tasks : List Task) (operations : List ApplyOperation) :
    StoreMethod Nat :=
  createWithRowsTx fault a (a.deployment :: operations.map (·.deployment)) fun id => do
    let ids ← insertOperationsTx fault id operations
    let tasks ← Tx.check (tasks.mapM (linkTask ids))
    insertTasksTx fault id tasks

/-! ## They do what the fault-free ones do -/

def dropResult (f : Store → Except StoreError Store) (s : Store) : Except StoreError (Store × Unit) := do
  let t ← f s
  .ok (t, ())

variable {fault applyId}

theorem refines_insertGroupTasks (operationId : Nat) (ts : List Task) :
    (insertGroupTasksTx fault applyId operationId ts).Refines
      (dropResult (Store.insertGroupTasks applyId operationId ts)) := by
  induction ts with
  | nil => exact .pure ()
  | cons t ts ih =>
    refine (Tx.Refines.bind (.stmt fault _) (k := fun r => dropResult (Store.insertGroupTasks applyId
      operationId ts) r.1) fun _ => ih).congr fun s => ?_
    unfold dropResult
    rw [Store.insertGroupTasks]
    cases s.insertTask { t with applyId, applyOperationId := some operationId } <;> rfl

theorem refines_insertGroups (gs : List ApplyOperationWithTasks) :
    (insertGroupsTx fault applyId gs).Refines (dropResult (Store.insertGroups applyId gs)) := by
  induction gs with
  | nil => exact .pure ()
  | cons g gs ih =>
    unfold insertGroupsTx
    split
    · intro s n a t n' h
      cases h
    · next hg =>
      refine (Tx.Refines.bind (.stmt fault _) (k := fun r => dropResult (Store.insertGroupTasks applyId
        r.2 g.tasks) r.1 >>= fun r' => dropResult (Store.insertGroups applyId gs) r'.1) fun id =>
          (refines_insertGroupTasks id g.tasks).bind fun _ => ih).congr fun s => ?_
      unfold dropResult
      rw [Store.insertGroups, if_neg hg]
      cases s.insertApplyOperation { g.operation with applyId } with
      | error e => rfl
      | ok r =>
        obtain ⟨s', id⟩ := r
        show (Store.insertGroupTasks applyId id g.tasks s' >>= _) >>= _ =
          (Store.insertGroupTasks applyId id g.tasks s' >>= _) >>= _
        cases Store.insertGroupTasks applyId id g.tasks s' <;> rfl

theorem refines_insertOperations (ops : List ApplyOperation) :
    (insertOperationsTx fault applyId ops).Refines (Store.insertOperations applyId ops) := by
  induction ops with
  | nil => exact .pure []
  | cons op ops ih =>
    refine (Tx.Refines.bind (.stmt fault _) (k := fun r => Store.insertOperations applyId ops r.1 >>=
      fun r' => .ok (r'.1, r.2 :: r'.2)) fun id => ih.bind (k := fun r' => .ok (r'.1, id :: r'.2))
        fun ids => .pure (id :: ids)).congr fun s => ?_
    rw [Store.insertOperations]

theorem refines_insertTasks (ts : List Task) :
    (insertTasksTx fault applyId ts).Refines (dropResult (Store.insertTasks applyId ts)) := by
  induction ts with
  | nil => exact .pure ()
  | cons t ts ih =>
    refine (Tx.Refines.bind (.stmt fault _) (k := fun r => dropResult (Store.insertTasks applyId ts) r.1)
      fun _ => ih).congr fun s => ?_
    unfold dropResult
    rw [Store.insertTasks]
    cases s.insertTask { t with applyId } <;> rfl

theorem call_createWithRowsTx {a : Apply} {newDeployments : List String} {writeRowsTx : Nat → StoreTx Unit}
    {writeRows : Store → Nat → Except StoreError Store}
    (h : ∀ id, (writeRowsTx id).Refines (dropResult fun s => writeRows s id)) (s : Store) :
    (∃ e, Method.call (createWithRowsTx fault a newDeployments writeRowsTx) s = (s, .error e)) ∨
      ∃ t id, Method.call (createWithRowsTx fault a newDeployments writeRowsTx) s = (t, .ok id) ∧
        Method.call (createWithRows a newDeployments writeRows) s = (t, .ok id) := by
  have hrows : ∀ id, Tx.Refines (writeRowsTx id >>= fun _ => pure id)
      (fun s => writeRows s id >>= fun t => .ok (t, id)) := by
    intro id
    refine ((h id).bind (k := fun r => .ok (r.1, id)) fun _ => .pure id).congr fun s => ?_
    unfold dropResult
    dsimp only
    cases writeRows s id <;> rfl
  have hinsert := Tx.Refines.bind (k := fun r => writeRows r.1 r.2 >>= fun t => .ok (t, r.2))
    (.stmt fault fun s : Store => s.insertApply a) hrows
  have hbody := Tx.Refines.bind (.stmt fault fun s : Store => do
      s.checkCreate a newDeployments
      .ok (s, ())) (k := fun r => r.1.insertApply a >>= fun r' => writeRows r'.1 r'.2 >>= fun t =>
        .ok (t, r'.2)) fun _ => hinsert
  rcases hbody.commit fault s with he | ⟨t, id, hcall, hf⟩
  · exact .inl he
  · refine .inr ⟨t, id, hcall, ?_⟩
    obtain ⟨⟨s', _⟩, hcheck, hf⟩ := bind_eq_ok hf
    obtain ⟨_, hok, hcheck⟩ := bind_eq_ok hcheck
    cases hcheck
    unfold createWithRows
    rw [Method.call_transaction]
    obtain ⟨⟨s', id'⟩, hi, hf⟩ := bind_eq_ok hf
    obtain ⟨t', hw, hf⟩ := bind_eq_ok hf
    cases hf
    simp only [hok, hi, hw, bind, Except.bind]

theorem call_createWithGroupedOperationsTx (a : Apply) (groups : List ApplyOperationWithTasks) (s : Store) :
    (∃ e, Method.call (createWithGroupedOperationsTx fault a groups) s = (s, .error e)) ∨
      ∃ t id, Method.call (createWithGroupedOperationsTx fault a groups) s = (t, .ok id) ∧
        Method.call (createWithGroupedOperations a groups) s = (t, .ok id) := by
  refine call_createWithRowsTx (fun id => ?_) s
  unfold Store.insertApplyGroupedOperations
  split
  · intro s n a t n' h
    cases h
  · exact refines_insertGroups groups

theorem call_createWithTasksAndOperationsTx (a : Apply) (tasks : List Task)
    (operations : List ApplyOperation) (s : Store) :
    (∃ e, Method.call (createWithTasksAndOperationsTx fault a tasks operations) s = (s, .error e)) ∨
      ∃ t id, Method.call (createWithTasksAndOperationsTx fault a tasks operations) s = (t, .ok id) ∧
        Method.call (createWithTasksAndOperations a tasks operations) s = (t, .ok id) := by
  refine call_createWithRowsTx (fun id => ?_) s
  refine ((refines_insertOperations operations).bind (k := fun r => tasks.mapM (linkTask r.2) >>=
    fun linked => dropResult (Store.insertTasks id linked) r.1) fun ids =>
      .check fun linked => refines_insertTasks linked).congr fun s => ?_
  unfold dropResult Store.insertApplyTasksAndOperations
  dsimp only
  cases Store.insertOperations id operations s with
  | error e => rfl
  | ok r =>
    show (tasks.mapM (linkTask r.2) >>= _) = (tasks.mapM (linkTask r.2) >>= _) >>= _
    cases tasks.mapM (linkTask r.2) <;> rfl

end

/-! ## The rows of a creation -/

/-- `row` is the task `t`, inserted for the apply and with the given link to an operation. -/
def TaskRow (applyId : Nat) (link : Option Nat) (t row : Task) : Prop :=
  row = { t with id := row.id, applyId, applyOperationId := link }

/-- The links of tasks inserted with the operations `ids`. -/
def Linked (ids : List Nat) : Option Nat → Prop
  | some id => id ∈ ids
  | none => ids = []

structure GroupRows (applyId : Nat) (g : ApplyOperationWithTasks) (rows : ApplyOperation × List Task) : Prop where
  operation : ∃ now id, rows.1 = operationRow applyId now id g.operation
  tasks : List.Forall₂ (TaskRow applyId (some rows.1.id)) g.tasks rows.2

/-- `t` is `s` with the apply `a` under `id` and the rows of its groups, in their order. -/
structure Store.CreatedGroups (s : Store) (a : Apply) (groups : List ApplyOperationWithTasks) (id : Nat)
    (t : Store) : Prop where
  id_eq : id = s.nextApply
  applies : t.applies = s.applies ++ [s.applyRow a]
  rows : ∃ rows : List (ApplyOperation × List Task), List.Forall₂ (GroupRows id) groups rows ∧
    t.operations = s.operations ++ rows.map (·.1) ∧ t.tasks = s.tasks ++ rows.flatMap (·.2) ∧
    (rows.map (·.1.id)).Pairwise (· < ·)

/-- `t` is `s` with the apply `a` under `id`, its operations in their order, and its tasks, each of an
inserted operation unless there is none. -/
structure Store.CreatedTasks (s : Store) (a : Apply) (tasks : List Task) (operations : List ApplyOperation)
    (id : Nat) (t : Store) : Prop where
  id_eq : id = s.nextApply
  applies : t.applies = s.applies ++ [s.applyRow a]
  rows : ∃ (ops : List ApplyOperation) (rows : List Task),
    List.Forall₂ (fun op row => ∃ now opId, row = operationRow id now opId op) operations ops ∧
    List.Forall₂ (fun k row => Linked (ops.map (·.id)) row.applyOperationId ∧
      TaskRow id row.applyOperationId k row) tasks rows ∧
    t.operations = s.operations ++ ops ∧ t.tasks = s.tasks ++ rows ∧
    (ops.map (·.id)).Pairwise (· < ·)

section
variable {s t : Store} {applyId : Nat} {id : Nat} {ids : List Nat} {ts : List Task}

theorem Store.insertApplyOperation_id {op : ApplyOperation}
    (h : s.insertApplyOperation op = .ok (t, id)) : id = s.nextOperation ∧ t.tasks = s.tasks := by
  unfold insertApplyOperation at h
  split at h
  · cases h
  · cases h; exact ⟨rfl, rfl⟩

theorem Store.insertTasks_rows (h : Store.insertTasks applyId ts s = .ok t) :
    ∃ rows, List.Forall₂ (fun k row => TaskRow applyId k.applyOperationId k row) ts rows ∧
      t.tasks = s.tasks ++ rows := by
  induction ts generalizing s with
  | nil => cases h; exact ⟨[], .nil, (List.append_nil _).symm⟩
  | cons k ts ih =>
    obtain ⟨⟨s', _⟩, hi, h⟩ := bind_eq_ok h
    obtain ⟨-, -, -, ht⟩ := insertTask_ok hi
    obtain ⟨rows, hrows, ht'⟩ := ih h
    refine ⟨{ k with applyId, id := s.nextTask } :: rows, .cons rfl hrows, ?_⟩
    rw [ht', ht, List.append_assoc]
    rfl

theorem Store.insertGroupTasks_rows {operationId : Nat}
    (h : Store.insertGroupTasks applyId operationId ts s = .ok t) :
    ∃ rows, List.Forall₂ (TaskRow applyId (some operationId)) ts rows ∧ t.tasks = s.tasks ++ rows := by
  rw [insertGroupTasks_eq] at h
  obtain ⟨rows, hrows, ht⟩ := insertTasks_rows h
  exact ⟨rows, (List.forall₂_map_left_iff.1 hrows).imp fun _ _ hrow => hrow, ht⟩

theorem Store.insertGroups_rows {gs : List ApplyOperationWithTasks} (h : Store.insertGroups applyId gs s = .ok t) :
    ∃ rows : List (ApplyOperation × List Task), List.Forall₂ (GroupRows applyId) gs rows ∧
      t.operations = s.operations ++ rows.map (·.1) ∧ t.tasks = s.tasks ++ rows.flatMap (·.2) ∧
      (rows.map (·.1.id)).Pairwise (· < ·) ∧ ∀ i ∈ rows.map (·.1.id), s.nextOperation ≤ i := by
  induction gs generalizing s with
  | nil =>
    cases h
    exact ⟨[], .nil, (List.append_nil _).symm, (List.append_nil _).symm, .nil, fun _ h => by cases h⟩
  | cons g gs ih =>
    unfold insertGroups at h
    split at h
    · cases h
    · obtain ⟨⟨s', id⟩, hi, h⟩ := bind_eq_ok h
      obtain ⟨s'', hi', hrest⟩ := bind_eq_ok h
      obtain ⟨hid, htasks⟩ := insertApplyOperation_id hi
      subst hid
      obtain ⟨-, hn, ho⟩ := insertApplyOperation_ok hi
      obtain ⟨-, ho', hn'⟩ := insertGroupTasks_ok hi'
      obtain ⟨taskRows, htaskRows, ht'⟩ := insertGroupTasks_rows hi'
      obtain ⟨rows, hrows, ho'', ht'', hlt, hge⟩ := ih hrest
      have hge' : ∀ i ∈ rows.map (·.1.id), s.nextOperation < i := fun i hmem => by
        have := hge i hmem
        omega
      refine ⟨(operationRow applyId s.now s.nextOperation g.operation, taskRows) :: rows,
        .cons ⟨⟨_, _, rfl⟩, htaskRows⟩ hrows, ?_, ?_, List.pairwise_cons.2 ⟨hge', hlt⟩, ?_⟩
      · rw [ho'', ho', ho, List.append_assoc]
        rfl
      · rw [ht'', ht', htasks, List.append_assoc]
        rfl
      · intro i hmem
        rcases List.mem_cons.1 hmem with rfl | hmem
        · exact Nat.le_refl _
        · exact Nat.le_of_lt (hge' i hmem)

theorem Store.insertOperations_rows {ops : List ApplyOperation}
    (h : Store.insertOperations applyId ops s = .ok (t, ids)) :
    ∃ rows, List.Forall₂ (fun op row => ∃ now id, row = operationRow applyId now id op) ops rows ∧
      t.operations = s.operations ++ rows ∧ t.tasks = s.tasks ∧ ids = rows.map (·.id) ∧
      ids.Pairwise (· < ·) ∧ ∀ i ∈ ids, s.nextOperation ≤ i := by
  induction ops generalizing s ids with
  | nil => cases h; exact ⟨[], .nil, (List.append_nil _).symm, rfl, rfl, .nil, fun _ h => by cases h⟩
  | cons op ops ih =>
    obtain ⟨⟨s', id⟩, hi, h⟩ := bind_eq_ok h
    obtain ⟨⟨s'', ids'⟩, hi', h⟩ := bind_eq_ok h
    cases h
    obtain ⟨hid, htasks⟩ := insertApplyOperation_id hi
    subst hid
    obtain ⟨-, hn, ho⟩ := insertApplyOperation_ok hi
    obtain ⟨rows, hrows, ho', ht', rfl, hlt, hge⟩ := ih hi'
    have hge' : ∀ i ∈ rows.map (·.id), s.nextOperation < i := fun i hmem => by
      have := hge i hmem
      omega
    refine ⟨operationRow applyId s.now s.nextOperation op :: rows, .cons ⟨_, _, rfl⟩ hrows, ?_,
      ht'.trans htasks, rfl, List.pairwise_cons.2 ⟨hge', hlt⟩, ?_⟩
    · rw [ho', ho, List.append_assoc]
      rfl
    · intro i hmem
      rcases List.mem_cons.1 hmem with rfl | hmem
      · exact Nat.le_refl _
      · exact Nat.le_of_lt (hge' i hmem)

theorem linkTask_ok {k k' : Task} (h : linkTask ids k = .ok k') :
    Linked ids k'.applyOperationId ∧ k' = { k with applyOperationId := k'.applyOperationId } := by
  unfold linkTask at h
  split at h
  · next hk => cases h; exact ⟨by rw [hk]; rfl, rfl⟩
  · cases h
  · cases h; exact ⟨List.mem_singleton_self _, rfl⟩
  · cases h
  · next hk =>
    split at h
    · next hmem => cases h; exact ⟨by rw [hk]; exact hmem, rfl⟩
    · cases h

theorem mapM_linkTask_ok {ts ts' : List Task} (h : ts.mapM (linkTask ids) = .ok ts') :
    List.Forall₂ (fun k k' => Linked ids k'.applyOperationId ∧
      k' = { k with applyOperationId := k'.applyOperationId }) ts ts' := by
  induction ts generalizing ts' with
  | nil => cases h; exact .nil
  | cons k ts ih =>
    rw [List.mapM_cons] at h
    obtain ⟨k', hk, h⟩ := bind_eq_ok h
    obtain ⟨ts'', hts, h⟩ := bind_eq_ok h
    cases h
    exact .cons (linkTask_ok hk) (ih hts)

theorem createWithRows_ok {a : Apply} {newDeployments : List String}
    {writeRows : Store → Nat → Except StoreError Store}
    (h : Method.call (createWithRows a newDeployments writeRows) s = (t, .ok id)) :
    ∃ s', s.insertApply a = .ok (s', id) ∧ writeRows s' id = .ok t := by
  unfold createWithRows at h
  rw [Method.call_transaction] at h
  split at h
  · next hf =>
    cases h
    obtain ⟨_, -, hf⟩ := bind_eq_ok hf
    obtain ⟨⟨s', id'⟩, hi, hf⟩ := bind_eq_ok hf
    obtain ⟨t', hw, hf⟩ := bind_eq_ok hf
    cases hf
    exact ⟨s', hi, hw⟩
  · cases h

theorem linked_taskRows {ts ts' rows : List Task}
    (hlink : List.Forall₂ (fun k k' => Linked ids k'.applyOperationId ∧
      k' = { k with applyOperationId := k'.applyOperationId }) ts ts')
    (hrows : List.Forall₂ (fun k row => TaskRow applyId k.applyOperationId k row) ts' rows) :
    List.Forall₂ (fun k row => Linked ids row.applyOperationId ∧
      TaskRow applyId row.applyOperationId k row) ts rows := by
  induction hlink generalizing rows with
  | nil => cases hrows; exact .nil
  | cons hk _ ih =>
    cases hrows with
    | cons hrow hrows =>
      refine .cons ?_ (ih hrows)
      obtain ⟨hlinked, hk⟩ := hk
      have hid := congrArg Task.applyOperationId hrow
      rw [hid]
      refine ⟨hlinked, ?_⟩
      rw [hk] at hrow
      exact hrow

end

/-- Both creating methods are all or nothing, at whichever statement they fail: they are rolled back, or
they have written the apply with its operations, in the caller's order, and its tasks, each linked to an
operation of the apply. A task of a group is linked to the operation of its group; only an apply created
without operations has tasks without. -/
theorem creation_all_or_nothing (fault : FaultPlan StoreError) (s : Store) (a : Apply) : (∀ tasks operations,
      (∃ e, Method.call (createWithTasksAndOperationsTx fault a tasks operations) s = (s, .error e)) ∨
      ∃ t id, Method.call (createWithTasksAndOperationsTx fault a tasks operations) s = (t, .ok id) ∧
        s.CreatedTasks a tasks operations id t) ∧
    ∀ groups,
      (∃ e, Method.call (createWithGroupedOperationsTx fault a groups) s = (s, .error e)) ∨
      ∃ t id, Method.call (createWithGroupedOperationsTx fault a groups) s = (t, .ok id) ∧
        s.CreatedGroups a groups id t := by
  constructor
  · intro tasks operations
    rcases call_createWithTasksAndOperationsTx a tasks operations s with he | ⟨t, id, hcall, hok⟩
    · exact .inl he
    · refine .inr ⟨t, id, hcall, ?_⟩
      obtain ⟨s', hi, hw⟩ := createWithRows_ok hok
      obtain ⟨rfl, rfl⟩ := Store.insertApply_ok hi
      obtain ⟨⟨u, ids⟩, hops, hw⟩ := bind_eq_ok hw
      obtain ⟨linked, hlink, htasks⟩ := bind_eq_ok hw
      obtain ⟨hsame, -⟩ := Store.insertOperations_ok hops
      obtain ⟨hsame', ho, -⟩ := Store.insertTasks_ok htasks
      obtain ⟨ops, hrows, ho', ht, rfl, hlt, -⟩ := Store.insertOperations_rows hops
      obtain ⟨rows, htaskRows, ht'⟩ := Store.insertTasks_rows htasks
      exact ⟨rfl, hsame'.applies.trans hsame.applies, ops, rows, hrows,
        linked_taskRows (mapM_linkTask_ok hlink) htaskRows, ho.trans ho', by rw [ht', ht], hlt⟩
  · intro groups
    rcases call_createWithGroupedOperationsTx a groups s with he | ⟨t, id, hcall, hok⟩
    · exact .inl he
    · refine .inr ⟨t, id, hcall, ?_⟩
      obtain ⟨s', hi, hw⟩ := createWithRows_ok hok
      obtain ⟨rfl, rfl⟩ := Store.insertApply_ok hi
      unfold Store.insertApplyGroupedOperations at hw
      split at hw
      · cases hw
      · obtain ⟨hsame, -⟩ := Store.insertGroups_ok hw
        obtain ⟨rows, hrows, ho, ht, hlt, -⟩ := Store.insertGroups_rows hw
        exact ⟨rfl, hsame.applies, rows, hrows, ho, ht, hlt⟩

/-- An apply created without operations has a task of no operation. -/
theorem created_task_without_operation :
    let a : Apply :=
      { applyIdentifier := "apply-1", database := "orders", databaseType := "mysql",
        environment := "staging", deployment := "eu" }
    let r := Method.call (createWithTasksAndOperationsTx (fun _ => none) a
      [{ taskIdentifier := "task-1" }] []) {}
    r.2 = .ok 1 ∧ r.1.tasks.map (·.applyId) = [1] ∧ r.1.tasks.map (·.applyOperationId) = [none] := by
  decide

end SchemaBot
