import SchemaBot.Storage.OperationClaims
import SchemaBot.Storage.Tasks

/-!
# What every method of the store keeps

The constraints of the schema (primary keys drawn from counters, lease tokens drawn from the UUID counter) and what
a statement can do to the rows of the two leased tables.
-/

namespace SchemaBot

open Concurrent

/-! ## Identity columns -/

/-- The columns of `applies` that only the insertion sets. -/
structure ApplyIdentity where
  id : Nat
  applyIdentifier : String
  target : Target
  createdAt : Nat
  deriving DecidableEq

def Apply.identity (a : Apply) : ApplyIdentity := ⟨a.id, a.applyIdentifier, a.target, a.createdAt⟩

/-- The columns of `apply_operations` that only the insertion sets. -/
structure OperationIdentity where
  id : Nat
  applyId : Nat
  deployment : String
  operationKey : String
  operationKind : OperationKind
  cutoverPolicy : CutoverPolicy
  onFailure : OnFailure
  createdAt : Nat
  deriving DecidableEq

def ApplyOperation.identity (op : ApplyOperation) : OperationIdentity :=
  ⟨op.id, op.applyId, op.deployment, op.operationKey, op.operationKind, op.cutoverPolicy,
    op.onFailure, op.createdAt⟩

theorem Apply.id_eq_of_identity {a b : Apply} (h : a.identity = b.identity) : a.id = b.id :=
  congrArg ApplyIdentity.id h

theorem ApplyOperation.id_eq_of_identity {a b : ApplyOperation} (h : a.identity = b.identity) :
    a.id = b.id := congrArg OperationIdentity.id h

theorem ApplyOperation.applyId_eq_of_identity {a b : ApplyOperation} (h : a.identity = b.identity) :
    a.applyId = b.applyId := congrArg OperationIdentity.applyId h

/-! ## Well-formed stores and their evolution -/

structure Store.WF (s : Store) : Prop where
  nextApply_pos : 0 < s.nextApply
  nextOperation_pos : 0 < s.nextOperation
  nextToken_pos : 0 < s.nextToken
  applyIds : Table.KeysUnique (·.id) s.applies
  applyIds_lt : Table.KeysBelow (·.id) s.nextApply s.applies
  applyIds_pos : ∀ a ∈ s.applies, 0 < a.id
  applyTokens_lt : Table.KeysBelow (·.leaseToken) s.nextToken s.applies
  applyTokens : Table.MarksUnique (·.id) (·.leaseToken) s.applies
  operationIds : Table.KeysUnique (·.id) s.operations
  operationIds_lt : Table.KeysBelow (·.id) s.nextOperation s.operations
  operationIds_pos : ∀ o ∈ s.operations, 0 < o.id
  operationTokens_lt : Table.KeysBelow (·.leaseToken) s.nextToken s.operations
  operationTokens : Table.MarksUnique (·.id) (·.leaseToken) s.operations
  parents_lt : Table.KeysBelow (·.applyId) s.nextApply s.operations

/-- What a statement can do to an apply row of `s`. -/
def Store.KeepsApply (s : Store) (a a' : Apply) : Prop :=
  a'.identity = a.identity ∧ (a'.leaseToken = a.leaseToken ∨ s.nextToken ≤ a'.leaseToken)

/-- What a statement can do to an operation row of `s`. -/
def Store.KeepsOperation (s : Store) (o o' : ApplyOperation) : Prop :=
  o'.identity = o.identity ∧ (o'.leaseToken = o.leaseToken ∨ s.nextToken ≤ o'.leaseToken)

/-- An apply row that was inserted after `s`. -/
def Store.NewApply (s : Store) (a : Apply) : Prop :=
  s.nextApply ≤ a.id ∧ (a.leaseToken = 0 ∨ s.nextToken ≤ a.leaseToken)

/-- An operation row that was inserted after `s`. -/
def Store.NewOperation (s : Store) (o : ApplyOperation) : Prop :=
  s.nextOperation ≤ o.id ∧ (o.leaseToken = 0 ∨ s.nextToken ≤ o.leaseToken)

/-- The store went on from `s` to `t`. -/
structure Store.Evolves (s t : Store) : Prop where
  now_le : s.now ≤ t.now
  nextApply_le : s.nextApply ≤ t.nextApply
  nextOperation_le : s.nextOperation ≤ t.nextOperation
  nextToken_le : s.nextToken ≤ t.nextToken
  applies : Table.Grows s.KeepsApply s.NewApply s.applies t.applies
  operations : Table.Grows s.KeepsOperation s.NewOperation s.operations t.operations

section
variable {s t u : Store}

theorem Store.KeepsApply.refl (a : Apply) : s.KeepsApply a a := ⟨rfl, .inl rfl⟩

theorem Store.KeepsOperation.refl (o : ApplyOperation) : s.KeepsOperation o o := ⟨rfl, .inl rfl⟩

theorem Store.KeepsApply.trans (hn : s.nextToken ≤ t.nextToken) {a b c : Apply}
    (h : s.KeepsApply a b) (h' : t.KeepsApply b c) : s.KeepsApply a c := by
  refine ⟨h'.1.trans h.1, ?_⟩
  rcases h'.2 with he | hlt
  · rw [he]; exact h.2
  · exact .inr (Nat.le_trans hn hlt)

theorem Store.KeepsOperation.trans (hn : s.nextToken ≤ t.nextToken) {a b c : ApplyOperation}
    (h : s.KeepsOperation a b) (h' : t.KeepsOperation b c) : s.KeepsOperation a c := by
  refine ⟨h'.1.trans h.1, ?_⟩
  rcases h'.2 with he | hlt
  · rw [he]; exact h.2
  · exact .inr (Nat.le_trans hn hlt)

theorem Store.Evolves.refl (s : Store) : s.Evolves s :=
  ⟨Nat.le_refl _, Nat.le_refl _, Nat.le_refl _, Nat.le_refl _, .refl Store.KeepsApply.refl, .refl Store.KeepsOperation.refl⟩

theorem Store.Evolves.trans (h : s.Evolves t) (h' : t.Evolves u) : s.Evolves u where
  now_le := Nat.le_trans h.now_le h'.now_le
  nextApply_le := Nat.le_trans h.nextApply_le h'.nextApply_le
  nextOperation_le := Nat.le_trans h.nextOperation_le h'.nextOperation_le
  nextToken_le := Nat.le_trans h.nextToken_le h'.nextToken_le
  applies := by
    refine h.applies.trans h'.applies (fun _ _ _ => Store.KeepsApply.trans h.nextToken_le) ?_ ?_
    · intro a b hn hab
      refine ⟨Apply.id_eq_of_identity hab.1 ▸ hn.1, ?_⟩
      rcases hab.2 with he | hlt
      · rw [he]; exact hn.2
      · exact .inr (Nat.le_trans h.nextToken_le hlt)
    · exact fun a hn =>
        ⟨Nat.le_trans h.nextApply_le hn.1, hn.2.imp_right (Nat.le_trans h.nextToken_le)⟩
  operations := by
    refine h.operations.trans h'.operations
      (fun _ _ _ => Store.KeepsOperation.trans h.nextToken_le) ?_ ?_
    · intro a b hn hab
      refine ⟨ApplyOperation.id_eq_of_identity hab.1 ▸ hn.1, ?_⟩
      rcases hab.2 with he | hlt
      · rw [he]; exact hn.2
      · exact .inr (Nat.le_trans h.nextToken_le hlt)
    · exact fun a hn =>
        ⟨Nat.le_trans h.nextOperation_le hn.1, hn.2.imp_right (Nat.le_trans h.nextToken_le)⟩

theorem Store.Evolves.operation_identity (h : s.Evolves t) (hs : s.WF) {o o' : ApplyOperation}
    (ho : o ∈ s.operations) (ho' : o' ∈ t.operations) (hid : o'.id = o.id) : s.KeepsOperation o o' := by
  rcases h.operations.origin ho' with ⟨r, hr, hk⟩ | hnew
  · have : r.id = o.id := (ApplyOperation.id_eq_of_identity hk.1).symm.trans hid
    rwa [← hs.operationIds.eq hr ho this]
  · have : o.id < s.nextOperation := hs.operationIds_lt o ho
    have := hnew.1
    omega

/-- A well-formed store that `s` evolves into. -/
structure Store.Next (s t : Store) : Prop where
  evolves : s.Evolves t
  wf : t.WF

theorem Store.Next.refl (h : s.WF) : s.Next s := ⟨.refl s, h⟩

theorem Store.Next.trans (h : s.Next t) (h' : t.Next u) : s.Next u :=
  ⟨h.evolves.trans h'.evolves, h'.wf⟩

theorem Store.Next.hasSibling {op : ApplyOperation} (h : s.Next t) (hs : s.hasSibling op = true) :
    t.hasSibling op = true := by
  obtain ⟨o, ho, hsib⟩ := List.any_eq_true.1 hs
  simp only [Bool.and_eq_true] at hsib
  obtain ⟨o', ho', hid, -⟩ := h.evolves.operations.persists ho
  refine List.any_eq_true.2 ⟨o', ho', ?_⟩
  rw [ApplyOperation.applyId_eq_of_identity hid, ApplyOperation.id_eq_of_identity hid]
  simp [hsib.1, hsib.2]

end

/-! ## Moves of the store -/

section
variable {s t : Store} (hs : s.WF) {n : Nat}
include hs

theorem Store.WF.next_applies {p : Apply → Bool} {f : Apply → Apply} (k : Nat)
    (hn : s.nextToken ≤ n) (hi : ∀ a, (f a).identity = a.identity)
    (hf : ∀ a, p a = true → (f a).leaseToken = a.leaseToken ∨
      a.id = k ∧ s.nextToken ≤ (f a).leaseToken ∧ (f a).leaseToken < n) :
    s.Next { s with applies := Table.update p f s.applies, nextToken := n } := by
  have hid : ∀ a, (f a).id = a.id := fun a => Apply.id_eq_of_identity (hi a)
  refine ⟨{ Store.Evolves.refl s with
      nextToken_le := hn
      applies := .update Store.KeepsApply.refl fun a _ ha =>
        ⟨hi a, (hf a ha).imp_right (·.2.1)⟩ },
    { hs with
      nextToken_pos := Nat.lt_of_lt_of_le hs.nextToken_pos hn
      operationTokens_lt := hs.operationTokens_lt.mono hn
      applyIds := hs.applyIds.update hid
      applyIds_lt := hs.applyIds_lt.update_key hid
      applyIds_pos := fun a ha => ?_
      applyTokens_lt := (hs.applyTokens_lt.mono hn).update fun a ha hp => ?_
      applyTokens := hs.applyTokens.update hs.applyTokens_lt hid fun a _ ha =>
        (hf a ha).imp_right fun h => ⟨h.1, h.2.1⟩ }⟩
  · obtain ⟨o, ho, rfl⟩ := Table.mem_update.1 ha
    split
    · rw [hid o]; exact hs.applyIds_pos o ho
    · exact hs.applyIds_pos o ho
  · rcases hf a hp with he | ⟨-, -, h⟩
    · rw [he]; exact hs.applyTokens_lt.mono hn a ha
    · exact h

theorem Store.WF.next_operations {p : ApplyOperation → Bool} {f : ApplyOperation → ApplyOperation}
    (k : Nat) (hn : s.nextToken ≤ n) (hi : ∀ o, (f o).identity = o.identity)
    (hf : ∀ o, p o = true → (f o).leaseToken = o.leaseToken ∨
      o.id = k ∧ s.nextToken ≤ (f o).leaseToken ∧ (f o).leaseToken < n) :
    s.Next { s with operations := Table.update p f s.operations, nextToken := n } := by
  have hid : ∀ o, (f o).id = o.id := fun o => ApplyOperation.id_eq_of_identity (hi o)
  refine ⟨{ Store.Evolves.refl s with
      nextToken_le := hn
      operations := .update Store.KeepsOperation.refl fun o _ ho =>
        ⟨hi o, (hf o ho).imp_right (·.2.1)⟩ },
    { hs with
      nextToken_pos := Nat.lt_of_lt_of_le hs.nextToken_pos hn
      applyTokens_lt := hs.applyTokens_lt.mono hn
      operationIds := hs.operationIds.update hid
      operationIds_lt := hs.operationIds_lt.update_key hid
      operationIds_pos := fun o ho => ?_
      operationTokens_lt := (hs.operationTokens_lt.mono hn).update fun o ho hp => ?_
      operationTokens := hs.operationTokens.update hs.operationTokens_lt hid fun o _ ho =>
        (hf o ho).imp_right fun h => ⟨h.1, h.2.1⟩
      parents_lt := hs.parents_lt.update_key fun o =>
        ApplyOperation.applyId_eq_of_identity (hi o) }⟩
  · obtain ⟨r, hr, rfl⟩ := Table.mem_update.1 ho
    split
    · rw [hid r]; exact hs.operationIds_pos r hr
    · exact hs.operationIds_pos r hr
  · rcases hf o hp with he | ⟨-, -, h⟩
    · rw [he]; exact hs.operationTokens_lt.mono hn o ho
    · exact h

theorem Store.WF.next_other (hnow : s.now ≤ t.now) (ha : t.applies = s.applies)
    (ho : t.operations = s.operations) (hna : t.nextApply = s.nextApply)
    (hno : t.nextOperation = s.nextOperation) (hnt : t.nextToken = s.nextToken) : s.Next t := by
  obtain ⟨now, applies, operations, tasks, crs, na, no, nt, nc, ntok⟩ := t
  subst ha ho hna hno hnt
  exact ⟨{ Store.Evolves.refl s with now_le := hnow }, { hs with }⟩

end

/-! ## Insertions -/

section
variable {s t : Store} {applyId : Nat} {id : Nat} {ts : List Task}

theorem Store.WF.next_insertApply (hs : s.WF) {a : Apply}
    (h : s.insertApply a = .ok (t, id)) : s.Next t ∧ id < t.nextApply := by
  unfold insertApply at h
  split at h
  · cases h
  · cases h
    refine ⟨⟨{ Store.Evolves.refl s with
        nextApply_le := Nat.le_succ _
        applies := .append Store.KeepsApply.refl fun r hr => ?_ },
      { hs with
        nextApply_pos := Nat.succ_pos _
        applyIds := hs.applyIds.append hs.applyIds_lt rfl
        applyIds_lt := hs.applyIds_lt.append rfl
        applyIds_pos := fun r hr => ?_
        applyTokens_lt := fun r hr => ?_
        applyTokens := hs.applyTokens.append rfl
        parents_lt := hs.parents_lt.mono (Nat.le_succ _) }⟩, Nat.lt_succ_self _⟩
    · rw [List.mem_singleton.1 hr]; exact ⟨Nat.le_refl _, .inl rfl⟩
    · rcases List.mem_append.1 hr with hr | hr
      · exact hs.applyIds_pos r hr
      · rw [List.mem_singleton.1 hr]; exact hs.nextApply_pos
    · rcases List.mem_append.1 hr with hr | hr
      · exact hs.applyTokens_lt r hr
      · rw [List.mem_singleton.1 hr]; exact hs.nextToken_pos

theorem Store.WF.next_insertApplyOperation (hs : s.WF) {op : ApplyOperation}
    (hop : op.applyId < s.nextApply) (h : s.insertApplyOperation op = .ok (t, id)) : s.Next t := by
  unfold insertApplyOperation at h
  split at h
  · cases h
  · cases h
    refine ⟨{ Store.Evolves.refl s with
        nextOperation_le := Nat.le_succ _
        operations := .append Store.KeepsOperation.refl fun r hr => ?_ },
      { hs with
        nextOperation_pos := Nat.succ_pos _
        operationIds := hs.operationIds.append hs.operationIds_lt rfl
        operationIds_lt := hs.operationIds_lt.append rfl
        operationIds_pos := fun r hr => ?_
        operationTokens_lt := fun r hr => ?_
        operationTokens := hs.operationTokens.append rfl
        parents_lt := fun r hr => ?_ }⟩
    · rw [List.mem_singleton.1 hr]; exact ⟨Nat.le_refl _, .inl rfl⟩
    all_goals rcases List.mem_append.1 hr with hr | hr
    · exact hs.operationIds_pos r hr
    · rw [List.mem_singleton.1 hr]; exact hs.nextOperation_pos
    · exact hs.operationTokens_lt r hr
    · rw [List.mem_singleton.1 hr]; exact hs.nextToken_pos
    · exact hs.parents_lt r hr
    · rw [List.mem_singleton.1 hr]; exact hop

theorem Store.WF.next_insertTask (hs : s.WF) {k : Task} (h : s.insertTask k = .ok (t, id)) : s.Next t := by
  unfold insertTask at h
  split at h
  · cases h
  · cases h
    exact hs.next_other (Nat.le_refl _) rfl rfl rfl rfl rfl

theorem Store.insertGroupTasks_eq (operationId : Nat) (ts : List Task) (s : Store) :
    Store.insertGroupTasks applyId operationId ts s =
      Store.insertTasks applyId (ts.map ({ · with applyOperationId := some operationId })) s := by
  induction ts generalizing s with
  | nil => rfl
  | cons k ts ih =>
    rw [insertGroupTasks, List.map_cons, insertTasks]
    cases s.insertTask { k with applyId, applyOperationId := some operationId } with
    | error e => rfl
    | ok r => exact ih r.1

theorem Store.WF.next_insertTasks (hs : s.WF) (h : Store.insertTasks applyId ts s = .ok t) : s.Next t := by
  induction ts generalizing s with
  | nil => cases h; exact .refl hs
  | cons k ts ih =>
    obtain ⟨⟨s', _⟩, hi, h⟩ := bind_eq_ok h
    have hn := hs.next_insertTask hi
    exact hn.trans (ih hn.wf h)

theorem Store.WF.next_insertGroupTasks (hs : s.WF) {operationId : Nat}
    (h : Store.insertGroupTasks applyId operationId ts s = .ok t) : s.Next t :=
  hs.next_insertTasks (insertGroupTasks_eq operationId ts s ▸ h)

theorem Store.WF.next_insertGroups (hs : s.WF) {gs : List ApplyOperationWithTasks}
    (ha : applyId < s.nextApply) (h : Store.insertGroups applyId gs s = .ok t) : s.Next t := by
  induction gs generalizing s with
  | nil => cases h; exact .refl hs
  | cons g gs ih =>
    unfold insertGroups at h
    split at h
    · cases h
    · obtain ⟨⟨s', id⟩, hi, h⟩ := bind_eq_ok h
      obtain ⟨s'', hi', h⟩ := bind_eq_ok h
      have hn := hs.next_insertApplyOperation ha hi
      have hn' := hn.trans (hn.wf.next_insertGroupTasks hi')
      exact hn'.trans (ih hn'.wf (Nat.lt_of_lt_of_le ha hn'.evolves.nextApply_le) h)

theorem Store.WF.next_insertOperations (hs : s.WF) {ops : List ApplyOperation} {ids : List Nat}
    (ha : applyId < s.nextApply) (h : Store.insertOperations applyId ops s = .ok (t, ids)) : s.Next t := by
  induction ops generalizing s ids with
  | nil => cases h; exact .refl hs
  | cons op ops ih =>
    obtain ⟨⟨s', id⟩, hi, h⟩ := bind_eq_ok h
    obtain ⟨⟨s'', ids'⟩, hi', h⟩ := bind_eq_ok h
    cases h
    have hn := hs.next_insertApplyOperation ha hi
    exact hn.trans (ih hn.wf (Nat.lt_of_lt_of_le ha hn.evolves.nextApply_le) hi')

end

end SchemaBot
