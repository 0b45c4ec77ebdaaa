import SchemaBot.Lib.Linearize
import SchemaBot.Lib.Table

/-!
# The locks of databases

`pkg/storage/mysqlstore/locks.go`: one row of `locks` per database and type, held by an owner, with the plan that
waits for its confirmation.
-/

namespace SchemaBot

open Concurrent

/-! ## The table -/

/-- A row of `locks`. -/
structure Lock where
  id : Nat := 0
  databaseName : String := ""
  databaseType : String := ""
  repository : String := ""
  pullRequest : Nat := 0
  owner : String := ""
  pendingPlanId : String := ""
  createdAt : Nat := 0
  updatedAt : Nat := 0
  deriving DecidableEq

structure LockDb where
  now : Nat := 0
  locks : List Lock := []
  nextId : Nat := 1
  conflict : Bool := false
  deriving DecidableEq

/-- `ErrLockHeld`, `ErrLockNotFound`, `ErrLockNotOwned`, and the transient lock conflicts of InnoDB. -/
inductive LockError
  | held | notFound | notOwned | lockConflict
  deriving DecidableEq

abbrev LockMethod := Method LockDb LockError

/-- A statement that takes row locks; `none` is a lock conflict, which leaves the table as it is. -/
def writeLocks {α : Type} (f : LockDb → LockDb × α) : LockMethod (Option α) :=
  Method.write fun s =>
    if s.conflict then ({ s with conflict := false }, none) else ((f s).1, some (f s).2)

section
variable (collate : String → String)

def Lock.isFor (database dbType : String) (l : Lock) : Bool :=
  collate l.databaseName = collate database && collate l.databaseType = collate dbType

def LockDb.get (s : LockDb) (database dbType : String) : Option Lock :=
  s.locks.find? (·.isFor collate database dbType)

/-- The `INSERT`, which the unique key refuses where there is a row. -/
def insertLock (lock : Lock) (s : LockDb) : LockDb × Bool :=
  if s.locks.any (·.isFor collate lock.databaseName lock.databaseType) then (s, false)
  else ({ s with
      locks := s.locks ++ [{ lock with id := s.nextId, createdAt := s.now, updatedAt := s.now }]
      nextId := s.nextId + 1 }, true)

def Lock.isHeldBy (database dbType owner : String) (l : Lock) : Bool :=
  l.isFor collate database dbType && collate l.owner = collate owner

/-- The `UPDATE` of the pending plan, with its affected rows. -/
def updatePendingPlan (lock : Lock) (s : LockDb) : LockDb × Nat :=
  let p := Lock.isHeldBy collate lock.databaseName lock.databaseType lock.owner
  let f : Lock → Lock := fun l => { l with pendingPlanId := lock.pendingPlanId, updatedAt := s.now }
  ({ s with locks := Table.update p f s.locks }, Table.affected p f s.locks)

/-- The `DELETE` of a release, with its affected rows. -/
def deleteLock (database dbType owner : String) (s : LockDb) : LockDb × Nat :=
  let p := Lock.isHeldBy collate database dbType owner
  ({ s with locks := s.locks.filter fun l => !p l }, s.locks.countP p)

def refreshPendingPlanID (lock existing : Lock) : LockMethod Unit :=
  if lock.pendingPlanId = "" ∨ lock.pendingPlanId = existing.pendingPlanId then pure ()
  else do
    match ← writeLocks (updatePendingPlan collate lock) with
    | none => throw .lockConflict
    | some rows =>
      if 0 < rows then pure ()
      else do
        match ← Method.read (·.get collate lock.databaseName lock.databaseType) with
        | none => throw .notFound
        | some current => if current.owner = lock.owner then pure () else throw .held

/-- What `acquireOnce` does with a lock that it has read. -/
def acquireExisting (lock existing : Lock) : LockMethod Unit :=
  if existing.owner ≠ lock.owner then throw .held else refreshPendingPlanID collate lock existing

def acquireOnce (lock : Lock) : LockMethod Unit := do
  match ← Method.read (·.get collate lock.databaseName lock.databaseType) with
  | some existing => acquireExisting collate lock existing
  | none =>
    match ← writeLocks (insertLock collate lock) with
    | none => throw .lockConflict
    | some true => pure ()
    | some false =>
      match ← Method.read (·.get collate lock.databaseName lock.databaseType) with
      -- released in between
      | none => throw .held
      | some winner => acquireExisting collate lock winner

/-- `withLockRetry`, with the attempts that are left. -/
def withLockRetry (m : LockMethod Unit) : Nat → LockMethod Unit
  | 0 => throw .lockConflict
  | n + 1 => ExceptT.mk (m.run >>= fun
    | .ok _ => pure (.ok ())
    | .error .lockConflict => (withLockRetry m n).run
    | .error e => pure (.error e))

def lockRetryMaxAttempts : Nat := 5

/-- `Acquire`. -/
def acquireLock (lock : Lock) : LockMethod Unit :=
  withLockRetry (acquireOnce collate lock) lockRetryMaxAttempts

/-- `Release`. -/
def releaseLock (database dbType owner : String) : LockMethod Unit := do
  match ← writeLocks (deleteLock collate database dbType owner) with
  | none => throw .lockConflict
  | some rows =>
    if rows = 0 then do
      match ← Method.read (·.get collate database dbType) with
      | none => throw .notFound
      | some _ => throw .notOwned
    else pure ()

end

/-! ## The lock as a sequential object -/

structure Held where
  owner : String
  plan : String
  deriving DecidableEq

inductive LockOp
  | acquire (lock : Lock)
  | release (database dbType owner : String)
  deriving DecidableEq

/-- The sequential lock. An absent lock is taken; its owner may take it again, and replaces the plan with
one that is not empty; to anyone else it is held. The owner's release deletes it; any other release is
refused. A lock conflict that is reported has changed nothing. -/
def lockSpec : Spec (Option Held) LockOp (Except LockError Unit)
  | none, .acquire lock, .ok _ => some (some ⟨lock.owner, lock.pendingPlanId⟩)
  | some h, .acquire lock, .ok _ =>
    if h.owner = lock.owner then
      some (some ⟨h.owner, if lock.pendingPlanId = "" then h.plan else lock.pendingPlanId⟩)
    else none
  | some h, .acquire lock, .error .held => if h.owner = lock.owner then none else some (some h)
  | some h, .release _ _ owner, .ok _ => if h.owner = owner then some none else none
  | st, .release _ _ owner, .error .notFound | st, .release _ _ owner, .error .notOwned =>
    if st.any (·.owner = owner) then none else some st
  | st, _, .error .lockConflict => some st
  | _, _, _ => none

/-- Who holds the lock, without the plan: an `Acquire` may be refused where nobody holds it. -/
def ownerSpec : Spec (Option String) LockOp (Except LockError Unit)
  | none, .acquire lock, .ok _ => some (some lock.owner)
  | none, .acquire _, .error .held | none, .acquire _, .error .notFound => some none
  | some o, .acquire lock, .ok _ => if o = lock.owner then some (some o) else none
  | some o, .acquire lock, .error .held => if o = lock.owner then none else some (some o)
  | some o, .release _ _ owner, .ok _ => if o = owner then some none else none
  | st, .release _ _ owner, .error .notFound | st, .release _ _ owner, .error .notOwned =>
    if st = some owner then none else some st
  | st, _, .error .lockConflict => some st
  | _, _, _ => none

inductive LockEnv
  | tick (seconds : Nat)
  | conflict
  | elsewhere (locks : List Lock)

section
variable (collate : String → String) (database dbType : String)

def LockDb.owner (s : LockDb) : Option String := (s.get collate database dbType).map (·.owner)

def LockDb.holder (s : LockDb) : Option Held :=
  (s.get collate database dbType).map fun l => ⟨l.owner, l.pendingPlanId⟩

def lockObject : Object LockDb LockOp (Except LockError Unit) LockEnv where
  program
    | .acquire lock => (acquireLock collate lock).run
    | .release database' dbType' owner => (releaseLock collate database' dbType' owner).run
  env
    | .tick seconds => fun s => { s with now := s.now + seconds }
    | .conflict => fun s => { s with conflict := true }
    | .elsewhere locks => fun s => { s with
        locks := locks.filter (fun l => !l.isFor collate database dbType) ++
          s.locks.filter (·.isFor collate database dbType) }

def LockOp.isOn : LockOp → Bool
  | .acquire lock => lock.isFor collate database dbType
  | .release database' dbType' _ =>
    collate database' = collate database && collate dbType' = collate dbType

end

def LockOp.owner : LockOp → String
  | .acquire lock => lock.owner
  | .release _ _ owner => owner

/-- An `Acquire` looks at a lock of its own owner. -/
def LockOp.owns : LockOp → Option Lock → Bool
  | .acquire lock, row => row.any (·.owner = lock.owner)
  | .release .., _ => false

/-! ## The rows of one lock -/

section
variable (collate : String → String) (database dbType : String)

def LockDb.slot (s : LockDb) : List Lock := s.locks.filter (·.isFor collate database dbType)

def LockDb.OneRow (named : String → Prop) (s : LockDb) : Prop :=
  s.slot collate database dbType = [] ∨ ∃ l, s.slot collate database dbType = [l] ∧ named l.owner

variable {collate database dbType} {named : String → Prop} {s t : LockDb}

theorem LockDb.get_eq : s.get collate database dbType = (s.slot collate database dbType).head? :=
  (List.head?_filter ..).symm

theorem LockDb.congr_slot (named : String → Prop)
    (h : t.slot collate database dbType = s.slot collate database dbType) :
    t.get collate database dbType = s.get collate database dbType ∧
      (s.OneRow collate database dbType named → t.OneRow collate database dbType named) := by
  rw [get_eq, get_eq, OneRow, OneRow, h]
  exact ⟨rfl, id⟩

theorem LockDb.OneRow.cases (hs : s.OneRow collate database dbType named) :
    (s.slot collate database dbType = [] ∧ s.get collate database dbType = none) ∨
      ∃ l, s.slot collate database dbType = [l] ∧ s.get collate database dbType = some l ∧
        named l.owner := by
  rw [get_eq]
  rcases hs with hnil | ⟨l, hl, hname⟩
  · rw [hnil]
    exact .inl ⟨rfl, rfl⟩
  · rw [hl]
    exact .inr ⟨l, rfl, rfl, hname⟩

theorem Lock.isFor_eq {database' dbType' : String} (hd : collate database' = collate database)
    (ht : collate dbType' = collate dbType) :
    Lock.isFor collate database' dbType' = Lock.isFor collate database dbType := by
  funext l
  rw [isFor, isFor, hd, ht]

theorem lockObject_env (e : LockEnv) : ((lockObject collate database dbType).env e s).slot collate database dbType =
      s.slot collate database dbType := by
  cases e with
  | tick | conflict => rfl
  | elsewhere locks => simp [lockObject, LockDb.slot]

variable {lock l : Lock}

section
variable (hon : lock.isFor collate database dbType = true)
include hon

theorem Lock.isFor_key :
    Lock.isFor collate lock.databaseName lock.databaseType = Lock.isFor collate database dbType := by
  simp only [isFor, Bool.and_eq_true, decide_eq_true_eq] at hon
  exact isFor_eq hon.1 hon.2

theorem slot_insertLock : (insertLock collate lock s = (s, false) ∧ s.slot collate database dbType ≠ []) ∨
      (s.slot collate database dbType = [] ∧ (insertLock collate lock s).2 = true ∧
        ∃ row : Lock, (insertLock collate lock s).1.slot collate database dbType = [row] ∧
          row.owner = lock.owner ∧ row.pendingPlanId = lock.pendingPlanId) := by
  unfold insertLock
  rw [Lock.isFor_key hon]
  split
  · next hany =>
    obtain ⟨r, hr, hp⟩ := List.any_eq_true.1 hany
    exact .inl ⟨rfl, List.ne_nil_of_mem (List.mem_filter.2 ⟨hr, hp⟩)⟩
  · next hany =>
    have hnil : s.slot collate database dbType = [] :=
      List.filter_eq_nil_iff.2 fun r hr hp => hany (List.any_eq_true.2 ⟨r, hr, hp⟩)
    refine .inr ⟨hnil, rfl, { lock with id := s.nextId, createdAt := s.now, updatedAt := s.now }, ?_,
      rfl, rfl⟩
    have hrow : Lock.isFor collate database dbType
        { lock with id := s.nextId, createdAt := s.now, updatedAt := s.now } = true := hon
    unfold LockDb.slot at hnil ⊢
    rw [List.filter_append, hnil, List.filter_singleton, hrow]
    rfl

theorem slot_updatePendingPlan (hl : s.slot collate database dbType = [l]) (ho : l.owner = lock.owner) :
    (∃ row : Lock, (updatePendingPlan collate lock s).1.slot collate database dbType = [row] ∧
      row.owner = lock.owner ∧ row.pendingPlanId = lock.pendingPlanId) ∧
    ((updatePendingPlan collate lock s).2 = 0 →
      (updatePendingPlan collate lock s).1 = s ∧ l.pendingPlanId = lock.pendingPlanId) := by
  have hkey := Lock.isFor_key hon
  have hmem : l ∈ s.locks ∧ l.isFor collate database dbType = true := by
    have : l ∈ s.slot collate database dbType := by rw [hl]; exact .head _
    exact List.mem_filter.1 this
  have hheld : l.isHeldBy collate lock.databaseName lock.databaseType lock.owner = true := by
    simp [Lock.isHeldBy, hkey, hmem.2, ho]
  refine ⟨⟨{ l with pendingPlanId := lock.pendingPlanId, updatedAt := s.now }, ?_, ho, rfl⟩, fun h0 => ?_⟩
  · have hcomp : ∀ r : Lock, Lock.isFor collate database dbType
        (if r.isHeldBy collate lock.databaseName lock.databaseType lock.owner = true then
          { r with pendingPlanId := lock.pendingPlanId, updatedAt := s.now } else r) =
        r.isFor collate database dbType := by
      intro r
      split <;> rfl
    unfold LockDb.slot at hl ⊢
    simp only [updatePendingPlan, Table.update, List.filter_map, Function.comp_def, hcomp, hl,
      List.map_cons, List.map_nil, hheld, if_true]
  · refine ⟨?_, ?_⟩
    · unfold updatePendingPlan at h0 ⊢
      dsimp only at h0 ⊢
      rw [Table.update_eq_self_of_affected h0]
    · exact (congrArg Lock.pendingPlanId (Table.affected_eq_zero.1 h0 l hmem.1 hheld)).symm

theorem slot_updatePendingPlan_other
    (h : ∀ l ∈ s.slot collate database dbType, collate l.owner ≠ collate lock.owner) :
    updatePendingPlan collate lock s = (s, 0) := by
  have hzero : (updatePendingPlan collate lock s).2 = 0 := by
    refine Table.affected_eq_zero.2 fun r hr hheld => ?_
    simp only [Lock.isHeldBy, Lock.isFor_key hon, Bool.and_eq_true, decide_eq_true_eq] at hheld
    exact absurd hheld.2 (h r (List.mem_filter.2 ⟨hr, hheld.1⟩))
  have hsame : (updatePendingPlan collate lock s).1 = s := by
    unfold updatePendingPlan at hzero ⊢
    dsimp only at hzero ⊢
    rw [Table.update_eq_self_of_affected hzero]
  exact Prod.ext hsame hzero

end

theorem slot_deleteLock {database' dbType' : String} (owner : String)
    (hd : collate database' = collate database) (ht : collate dbType' = collate dbType)
    (hs : s.OneRow collate database dbType named) : ((deleteLock collate database' dbType' owner s).2 = 0 ∧
      (deleteLock collate database' dbType' owner s).1.slot collate database dbType =
        s.slot collate database dbType ∧
      ∀ l ∈ s.slot collate database dbType, l.owner ≠ owner) ∨
    ((deleteLock collate database' dbType' owner s).2 ≠ 0 ∧
      (deleteLock collate database' dbType' owner s).1.slot collate database dbType = [] ∧
      ∃ l, s.slot collate database dbType = [l] ∧ named l.owner ∧ collate l.owner = collate owner) := by
  have hheld : ∀ r : Lock, r.isHeldBy collate database' dbType' owner =
      (r.isFor collate database dbType && decide (collate r.owner = collate owner)) := by
    intro r
    rw [Lock.isHeldBy, Lock.isFor_eq hd ht]
  have hslot : (deleteLock collate database' dbType' owner s).1.slot collate database dbType =
      (s.slot collate database dbType).filter fun r => !decide (collate r.owner = collate owner) := by
    simp only [deleteLock, LockDb.slot, List.filter_filter, hheld]
    refine List.filter_congr fun r _ => ?_
    cases r.isFor collate database dbType <;> simp
  have hcount : (deleteLock collate database' dbType' owner s).2 =
      (s.slot collate database dbType).countP fun r => decide (collate r.owner = collate owner) := by
    simp only [LockDb.slot, List.countP_filter]
    exact List.countP_congr fun r _ => by rw [hheld, Bool.and_comm]
  rw [hslot, hcount]
  rcases hs with hnil | ⟨l, hl, hname⟩
  · rw [hnil]
    exact .inl ⟨rfl, rfl, List.forall_mem_nil _⟩
  · rw [hl]
    by_cases ho : collate l.owner = collate owner
    · exact .inr ⟨by simp [ho], by simp [ho], l, rfl, hname, ho⟩
    · refine .inl ⟨by simp [ho], by simp [ho], fun r hr h => ho ?_⟩
      rw [← List.mem_singleton.1 hr, h]

end

/-! ## The programs -/

/-- What the programs need from a specification, of which a row shows `view`. A strict one leaves a call
no way out when a lock that it has found to be its owner's is released. -/
structure Explains {α : Type} (strict : Bool) (view : Option Lock → α)
    (spec : Spec α LockOp (Except LockError Unit)) : Prop where
  lockConflict : ∀ row op, spec (view row) op (.error .lockConflict) = some (view row)
  held : ∀ {lock l : Lock}, l.owner ≠ lock.owner →
    spec (view (some l)) (.acquire lock) (.error .held) = some (view (some l))
  again : ∀ {lock l : Lock}, l.owner = lock.owner →
    (strict = true → lock.pendingPlanId = "" ∨ lock.pendingPlanId = l.pendingPlanId) →
    spec (view (some l)) (.acquire lock) (.ok ()) = some (view (some l))
  taken : ∀ {lock row : Lock}, row.owner = lock.owner → row.pendingPlanId = lock.pendingPlanId →
    spec (view none) (.acquire lock) (.ok ()) = some (view (some row))
  refreshed : ∀ {lock l row : Lock}, l.owner = lock.owner → row.owner = lock.owner →
    row.pendingPlanId = lock.pendingPlanId → lock.pendingPlanId ≠ "" →
    spec (view (some l)) (.acquire lock) (.ok ()) = some (view (some row))
  gone : strict = false → ∀ {lock : Lock} {e : LockError}, e = .held ∨ e = .notFound →
    spec (view none) (.acquire lock) (.error e) = some (view none)
  released : ∀ {l : Lock} {database dbType : String},
    spec (view (some l)) (.release database dbType l.owner) (.ok ()) = some (view none)
  refused : ∀ {row : Option Lock} {database dbType owner : String} {e : LockError},
    (∀ l, row = some l → l.owner ≠ owner) → e = .notFound ∨ e = .notOwned →
    spec (view row) (.release database dbType owner) (.error e) = some (view row)

theorem explains_lockSpec :
    Explains true (fun row => row.map fun l => Held.mk l.owner l.pendingPlanId) lockSpec where
  lockConflict row op := by cases row <;> cases op <;> rfl
  held h := by simp [lockSpec, h]
  again h hp := by
    rcases hp rfl with hp | hp <;> simp [lockSpec, h, hp]
  taken ho hp := by simp [lockSpec, ho, hp]
  refreshed hl ho hp hne := by simp [lockSpec, hl, ho, hp, hne]
  gone := nofun
  released := by simp [lockSpec]
  refused {row} _ _ _ _ h he := by
    cases row with
    | none => rcases he with rfl | rfl <;> rfl
    | some l => rcases he with rfl | rfl <;> simp [lockSpec, h l rfl]

theorem explains_ownerSpec : Explains false (fun row => row.map (·.owner)) ownerSpec where
  lockConflict row op := by cases row <;> cases op <;> rfl
  held h := by simp [ownerSpec, h]
  again h _ := by simp [ownerSpec, h]
  taken ho _ := by simp [ownerSpec, ho]
  refreshed hl ho _ _ := by simp [ownerSpec, hl, ho]
  gone _ := by
    rintro _ _ (rfl | rfl) <;> rfl
  released := by simp [ownerSpec]
  refused {row} _ _ _ _ h he := by
    cases row with
    | none => rcases he with rfl | rfl <;> rfl
    | some l => rcases he with rfl | rfl <;> simp [ownerSpec, h l rfl]

section
variable {collate : String → String} {database dbType : String} {named : String → Prop}
  {α : Type} {strict : Bool} {view : Option Lock → α} {spec : Spec α LockOp (Except LockError Unit)}
  {lock : Lock} {v : Except LockError Unit → Prop} {m : Bool} {op : LockOp}

abbrev Allowed (collate : String → String) (database dbType : String) (view : Option Lock → α)
    (spec : Spec α LockOp (Except LockError Unit)) (op : LockOp) (s : LockDb) (r : Except LockError Unit) : Prop :=
  spec (view (s.get collate database dbType)) op r = some (view (s.get collate database dbType))

theorem allowed_of_get {s : LockDb} {row : Option Lock} {r : Except LockError Unit}
    (hget : s.get collate database dbType = row) (h : spec (view row) op r = some (view row)) :
    Allowed collate database dbType view spec op s r := by
  subst hget
  exact h

/-- What an `Acquire` relies on under a strict specification. -/
abbrev lockMark (collate : String → String) (database dbType : String) (strict : Bool) (op : LockOp)
    (s : LockDb) : Bool :=
  strict && op.owns (s.get collate database dbType)

abbrev ImplementsLock (collate : String → String) (database dbType : String) (named : String → Prop)
    (strict : Bool) (view : Option Lock → α) (spec : Spec α LockOp (Except LockError Unit))
    (op : LockOp) (v : Except LockError Unit → Prop) (m : Bool) (p : LockMethod Unit) : Prop :=
  p.run.Implements (LockDb.OneRow collate database dbType named)
    (fun s => view (s.get collate database dbType)) spec op (lockMark collate database dbType strict op)
    (fun v _ r => v r) (fun r b => b = r ∧ r = .ok ()) v m

theorem implements_writeLocks {β : Type} {f : LockDb → LockDb × β} {g : Option β → LockMethod Unit}
    (hconf : ∀ s : LockDb, ImplementsLock collate database dbType named strict view spec op
      (fun r => v r ∨ Allowed collate database dbType view spec op s r)
      (lockMark collate database dbType strict op s) (g none))
    (h : ∀ s : LockDb, s.OneRow collate database dbType named →
      (m = true → lockMark collate database dbType strict op s = true) →
      (f s).1.OneRow collate database dbType named ∧
      (lockMark collate database dbType strict op s = true →
        lockMark collate database dbType strict op (f s).1 = true) ∧
      ((view ((f s).1.get collate database dbType) = view (s.get collate database dbType) ∧
          ImplementsLock collate database dbType named strict view spec op
            (fun r => v r ∨ Allowed collate database dbType view spec op s r)
            (lockMark collate database dbType strict op s) (g (some (f s).2))) ∨
        (spec (view (s.get collate database dbType)) op (.ok ()) =
          some (view ((f s).1.get collate database dbType)) ∧
          (g (some (f s).2)).run = .ret (.ok ())))) :
    ImplementsLock collate database dbType named strict view spec op v m (writeLocks f >>= g) := by
  refine Method.implements_write_bind fun s hs hm => ?_
  by_cases hc : s.conflict = true
  · simp only [hc]
    exact ⟨hs, id, .inl ⟨rfl, hconf s⟩⟩
  · simp only [hc]
    obtain ⟨hI, hmark, hstep⟩ := h s hs hm
    exact ⟨hI, hmark, hstep.imp_right fun ⟨hspec, hret⟩ => ⟨.ok (), .ok (), hspec, hret, rfl, rfl⟩⟩

section
variable (hview : Explains strict view spec) (hon : lock.isFor collate database dbType = true) {existing : Lock}
include hon

theorem get_of_isFor (s : LockDb) :
    s.get collate lock.databaseName lock.databaseType = s.get collate database dbType := by
  rw [LockDb.get, LockDb.get, Lock.isFor_key hon]

include hview

/-- The last look at the lock of a refresh that affected no row. The owner's lock is still there, or the
specification has a way out. -/
theorem implements_reread (hv : v (.ok ())) (hm : strict = true → m = true) :
    ImplementsLock collate database dbType named strict view spec (.acquire lock) v m (do
      match ← Method.read (·.get collate lock.databaseName lock.databaseType) with
      | none => throw LockError.notFound
      | some current => if current.owner = lock.owner then pure () else throw .held) := by
  refine Method.implements_read_bind fun s hs hmark => ?_
  rw [get_of_isFor hon]
  cases hget : s.get collate database dbType with
  | none =>
    cases hstrict : strict with
    | true =>
      have := hmark (hm hstrict)
      simp [hget, LockOp.owns] at this
    | false => exact .inr (hview.gone hstrict (.inr rfl))
  | some l =>
    dsimp only
    split
    · exact .inl hv
    · next ho => exact .inr (hview.held ho)

variable (hnames : ∀ a b, named a → named b → collate a = collate b → a = b) (hname : named lock.owner)
include hnames hname

theorem implements_refreshPendingPlanID (hm : strict = true → m = true)
    (hv : (strict = true → lock.pendingPlanId = "" ∨ lock.pendingPlanId = existing.pendingPlanId) →
      v (.ok ())) :
    ImplementsLock collate database dbType named strict view spec (.acquire lock) v m
      (refreshPendingPlanID collate lock existing) := by
  unfold refreshPendingPlanID
  split
  · next hp => exact hv fun _ => hp
  · next hp =>
    rw [not_or] at hp
    refine implements_writeLocks (fun s => .inr (hview.lockConflict _ _)) fun s hs hmark => ?_
    by_cases hown : ∃ l, s.slot collate database dbType = [l] ∧ l.owner = lock.owner
    · obtain ⟨l, hl, ho⟩ := hown
      obtain ⟨⟨row, hrow, hrowner, hplan⟩, hzero⟩ := slot_updatePendingPlan hon hl ho
      have hbefore : s.get collate database dbType = some l := by
        rw [LockDb.get_eq, hl]
        rfl
      have hafter : (updatePendingPlan collate lock s).1.get collate database dbType = some row := by
        rw [LockDb.get_eq, hrow]
        rfl
      refine ⟨.inr ⟨row, hrow, hrowner ▸ hname⟩, fun h => ?_, ?_⟩
      · simpa [hbefore, hafter, LockOp.owns, ho, hrowner] using h
      · by_cases hrows : 0 < (updatePendingPlan collate lock s).2
        · refine .inr ⟨?_, ?_⟩
          · rw [hbefore, hafter]
            exact hview.refreshed ho hrowner hplan hp.1
          · simp only [if_pos hrows]
            rfl
        · -- no row is affected: the plan was there
          obtain ⟨hsame, hpl⟩ := hzero (Nat.eq_zero_of_not_pos hrows)
          rw [hsame]
          refine .inl ⟨rfl, ?_⟩
          simp only [if_neg hrows]
          have hagain := hview.again ho fun _ => .inr hpl.symm
          refine implements_reread hview hon (.inr (allowed_of_get hbefore hagain)) fun h => ?_
          simp [h, hbefore, LockOp.owns, ho]
    · -- the lock was released since
      have hstrict : strict = false := by
        by_contra hstrict
        rw [Bool.not_eq_false] at hstrict
        have hmark := hmark (hm hstrict)
        rcases hs.cases with ⟨-, hget⟩ | ⟨l, hl, hget, -⟩
        · simp [hget, LockOp.owns] at hmark
        · refine hown ⟨l, hl, ?_⟩
          simpa [hstrict, hget, LockOp.owns] using hmark
      have hother : ∀ l ∈ s.slot collate database dbType, collate l.owner ≠ collate lock.owner := by
        intro l hl ho
        rcases hs with hnil | ⟨l', hl', hname'⟩
        · rw [hnil] at hl
          cases hl
        · rw [hl', List.mem_singleton] at hl
          subst hl
          exact hown ⟨l, hl', hnames _ _ hname' hname ho⟩
      rw [slot_updatePendingPlan_other hon hother]
      refine ⟨hs, id, .inl ⟨rfl, implements_reread hview hon (.inl (hv fun h => ?_)) fun h => ?_⟩⟩ <;>
      · rw [hstrict] at h
        cases h

theorem implements_acquireExisting {s : LockDb} (hget : s.get collate database dbType = some existing) :
    ImplementsLock collate database dbType named strict view spec (.acquire lock)
      (fun r => v r ∨ spec (view (some existing)) (.acquire lock) r = some (view (some existing)))
      (lockMark collate database dbType strict (.acquire lock) s) (acquireExisting collate lock existing) := by
  unfold acquireExisting
  split
  · next ho => exact .inr (hview.held ho)
  · next ho =>
    have hown : existing.owner = lock.owner := not_not.1 ho
    refine implements_refreshPendingPlanID hview hon hnames hname (fun h => ?_) fun hp =>
      .inr (hview.again hown hp)
    simp [h, hget, LockOp.owns, hown]

theorem implements_acquireOnce (v : Except LockError Unit → Prop) (m : Bool) :
    ImplementsLock collate database dbType named strict view spec (.acquire lock) v m
      (acquireOnce collate lock) := by
  refine Method.implements_read_bind fun s hs _ => ?_
  rw [get_of_isFor hon]
  cases hget : s.get collate database dbType with
  | some existing => exact implements_acquireExisting hview hon hnames hname hget
  | none =>
    refine implements_writeLocks (fun s' => .inr (hview.lockConflict _ _)) fun s' hs' _ => ?_
    rcases slot_insertLock hon with ⟨hins, hne⟩ | ⟨hnil, hins, row, hrow, hrowner, hplan⟩
    · -- the insert lost
      rw [hins]
      refine ⟨hs', id, .inl ⟨rfl, ?_⟩⟩
      refine Method.implements_read_bind fun s'' hs'' hm'' => ?_
      rw [get_of_isFor hon]
      cases hget'' : s''.get collate database dbType with
      | some winner => exact implements_acquireExisting hview hon hnames hname hget''
      | none =>
        obtain ⟨l, hl, hgetl, -⟩ := hs'.cases.resolve_left fun h => hne h.1
        by_cases ho : l.owner = lock.owner
        · -- to its own owner's row, which is only missed under a specification that is not strict
          cases hstrict : strict with
          | true =>
            have := hm'' (by simp [hstrict, hgetl, LockOp.owns, ho])
            simp [hget'', LockOp.owns] at this
          | false => exact .inr (hview.gone hstrict (.inl rfl))
        · exact .inl (.inr (allowed_of_get hgetl (hview.held ho)))
    · have hbefore : s'.get collate database dbType = none := by
        rw [LockDb.get_eq, hnil]
        rfl
      have hafter : (insertLock collate lock s').1.get collate database dbType = some row := by
        rw [LockDb.get_eq, hrow]
        rfl
      refine ⟨.inr ⟨row, hrow, hrowner ▸ hname⟩, fun h => ?_, .inr ⟨?_, ?_⟩⟩
      · simp [lockMark, hbefore, LockOp.owns] at h
      · rw [hbefore, hafter]
        exact hview.taken hrowner hplan
      · simp only [hins]
        rfl

theorem implements_withLockRetry (n : Nat) :
    ∀ {v : Except LockError Unit → Prop} {m : Bool}, (n = 0 → v (.error .lockConflict)) →
      ImplementsLock collate database dbType named strict view spec (.acquire lock) v m
        (withLockRetry (acquireOnce collate lock) n) := by
  induction n with
  | zero => exact fun hv => hv rfl
  | succ n ih =>
    intro v m _
    refine Prog.Implements.bind ((implements_acquireOnce hview hon hnames hname v m).mono
      (fun v m b hb => ?_) fun r b hrb => ?_)
    · match b, hb with
      | .ok _, hb => exact hb
      | .error .lockConflict, hb => exact ih fun _ => hb
      | .error .held, hb | .error .notFound, hb | .error .notOwned, hb => exact hb
    · obtain ⟨rfl, rfl⟩ := hrb
      exact ⟨_, rfl, rfl, rfl⟩

end

theorem implements_releaseLock {database' dbType' owner : String} (hview : Explains strict view spec)
    (hnames : ∀ a b, named a → named b → collate a = collate b → a = b)
    (hd : collate database' = collate database) (ht : collate dbType' = collate dbType) (hname : named owner) :
    ImplementsLock collate database dbType named strict view spec (.release database' dbType' owner) v m
      (releaseLock collate database' dbType' owner) := by
  refine implements_writeLocks (fun s => .inr (hview.lockConflict _ _)) fun s hs _ => ?_
  rcases slot_deleteLock owner hd ht hs with ⟨hzero, hslot, hother⟩ | ⟨hrows, hslot, l, hl, hln, ho⟩
  · obtain ⟨hget, hone⟩ := LockDb.congr_slot named hslot
    refine ⟨hone hs, fun h => by simp [LockOp.owns] at h, .inl ⟨congrArg view hget, ?_⟩⟩
    have hrefused : ∀ l, s.get collate database dbType = some l → l.owner ≠ owner := by
      intro l hl
      rw [LockDb.get_eq] at hl
      exact hother l (List.mem_of_head? hl)
    simp only [hzero]
    refine Method.implements_read_bind fun s' _ _ => ?_
    cases s'.get collate database' dbType' with
    | none => exact .inl (.inr (hview.refused hrefused (.inl rfl)))
    | some l => exact .inl (.inr (hview.refused hrefused (.inr rfl)))
  · obtain rfl : l.owner = owner := hnames _ _ hln hname ho
    refine ⟨.inl hslot, fun h => by simp [LockOp.owns] at h, .inr ⟨?_, ?_⟩⟩
    · rw [LockDb.get_eq, hl, LockDb.get_eq, hslot]
      exact hview.released
    · simp only [if_neg hrows]
      rfl

theorem lockObject_correct (hview : Explains strict view spec)
    (hnames : ∀ a b, named a → named b → collate a = collate b → a = b)
    (hon : op.isOn collate database dbType = true) (hname : named op.owner) :
    (lockObject collate database dbType).Correct (lockMark collate database dbType strict)
      (LockDb.OneRow collate database dbType named) (fun s => view (s.get collate database dbType))
      spec op := by
  cases op with
  | acquire lock =>
    refine (implements_withLockRetry hview hon hnames hname lockRetryMaxAttempts nofun).mono
      (fun _ _ _ => id) ?_
    exact fun r b h => h.1
  | release database' dbType' owner =>
    simp only [LockOp.isOn, Bool.and_eq_true, decide_eq_true_eq] at hon
    refine (implements_releaseLock hview hnames hon.1 hon.2 hname).mono (fun _ _ _ => id) ?_
    exact fun r b h => h.1

theorem lockObject_linearizable (hview : Explains strict view spec)
    (hnames : ∀ a b, named a → named b → collate a = collate b → a = b) {bs : List (Move LockOp LockEnv)}
    (hops : ∀ b ∈ bs, b.Valid fun op => op.isOn collate database dbType = true ∧ named op.owner)
    (hrun : Transition.Along (lockObject collate database dbType).step
      (fun w b => (lockObject collate database dbType).breaks (lockMark collate database dbType strict) w b =
        false) { state := {} } bs) :
    ∃ l, Linearization spec (view none)
      (Transition.run (lockObject collate database dbType).step { state := {} } bs).history l
      (view ((Transition.run (lockObject collate database dbType).step { state := {} } bs).state.get
        collate database dbType)) := by
  refine Object.linearizable (.inl rfl)
    (fun b hb => (hops b hb).mono fun op hop => lockObject_correct hview hnames hop.1 hop.2)
    (fun e s hs => ?_) hrun
  obtain ⟨hget, hone⟩ := LockDb.congr_slot named (lockObject_env e)
  exact ⟨hone hs, congrArg view hget⟩

end

/-! ## Histories -/

/-- Calls on one lock, by owners whose names the database tells apart. Every history has a linearization
that says who owns the lock, up to an `Acquire` that is refused where nobody does. In a run in which no
lock is deleted that an `Acquire` under way has found to be its owner's, the history has a linearization
by the sequential lock. Both end with what the table says. -/
theorem lock_histories_linearizable (collate : String → String) (database dbType : String)
    (named : String → Prop) (hnames : ∀ a b, named a → named b → collate a = collate b → a = b)
    {bs : List (Move LockOp LockEnv)}
    (hops : ∀ b ∈ bs, b.Valid fun op => op.isOn collate database dbType = true ∧ named op.owner) :
    (∃ l, Linearization ownerSpec none
      (Transition.run (lockObject collate database dbType).step { state := {} } bs).history l
      ((Transition.run (lockObject collate database dbType).step { state := {} } bs).state.owner
        collate database dbType)) ∧
    (Transition.Along (lockObject collate database dbType).step
      (fun w b => (lockObject collate database dbType).breaks
        (fun op s => op.owns (s.get collate database dbType)) w b = false) { state := {} } bs →
      ∃ l, Linearization lockSpec none
        (Transition.run (lockObject collate database dbType).step { state := {} } bs).history l
        ((Transition.run (lockObject collate database dbType).step { state := {} } bs).state.holder
          collate database dbType)) :=
  ⟨lockObject_linearizable explains_ownerSpec hnames hops Object.along_breaks_never,
    fun hrun => lockObject_linearizable explains_lockSpec hnames hops hrun⟩

def sampleLocks : Object LockDb LockOp (Except LockError Unit) LockEnv :=
  lockObject (fun name => name) "shop" "mysql"

def sampleAcquire (owner plan : String) : LockOp :=
  .acquire { databaseName := "shop", databaseType := "mysql", owner, pendingPlanId := plan }

/-- Two owners race for the lock. The second one reads an empty table, loses its insert after a lock
conflict and reads again; the first one brings another plan, and releases the lock. -/
def racingOwners : List (Move LockOp LockEnv) :=
  [.invoke (sampleAcquire "app#1" "plan-1"), .invoke (sampleAcquire "app#2" "plan-2"),
    .advance 0, .advance 1, .advance 0, .advance 0,
    .invoke (sampleAcquire "app#1" "plan-3"), .env .conflict, .advance 1, .env (.tick 1),
    .advance 2, .advance 2, .advance 2, .advance 1, .advance 1,
    .invoke (.release "shop" "mysql" "app#1"), .advance 3, .advance 3]

/-- Both acquires of the first owner are granted, and the second owner is told that the lock is held. -/
theorem lock_histories_linearizable_racing :
    ((Transition.run sampleLocks.step { state := {} } racingOwners).history =
      [.invoke 0 (sampleAcquire "app#1" "plan-1"), .invoke 1 (sampleAcquire "app#2" "plan-2"),
        .respond 0 (.ok ()), .invoke 2 (sampleAcquire "app#1" "plan-3"), .respond 2 (.ok ()),
        .respond 1 (.error .held), .invoke 3 (.release "shop" "mysql" "app#1"),
        .respond 3 (.ok ())]) ∧
    ∃ l, Linearization lockSpec none
      (Transition.run sampleLocks.step { state := {} } racingOwners).history l
      ((Transition.run sampleLocks.step { state := {} } racingOwners).state.holder
        (fun name => name) "shop" "mysql") :=
  ⟨by decide +kernel,
    (lock_histories_linearizable (fun name => name) "shop" "mysql"
      (fun name => name ∈ ["app#1", "app#2"]) (fun _ _ _ _ h => h) (by decide +kernel)).2
      (by decide +kernel)⟩

def releasedUnderAcquire : List (Move LockOp LockEnv) :=
  [.invoke (sampleAcquire "app#1" "plan-1"), .advance 0, .advance 0, .advance 0,
    .invoke (sampleAcquire "app#1" "plan-2"), .advance 1,
    .invoke (.release "shop" "mysql" "app#1"), .advance 2, .advance 2,
    .advance 1, .advance 1, .advance 1]

/-- The second acquire says that there is no such lock, which no order of the calls explains: an acquire
that finds no lock takes it. -/
theorem acquire_reports_lock_not_found : .respond 1 (.error .notFound) ∈
      (Transition.run sampleLocks.step { state := {} } releasedUnderAcquire).history ∧
    ¬ ∃ l b, Linearization lockSpec none
      (Transition.run sampleLocks.step { state := {} } releasedUnderAcquire).history l b := by
  have hhistory : (Transition.run sampleLocks.step { state := {} } releasedUnderAcquire).history =
      [.invoke 0 (sampleAcquire "app#1" "plan-1"), .respond 0 (.ok ()),
        .invoke 1 (sampleAcquire "app#1" "plan-2"), .invoke 2 (.release "shop" "mysql" "app#1"),
        .respond 2 (.ok ()), .respond 1 (.error .notFound)] := by decide +kernel
  rw [hhistory]
  refine ⟨by simp, fun ⟨l, b, hl⟩ => ?_⟩
  obtain ⟨e, he, hid, hresult⟩ := hl.responded 1 (.error .notFound) (by simp)
  have hop : e.op = sampleAcquire "app#1" "plan-2" := by
    have hinvoked := hl.invoked e he
    simpa [hid] using hinvoked
  obtain ⟨x, hx⟩ := Spec.allowed_of_mem hl.legal he
  rw [hop, hresult] at hx
  cases x <;> exact hx rfl

end SchemaBot
