import SchemaBot.Operator.Projection
import SchemaBot.Storage.OperationRows

/-!
# Operators over one store

The system that the operators of `pkg/api/operator.go` make up with the rest of the service.
-/

namespace SchemaBot

open Concurrent

/-! ## The system -/

def OperationLease.ctx (d : OperationLease) : Ctx := { operationLease := some d }

/-- A call of `updateApplyStateFromOperations` under way: the apply as its caller read it, and the
operations once they are listed. -/
structure Projection where
  ctx : Ctx
  apply : Apply
  reopen : Bool
  rows : Option (List ApplyOperation) := none
  deriving DecidableEq

structure World where
  store : Store := {}
  drives : List OperationLease := []
  projections : List Projection := []
  deriving DecidableEq

inductive Action
  | call (c : Call)
  | claim (owner : String) (locked : Nat → Bool)
  | claimCutover (owner : String) (locked : Nat → Bool)
  | markStarted (d : OperationLease)
  | stopUndispatched (d : OperationLease) (terminates : Bool)
  | settle (d : OperationLease) (derived : ApplyState) (errorMessage : String)
  | crash (d : OperationLease)
  | reconcile (id : Nat) (derived : ApplyState) (errorMessage : String)
  | loadParent (ctx : Ctx) (applyId : Nat) (reopen : Bool)
  | listOperations (p : Projection)
  | project (p : Projection)

/-- The calls that the service makes outside its drives: the state of an operation is written by drives
and claims only, and applies are created pending with pending operations. -/
def Call.outsideDrives : Call → Bool
  | .findNextApplyOperation .. | .findNextApplyOperationCutover .. | .updateState .. | .markStarted ..
  | .markTerminal .. | .markFailed .. => false
  | .create a => a.state = .pending
  | .createWithTasksAndOperations a _ ops => a.state = .pending && ops.all (·.state = .pending)
  | .createWithGroupedOperations a groups =>
    a.state = .pending && groups.all (·.operation.state = .pending)
  | _ => true

def Store.isSingle (s : Store) (id : Nat) : Bool :=
  s.operations.all fun o => o.id ≠ id || !s.hasSibling o

namespace World

def endDrive (w : World) (d : OperationLease) : World :=
  { w with drives := w.drives.filter (·.token ≠ d.token) }

def run {α : Type} (w : World) (m : StoreMethod α) : World :=
  { w with store := (Method.call m w.store).1 }

def claimed (w : World) (r : Store × Except StoreError (Option ApplyOperation)) : World :=
  match r.2 with
  | .ok (some op) => { w with store := r.1, drives := op.lease :: w.drives }
  | _ => { w with store := r.1 }

/-- The operation write of `stopUndispatchedApplyOperation`. -/
def stopUndispatchedMethod (d : OperationLease) (terminates : Bool) : StoreMethod Unit :=
  if terminates then SchemaBot.markTerminal d.ctx d.operationId .cancelled
  else SchemaBot.updateState d.ctx d.operationId .stopped

def step (w : World) : Action → World
  | .call c => if c.outsideDrives then w.run c.method else w
  | .claim owner locked => w.claimed (Method.call (findNextApplyOperation owner locked) w.store)
  | .claimCutover owner locked =>
    w.claimed (Method.call (findNextApplyOperationCutover owner locked) w.store)
  | .markStarted d => if d ∈ w.drives then w.run (SchemaBot.markStarted d.ctx d.operationId) else w
  | .stopUndispatched d terminates =>
    if d ∈ w.drives then w.run (stopUndispatchedMethod d terminates) else w
  | .settle d derived errorMessage =>
    if d ∈ w.drives then
      (w.run (persistOperationState d.ctx d.operationId derived errorMessage)).endDrive d
    else w
  | .crash d => w.endDrive d
  -- `reconcileUnclaimableParent` writes without a lease, for an apply with one operation
  | .reconcile id derived errorMessage =>
    if w.store.isSingle id then w.run (persistOperationState {} id derived errorMessage) else w
  | .loadParent ctx applyId reopen =>
    match w.store.getApply applyId with
    | some apply => { w with projections := ⟨ctx, apply, reopen, none⟩ :: w.projections }
    | none => w
  | .listOperations p =>
    if p ∈ w.projections then
      { w with projections :=
          { p with rows := some (w.store.listByApply p.apply.id) } :: w.projections.erase p }
    else w
  | .project p =>
    match p.rows with
    | some ops =>
      if p ∈ w.projections then
        { w.run (writeProjection p.ctx p.apply ops p.reopen) with
          projections := w.projections.erase p }
      else w
    | none => w

end World

/-! ## The states that drives write -/

def driveStates : List ApplyState :=
  [.running, .completed, .failed, .stopped, .failedRetryable, .waitingForCutover, .cancelled, .reverted]

section
variable (ctx : Ctx) (id : Nat) (derived : ApplyState) (errorMessage : String) (s : Store)

theorem rows_persistOperationState_eq :
    List.Forall₂ (RowShift fun o q => (o.id = id ∧ ctx.Owns o ∧ q = derived) ∧ derived ∈ driveStates)
      s.operations (Method.call (persistOperationState ctx id derived errorMessage) s).1.operations := by
  have hmono : ∀ {st : ApplyState} {o o' : ApplyOperation}, st ∈ driveStates →
      RowShift (fun o q => o.id = id ∧ ctx.Owns o ∧ q = st) o o' →
      RowShift (fun o q => (o.id = id ∧ ctx.Owns o ∧ q = st) ∧ st ∈ driveStates) o o' :=
    fun hst ho => ho.mono fun h => ⟨h, hst⟩
  unfold persistOperationState
  split
  case h_8 => exact List.forall₂_same.2 fun o _ => .refl o
  all_goals rw [Method.call_bind_pure _ fun _ => true]
  case h_1 => exact (rows_markTerminal ctx id .completed s).imp fun _ _ => hmono (by decide)
  case h_2 => exact (rows_markFailed ctx id errorMessage s).imp fun _ _ => hmono (by decide)
  case h_3 => exact (rows_updateState ctx id .stopped s).imp fun _ _ => hmono (by decide)
  case h_4 => exact (rows_updateState ctx id .failedRetryable s).imp fun _ _ => hmono (by decide)
  case h_5 => exact (rows_updateState ctx id .waitingForCutover s).imp fun _ _ => hmono (by decide)
  case h_6 => exact (rows_markTerminal ctx id .cancelled s).imp fun _ _ => hmono (by decide)
  case h_7 => exact (rows_markTerminal ctx id .reverted s).imp fun _ _ => hmono (by decide)

theorem rows_persistOperationState :
    List.Forall₂ (RowShift fun o q => o.id = id ∧ ctx.Owns o ∧ q ∈ driveStates) s.operations
      (Method.call (persistOperationState ctx id derived errorMessage) s).1.operations :=
  (rows_persistOperationState_eq ctx id derived errorMessage s).imp fun _ _ ho =>
    ho.mono fun ⟨⟨hid, howns, hq⟩, hmem⟩ => ⟨hid, howns, hq ▸ hmem⟩

end

theorem rows_stopUndispatched (d : OperationLease) (terminates : Bool) (s : Store) :
    List.Forall₂ (RowShift fun o q => o.id = d.operationId ∧ d.ctx.Owns o ∧
        (q = .stopped ∨ q = .cancelled)) s.operations
      (Method.call (World.stopUndispatchedMethod d terminates) s).1.operations := by
  unfold World.stopUndispatchedMethod
  split
  · exact (rows_markTerminal _ _ _ s).imp fun _ _ ho =>
      ho.mono fun ⟨hid, howns, hq⟩ => ⟨hid, howns, .inr hq⟩
  · exact (rows_updateState _ _ _ s).imp fun _ _ ho =>
      ho.mono fun ⟨hid, howns, hq⟩ => ⟨hid, howns, .inl hq⟩

/-! ## What a step does -/

section
variable {w : World} {a : Action} {apply : Apply} {c : Call} {d : OperationLease} {o' : ApplyOperation}
  {ops : List ApplyOperation} {t : Store}

theorem safe_persistOperationState (ctx : Ctx) (id : Nat) (derived : ApplyState)
    (errorMessage : String) : Safe (persistOperationState ctx id derived errorMessage) := by
  unfold persistOperationState
  split
  case h_8 => exact .pure _
  all_goals exact .bind (safe_execStateUpdate ctx id fun _ _ => ⟨rfl, rfl⟩) fun _ => .pure _

theorem safe_stopUndispatched (d : OperationLease) (terminates : Bool) :
    Safe (World.stopUndispatchedMethod d terminates) := by
  unfold World.stopUndispatchedMethod
  split <;> exact safe_execStateUpdate _ _ fun _ _ => ⟨rfl, rfl⟩

theorem safe_writeProjection (ctx : Ctx) (apply : Apply) (ops : List ApplyOperation) (reopen : Bool) :
    Safe (writeProjection ctx apply ops reopen) := by
  refine .bind (.read _) fun now => .bind (.lift _) fun projected => ?_
  cases projected with
  | none => exact .pure _
  | some p => exact safe_updateDerivedState ..

theorem keepsRows_writeProjection (ctx : Ctx) (apply : Apply) (ops : List ApplyOperation)
    (reopen : Bool) : KeepsRows (writeProjection ctx apply ops reopen) := by
  have hrefl : ∀ s : Store, List.Forall₂ RowKept s.operations s.operations := fun _ =>
    rowKept_of_eq rfl
  refine .bind (.read hrefl _) fun now => .bind (.lift _) fun projected => ?_
  cases projected with
  | none => exact .pure _
  | some p => exact always_updateDerivedState hrefl fun _ => .step fun _ => rowKept_of_eq rfl

theorem World.claimed_store (r : Store × Except StoreError (Option ApplyOperation)) :
    (w.claimed r).store = r.1 := by
  unfold claimed
  split <;> rfl

theorem World.next_step (hw : w.store.WF) (a : Action) : w.store.Next (w.step a).store := by
  have hrefl := Store.Next.refl hw
  cases a with
  | call c =>
    simp only [step]
    split
    · exact c.safe.next hw
    · exact hrefl
  | claim owner locked =>
    have h := (Call.findNextApplyOperation owner locked).safe.next hw
    rw [Call.method, Method.call_discard] at h
    rw [step, claimed_store]
    exact h
  | claimCutover owner locked =>
    have h := (Call.findNextApplyOperationCutover owner locked).safe.next hw
    rw [Call.method, Method.call_discard] at h
    rw [step, claimed_store]
    exact h
  | markStarted d =>
    simp only [step]
    split
    · exact (Call.markStarted d.ctx d.operationId).safe.next hw
    · exact hrefl
  | stopUndispatched d terminates =>
    simp only [step]
    split
    · exact (safe_stopUndispatched d terminates).next hw
    · exact hrefl
  | settle d derived errorMessage =>
    simp only [step]
    split
    · exact (safe_persistOperationState d.ctx d.operationId derived errorMessage).next hw
    · exact hrefl
  | crash d => exact hrefl
  | reconcile id derived errorMessage =>
    simp only [step]
    split
    · exact (safe_persistOperationState {} id derived errorMessage).next hw
    · exact hrefl
  | loadParent ctx applyId reopen | listOperations p =>
    simp only [step]
    split <;> exact hrefl
  | project p =>
    simp only [step]
    split
    · split
      · exact Safe.next (safe_writeProjection _ _ _ _) hw
      · exact hrefl
    · exact hrefl

inductive World.RowStep (w : World) (a : Action) (o o' : ApplyOperation) : Prop
  | kept (ht : o'.leaseToken = o.leaseToken) (hs : o'.state = o.state)
  | stopped (ht : o'.leaseToken = o.leaseToken) (ho : o.state = .pending) (hs : o'.state = .stopped)
      (hnone : ∀ r ∈ (w.step a).store.operations, r.applyId = o.applyId → r.state ≠ .pending)
  | expired (ha : a = .call .expireRetryable) (ht : o'.leaseToken = o.leaseToken)
      (ho : o.state = .failedRetryable) (hid : o.applyId ∈ w.store.expiredIds) (hs : o'.state = .failed)
  | claimed (h : w.store.claimableOperation o = true) (ht : o'.leaseToken = w.store.nextToken)
      (hs : o'.state = claimedState o.state)
  | cutover (h : w.store.claimableCutover o = true) (ht : o'.leaseToken = w.store.nextToken)
      (hs : o'.state = cutoverState o.state)
  | driven (d : OperationLease) (hd : d ∈ w.drives) (ho : o.leaseToken = d.token)
      (ht : o'.leaseToken = o.leaseToken) (hs : o'.state ∈ driveStates)
      (hend : o'.settled = true → ∀ e ∈ (w.step a).drives, e.token ≠ d.token)
  | reconciled (h : w.store.hasSibling o = false) (ht : o'.leaseToken = o.leaseToken)
      (hs : o'.state ∈ driveStates)

def Call.creates : Call → Option (Apply × List ApplyOperation)
  | .create apply => some (apply, [])
  | .createWithTasksAndOperations apply _ ops => some (apply, ops)
  | .createWithGroupedOperations apply groups => some (apply, groups.map (·.operation))
  | _ => none

def Action.creates : Action → Option (Apply × List ApplyOperation)
  | .call c => c.creates
  | _ => none

structure World.NewRow (w : World) (a : Action) (o' : ApplyOperation) : Prop where
  state : o'.state = .pending
  leaseToken : o'.leaseToken = 0
  applyId : o'.applyId = w.store.nextApply
  parent : ∀ x ∈ (w.step a).store.applies, x.id = w.store.nextApply → x.state = .pending
  creates : a.creates ≠ none

def World.RowFrom (w : World) (a : Action) (o' : ApplyOperation) : Prop :=
  (∃ o ∈ w.store.operations, o'.identity = o.identity ∧ w.RowStep a o o') ∨ w.NewRow a o'

theorem World.rowFrom_of_kept (ho' : o' ∈ t.operations)
    (h : List.Forall₂ RowKept w.store.operations t.operations) : w.RowFrom a o' := by
  obtain ⟨o, ho, hrow⟩ := Table.forall₂_mem_right h ho'
  exact .inl ⟨o, ho, hrow.identity, .kept hrow.leaseToken (hrow.state.resolve_right id)⟩

theorem World.rowFrom_of_shift {P : ApplyOperation → ApplyState → Prop} (ho' : o' ∈ t.operations)
    (h : List.Forall₂ (RowShift P) w.store.operations t.operations)
    (hP : ∀ o ∈ w.store.operations, o'.leaseToken = o.leaseToken → P o o'.state → w.RowStep a o o') :
    w.RowFrom a o' := by
  obtain ⟨o, ho, hrow⟩ := Table.forall₂_mem_right h ho'
  refine .inl ⟨o, ho, hrow.identity, ?_⟩
  rcases hrow.state with hst | hst
  · exact .kept hrow.leaseToken hst
  · exact hP o ho hrow.leaseToken hst

theorem World.rowFrom_self (ho' : o' ∈ w.store.operations) : w.RowFrom a o' :=
  .inl ⟨o', ho', rfl, .kept rfl rfl⟩

theorem Store.after_creates (h : c.creates = some (apply, ops)) (s : Store) :
    s.after c = s ∨ s.Created apply ops (s.after c) := by
  unfold Store.after
  cases c with
  | create apply' =>
    cases h
    rw [Call.method, Method.call_discard]
    rcases created_create s apply with ⟨e, he⟩ | ⟨t, he, h⟩ <;> rw [he]
    · exact .inl rfl
    · exact .inr h
  | createWithTasksAndOperations apply' tasks ops' =>
    cases h
    rw [Call.method, Method.call_discard]
    rcases created_createWithTasksAndOperations s apply tasks ops with ⟨e, he⟩ | ⟨t, he, h⟩ <;> rw [he]
    · exact .inl rfl
    · exact .inr h
  | createWithGroupedOperations apply' groups =>
    cases h
    rw [Call.method, Method.call_discard]
    rcases created_createWithGroupedOperations s apply groups with ⟨e, he⟩ | ⟨t, he, h⟩ <;> rw [he]
    · exact .inl rfl
    · exact .inr h
  | _ => cases h

theorem Call.creates_pending (hc : c.outsideDrives = true) (h : c.creates = some (apply, ops)) :
    apply.state = .pending ∧ ∀ op ∈ ops, op.state = .pending := by
  cases c with
  | create apply' => cases h; exact ⟨of_decide_eq_true hc, List.forall_mem_nil _⟩
  | createWithTasksAndOperations apply' tasks ops' =>
    cases h
    obtain ⟨happly, hops⟩ := Bool.and_eq_true_iff.1 hc
    exact ⟨of_decide_eq_true happly, fun op hop => of_decide_eq_true (List.all_eq_true.1 hops op hop)⟩
  | createWithGroupedOperations apply' groups =>
    cases h
    obtain ⟨happly, hops⟩ := Bool.and_eq_true_iff.1 hc
    refine ⟨of_decide_eq_true happly, fun op hop => ?_⟩
    obtain ⟨g, hg, rfl⟩ := List.mem_map.1 hop
    exact of_decide_eq_true (List.all_eq_true.1 hops g hg)
  | _ => cases h

theorem World.step_call (hc : c.outsideDrives = true) : (w.step (.call c)).store = w.store.after c := by
  simp only [step, if_pos hc]
  rfl

theorem World.rows_creates (hw : w.store.WF) (hc : c.outsideDrives = true) (hcr : c.creates = some (apply, ops))
    (ho' : o' ∈ (w.store.after c).operations) : w.RowFrom (.call c) o' := by
  rcases w.store.after_creates hcr with h | h
  · rw [h] at ho'
    exact rowFrom_self ho'
  · obtain ⟨happly, hops⟩ := Call.creates_pending hc hcr
    rw [h.operations] at ho'
    rcases List.mem_append.1 ho' with ho' | ho'
    · exact rowFrom_self ho'
    · obtain ⟨op, hop, k, -, rfl⟩ := mem_operationRows ho'
      refine .inr ⟨hops op hop, rfl, rfl, fun x hx hid => ?_, by simp [Action.creates, hcr]⟩
      rw [step_call hc, h.applies] at hx
      rcases List.mem_append.1 hx with hx | hx
      · have : x.id < w.store.nextApply := hw.applyIds_lt x hx
        omega
      · rw [List.mem_singleton.1 hx]
        exact happly

theorem World.rows_call (hw : w.store.WF) (hc : c.outsideDrives = true)
    (ho' : o' ∈ (w.store.after c).operations) : w.RowFrom (.call c) o' := by
  cases hb : c.background with
  | true => exact rowFrom_of_kept ho' ((c.keepsRows hb).call w.store)
  | false =>
    cases c with
    | create | createWithTasksAndOperations | createWithGroupedOperations =>
      exact rows_creates hw hc rfl ho'
    | markPendingStoppedByApply ctx applyId =>
      rw [Store.after, Call.method, Method.call_discard] at ho'
      refine rowFrom_of_shift ho' (rows_markPendingStoppedByApply ctx applyId w.store)
        fun o _ ht h => .stopped ht h.1 h.2.1 ?_
      rw [step_call hc, Store.after, Call.method, Method.call_discard]
      exact h.2.2
    | expireRetryable =>
      exact rowFrom_of_shift ho' (rows_expireRetryable w.store)
        fun o _ ht h => .expired rfl ht h.1 h.2.1 h.2.2
    | findNextApplyOperation | findNextApplyOperationCutover | updateState | markStarted | markTerminal
    | markFailed => cases hc
    | _ => cases hb

theorem World.rows_step (hw : w.store.WF) (a : Action)
    (ho' : o' ∈ (w.step a).store.operations) : w.RowFrom a o' := by
  cases a with
  | call c =>
    simp only [step] at ho'
    split at ho'
    · next hc => exact rows_call hw hc ho'
    · exact rowFrom_self ho'
  | claim owner locked =>
    rw [step, claimed_store] at ho'
    obtain ⟨o, ho, hid, hrow⟩ := rows_claimOperation hw
      (fun op => w.store.claims_persistOperationClaim) locked _ ho'
    refine .inl ⟨o, ho, hid, ?_⟩
    rcases hrow with ⟨ht, hst⟩ | ⟨hcl, ht, hst⟩
    · exact .kept ht hst
    · exact .claimed hcl ht hst
  | claimCutover owner locked =>
    rw [step, claimed_store] at ho'
    obtain ⟨o, ho, hid, hrow⟩ := rows_claimOperation hw
      (fun op => w.store.claims_persistCutoverClaim) locked _ ho'
    refine .inl ⟨o, ho, hid, ?_⟩
    rcases hrow with ⟨ht, hst⟩ | ⟨hcl, ht, hst⟩
    · exact .kept ht hst
    · exact .cutover hcl ht hst
  | markStarted d =>
    simp only [step] at ho'
    split at ho'
    · next hd =>
      refine rowFrom_of_shift ho' (rows_markStarted d.ctx d.operationId w.store)
        fun o _ ht h => .driven d hd (h.2.1 d rfl) ht (by rw [h.2.2]; decide) ?_
      intro hset
      rw [ApplyOperation.settled, h.2.2] at hset
      cases hset
    · exact rowFrom_self ho'
  | stopUndispatched d terminates =>
    simp only [step] at ho'
    split at ho'
    · next hd =>
      refine rowFrom_of_shift ho' (rows_stopUndispatched d terminates w.store)
        fun o _ ht h => .driven d hd (h.2.1 d rfl) ht ?_ ?_
      · rcases h.2.2 with hq | hq <;> rw [hq] <;> decide
      · intro hset
        rcases h.2.2 with hq | hq <;> rw [ApplyOperation.settled, hq] at hset <;> cases hset
    · exact rowFrom_self ho'
  | settle d derived errorMessage =>
    simp only [step] at ho'
    split at ho'
    · next hd =>
      refine rowFrom_of_shift ho' (rows_persistOperationState _ _ _ _ w.store)
        fun o _ ht h => .driven d hd (h.2.1 d rfl) ht h.2.2 ?_
      intro _ e he
      simp only [step, if_pos hd, endDrive, List.mem_filter, decide_eq_true_eq] at he
      exact he.2
    · exact rowFrom_self ho'
  | reconcile id derived errorMessage =>
    simp only [step] at ho'
    split at ho'
    · next hsingle =>
      refine rowFrom_of_shift ho' (rows_persistOperationState _ _ _ _ w.store)
        fun o ho ht h => .reconciled ?_ ht h.2.2
      have := List.all_eq_true.1 hsingle o ho
      simpa [h.1] using this
    · exact rowFrom_self ho'
  | crash d => exact rowFrom_self ho'
  | loadParent ctx applyId reopen | listOperations p =>
    simp only [step] at ho'
    split at ho' <;> exact rowFrom_self ho'
  | project p =>
    simp only [step] at ho'
    split at ho'
    · split at ho'
      · exact rowFrom_of_kept ho' ((keepsRows_writeProjection _ _ _ _).call w.store)
      · exact rowFrom_self ho'
    · exact rowFrom_self ho'

theorem World.drives_claimed {wanted : Store → ApplyOperation → Bool}
    {persist : Store → ApplyOperation → String → Store × Option ApplyOperation}
    {f : ApplyState → ApplyState} {owner : String} (hw : w.store.WF)
    (hclaims : ∀ op, (∀ o ∈ w.store.operations, o.id = op.id → o = op) →
      w.store.Claims op (f op.state) (persist w.store op owner).1 (persist w.store op owner).2)
    {locked : Nat → Bool} {message : String}
    (hd : d ∈ (w.claimed (Method.call (claimOperation wanted persist locked owner message)
      w.store)).drives) :
    d ∈ w.drives ∨ d.token = w.store.nextToken ∧ w.store.nextToken <
      (Method.call (claimOperation wanted persist locked owner message) w.store).1.nextToken := by
  unfold claimed at hd
  split at hd
  · next op hop =>
    obtain ⟨_, -, -, hl, hn⟩ := result_claimOperation hw hclaims hop
    rcases List.mem_cons.1 hd with rfl | hd
    · exact .inr ⟨by rw [hl], by omega⟩
    · exact .inl hd
  · exact .inl hd

theorem World.drives_step (hw : w.store.WF) (a : Action) (hd : d ∈ (w.step a).drives) : d ∈ w.drives ∨
      d.token = w.store.nextToken ∧ w.store.nextToken < (w.step a).store.nextToken := by
  cases a with
  | claim owner locked =>
    rw [step, claimed_store]
    exact drives_claimed hw (fun op => w.store.claims_persistOperationClaim) hd
  | claimCutover owner locked =>
    rw [step, claimed_store]
    exact drives_claimed hw (fun op => w.store.claims_persistCutoverClaim) hd
  | settle d' derived errorMessage =>
    simp only [step] at hd
    split at hd
    · exact .inl (List.mem_filter.1 hd).1
    · exact .inl hd
  | crash d' => exact .inl (List.mem_filter.1 hd).1
  | loadParent ctx applyId reopen =>
    simp only [step] at hd
    split at hd <;> exact .inl hd
  | project p =>
    simp only [step] at hd
    split at hd
    · split at hd <;> exact .inl hd
    · exact .inl hd
  | _ =>
    simp only [step] at hd
    split at hd <;> exact .inl hd

end

end SchemaBot
