import SchemaBot.Storage.Creation
import SchemaBot.Storage.Safety
import SchemaBot.Tern.Resume

/-!
# The drive that `Apply` starts, and the operators

`LocalClient.Apply` (`pkg/tern/local_client.go`) inserts a pending apply with one pending operation and starts a
drive of it in the background, under a context without leases.
-/

namespace SchemaBot

open Concurrent

/-! ## The request -/

structure StoredPlan where
  plan : Plan
  database : String
  databaseType : String
  target : String := ""

/-- `ApplyRequest`, with the plan that `planForApplyRequest` resolves and the identifiers that `Apply`
draws. -/
structure ApplyRequest where
  planId : String
  environment : String
  database : String
  databaseType : String
  idempotencyKey : String := ""
  deferCutover : Bool := false
  deferDeploy : Bool := false
  plan : Option StoredPlan
  applyIdentifier : String
  taskIdentifier : Nat → String

def ApplyRequest.options (req : ApplyRequest) : ApplyOptions :=
  { deferCutover := req.deferCutover, deferDeploy := req.deferDeploy }

def existingIdempotentApply (req : ApplyRequest) : StoreMethod (Option Apply) :=
  if req.idempotencyKey = "" then pure none
  else do
    match ← Method.read fun s => s.applies.find? (·.idempotencyKey = req.idempotencyKey) with
    | none => pure none
    | some existing =>
      if existing.environment ≠ req.environment ∨ existing.database ≠ req.database ∨
          existing.databaseType ≠ req.databaseType then
        throw ⟨"idempotency key " ++ req.idempotencyKey ++ " already maps to apply " ++
          existing.applyIdentifier ++ "; refusing to alias request", .unnamed⟩
      else pure (some existing)

/-- The apply row that `Apply` builds. -/
def ApplyRequest.newApply (host : Host) (req : ApplyRequest) (plan : StoredPlan) : Apply :=
  { applyIdentifier := req.applyIdentifier, database := plan.database
    databaseType := plan.databaseType, environment := req.environment, deployment := host.database
    idempotencyKey := req.idempotencyKey, state := .pending
    options := some req.options }

/-- The tasks that `Apply` builds, one per table change. -/
def ApplyRequest.newTasks (req : ApplyRequest) (plan : StoredPlan) : List Task :=
  plan.plan.flatDDLChanges.mapIdx fun i change =>
    { taskIdentifier := req.taskIdentifier i, namespaceName := change.namespaceName
      tableName := change.table, ddl := change.ddl, ddlAction := change.operation }

/-- The operation that `Apply` builds; its policies are the defaults of the store. -/
def newOperation (host : Host) (plan : StoredPlan) : ApplyOperation :=
  { deployment := host.database, target := plan.target, state := .pending }

/-- How `Apply` answers. A started apply comes with what its drive gets to hold. -/
inductive ApplyResponse
  | existing (applyIdentifier : String)
  | refused (errorMessage : String)
  | started (apply : Apply) (operationId : Nat) (tasks : List Task) (plan : StoredPlan)

def resolveByKey (req : ApplyRequest) (otherwise : StoreMethod ApplyResponse) : StoreMethod ApplyResponse := do
  match ← existingIdempotentApply req with
  | some existing => pure (.existing existing.applyIdentifier)
  | none => otherwise

/-- `LocalClient.Apply`, up to the start of the drive. `conflict` is the verdict of
`checkActiveTaskConflict`. -/
def localApply (host : Host) (conflict : Store → Option String) (req : ApplyRequest) : StoreMethod ApplyResponse :=
  if req.planId = "" then throw ⟨"plan_id is required", .unnamed⟩
  else if req.environment = "" then throw ⟨"environment is required", .unnamed⟩
  else resolveByKey req <| match req.plan with
    | none => pure (.refused "plan not found")
    | some plan => do
      match ← Method.read conflict with
      | some errorMessage => resolveByKey req (pure (.refused errorMessage))
      | none =>
        match ← Method.outcome (createWithTasksAndOperations (req.newApply host plan)
            (req.newTasks plan) [newOperation host plan]) with
        | .error e => resolveByKey req (throw e)
        | .ok id => do
          -- the identifiers that creation assigned to the rows in memory
          let (operationId, tasks) ← Method.read fun s =>
            (((s.operations.filter (·.applyId = id)).map (·.id)).headD 0, s.tasks.filter (·.applyId = id))
          pure (.started { req.newApply host plan with id } operationId tasks plan)

/-! ## The system -/

/-- A drive: its apply and operation, the token of the claim that started it, `0` for the drive that
`Apply` starts, and what is left of it. -/
structure Drive where
  applyId : Nat
  operationId : Nat
  token : Nat
  rest : Prog Site (Except StoreError Unit)

structure Tern where
  site : Site := {}
  drives : List Drive := []

inductive TernAction
  | apply (req : ApplyRequest)
  | operate (owner : String) (lockedOperations lockedApplies : Nat → Bool)
  | advance (n : Nat)
  | tick (seconds : Nat)

def Drive.running (d : Drive) : Bool :=
  match d.rest with
  | .ret _ => false
  | .stmt _ _ => true

namespace Tern

variable (host : Host) (conflict : Store → Option String)

def withStore (w : Tern) (s : Store) : Tern := { w with site := { w.site with store := s } }

def step (w : Tern) : TernAction → Tern
  | .apply req =>
    match Method.call (localApply host conflict req) w.site.store with
    | (s, .ok (.started apply operationId tasks plan)) =>
      { w.withStore s with drives := w.drives ++
          [⟨apply.id, operationId, 0, (runApplyExecution host w.drives.length {} apply tasks plan.plan
            req.options false).run⟩] }
    | (s, _) => w.withStore s
  | .operate owner lockedOperations lockedApplies =>
    match Method.call (findNextApplyOperation owner lockedOperations) w.site.store with
    | (s, .ok (some op)) =>
      { w.withStore s with drives := w.drives ++
          [⟨op.applyId, op.id, op.leaseToken, (recoverSingleApplyOperation host w.drives.length owner
            lockedApplies op).run⟩] }
    | (s, _) => w.withStore s
  | .advance n =>
    match w.drives[n]? with
    | some d =>
      { site := (d.rest.next w.site).1
        drives := w.drives.set n { d with rest := (d.rest.next w.site).2 } }
    | none => w
  | .tick seconds => w.withStore { w.site.store with now := w.site.store.now + seconds }

/-- Drive `n` has called the engine and has not ended. -/
def pastEngine (w : Tern) (n : Nat) : Bool :=
  decide (n ∈ w.site.calls) && (w.drives[n]?.any (·.running))

def sharesEngine (w : Tern) : Bool :=
  (List.range w.drives.length).any fun i => (List.range w.drives.length).any fun j =>
    i ≠ j && w.pastEngine i && w.pastEngine j &&
      (w.drives[i]?.map (·.applyId) = w.drives[j]?.map (·.applyId))

end Tern

def Store.rowsOf (s : Store) (applyId : Nat) : List Apply × List ApplyOperation × List Task :=
  (s.applies.filter (·.id = applyId), s.operations.filter (·.applyId = applyId),
    s.tasks.filter (·.applyId = applyId))

def Drive.displaced (d : Drive) (s : Store) : Bool :=
  (s.rowsOf d.applyId).2.1.any fun o => o.id = d.operationId && o.leaseToken ≠ d.token

namespace Tern

variable (host : Host) (conflict : Store → Option String)

def displacedWrite (w : Tern) : TernAction → Bool
  | .advance n =>
    match w.drives[n]? with
    | some d => d.displaced w.site.store &&
        (d.rest.next w.site).1.store.rowsOf d.applyId ≠ w.site.store.rowsOf d.applyId
    | none => false
  | _ => false

def Exclusive (w : Tern) (a : TernAction) : Prop :=
  (w.step host conflict a).sharesEngine = false ∧ w.displacedWrite a = false

end Tern

/-! ## Reading the run back -/

section
variable {host : Host} {conflict : Store → Option String} {w : Tern} {n : Nat} {d : Drive}

theorem Tern.step_advance (h : w.drives[n]? = some d) : w.step host conflict (.advance n) =
      { site := (d.rest.next w.site).1
        drives := w.drives.set n { d with rest := (d.rest.next w.site).2 } } := by
  simp only [step, h]

theorem Tern.site_advances (k : Nat) (h : w.drives[n]? = some d) :
    (Transition.run (Tern.step host conflict) w (List.replicate k (.advance n))).site =
      (Prog.steps k (w.site, d.rest)).1 := by
  induction k generalizing w d with
  | zero => rfl
  | succ k ih =>
    have hn : n < w.drives.length := (List.getElem?_eq_some_iff.1 h).1
    rw [List.replicate_succ, Transition.run_cons, step_advance h]
    rw [ih (List.getElem?_set_self hn)]
    rfl

theorem Tern.rows_advances (k : Nat) (h : w.drives[n]? = some d) (hd : d.displaced w.site.store = true)
    (hx : Transition.Along (Tern.step host conflict) (Tern.Exclusive host conflict) w
      (List.replicate k (.advance n))) :
    (Transition.run (Tern.step host conflict) w (List.replicate k (.advance n))).site.store.rowsOf
      d.applyId = w.site.store.rowsOf d.applyId := by
  induction k generalizing w d with
  | zero => rfl
  | succ k ih =>
    have hn : n < w.drives.length := (List.getElem?_eq_some_iff.1 h).1
    obtain ⟨⟨-, hw⟩, hx⟩ := hx
    have hrows : (d.rest.next w.site).1.store.rowsOf d.applyId = w.site.store.rowsOf d.applyId := by
      simpa [displacedWrite, h, hd] using hw
    rw [step_advance h] at hx
    rw [List.replicate_succ, Transition.run_cons, step_advance h]
    -- the displacement is read off the rows, so it stands
    have hd' : Drive.displaced { d with rest := (d.rest.next w.site).2 } (d.rest.next w.site).1.store =
        true := by
      unfold Drive.displaced at hd ⊢
      rw [hrows]
      exact hd
    have hrest := ih (List.getElem?_set_self hn) hd' hx
    exact hrest.trans hrows

end

/-! ## What the first write of a drive changes -/

section
variable {s t u : Store} {apply : Apply} {tasks : List Task} {a : Apply} {w : Site}

theorem call_update_unleased (h : u.checkUpdate apply (if apply.state.isTerminal = false then
      u.applyTargetForUpdate apply else apply.target) = .ok ()) :
    Method.call (update {} apply) u =
      (u.updateApplies (fun _ => updateRow none apply) (assignUpdate apply), .ok ()) := by
  have hrefuse : ∀ message, refuseOperationLeaseOnly {} message = .ok () := fun _ => rfl
  have hlease : applyLeaseFromContext {} apply.id = .ok none := rfl
  unfold update
  rw [hrefuse, hlease, Method.call_bind_ok (Method.call_lift _ u),
    Method.call_bind_ok (Method.call_lift _ u), Method.call_bind_ok (Method.call_read _ u),
    Method.call_transaction]
  unfold updateTx
  rw [h]
  rfl

theorem mem_updateApplies {a row : Apply} (hrow : row ∈ u.applies) (hid : row.id = a.id) :
    assignUpdate a u row ∈ (u.updateApplies (fun _ => updateRow none a) (assignUpdate a)).applies := by
  refine Table.mem_update_of_pos hrow ?_
  simp [updateRow, leasePredicate, hid]

theorem applies_transitionTaskState (ctx : Ctx) (task : Task) (newState : TaskState) (u : Store) :
    (Method.call (transitionTaskState ctx task newState) u).1.applies = u.applies := by
  have hrefl : ∀ s : Store, (fun s t : Store => t.applies = s.applies) s s := fun _ => rfl
  have hkeeps : Method.Only (fun s t : Store => t.applies = s.applies)
      (updateTask ctx { task with state := newState }) :=
    always_updateTask hrefl fun _ => .step fun _ => rfl
  have htrans : ∀ s t u : Store, t.applies = s.applies → u.applies = t.applies → u.applies = s.applies :=
    fun _ _ _ h h' => h'.trans h
  rw [transitionTaskState_eq]
  exact (Method.Ensures.call hrefl htrans hkeeps trivial).1

theorem call_settleTasks (ctx : Ctx) (newState : TaskState) (completedAt : Option Nat) (errMsg : String)
    (tasks : List Task) (u : Store) :
    ∃ v, Method.call (settleTasks ctx newState completedAt errMsg tasks) u = (v, .ok ()) ∧
      v.applies = u.applies := by
  induction tasks generalizing u with
  | nil => exact ⟨u, rfl, rfl⟩
  | cons task tasks ih =>
    unfold settleTasks
    by_cases hterm : task.state.isTerminal = true
    · obtain ⟨v, hv, ha⟩ := ih u
      refine ⟨v, ?_, ha⟩
      rw [if_pos hterm]
      exact hv
    · have hwrite := transitionTaskState_eq ctx
        { task with errorMessage := if task.errorMessage = "" then errMsg else task.errorMessage, completedAt }
        newState u
      have ha := applies_transitionTaskState ctx
        { task with errorMessage := if task.errorMessage = "" then errMsg else task.errorMessage, completedAt }
        newState u
      rw [hwrite] at ha
      obtain ⟨v', hv', ha'⟩ := ih _
      refine ⟨v', ?_, ha'.trans ha⟩
      rw [if_neg hterm, Method.call_bind_ok hwrite]
      exact hv'

theorem call_updateParent (ctx : Ctx) (a : Apply) (w : Site) : Method.call (updateParent ctx a) w =
      ({ w with
          parentCalls := w.parentCalls ++ [.update a.id]
          store := (Method.call (update ctx a) w.store).1 }, (Method.call (update ctx a) w.store).2) := by
  unfold updateParent callParent
  rw [Method.call_bind_ok (Method.call_write _ w), onStore, Method.call_zoom]
  rfl

theorem call_onStore {α : Type} (m : StoreMethod α) (w : Site) : Method.call (onStore m) w =
      ({ w with store := (Method.call m w.store).1 }, (Method.call m w.store).2) :=
  Method.call_zoom Site.storePart m w

structure Store.Queued (u : Store) (apply : Apply) : Prop where
  exists_row : ∃ row ∈ u.applies, row.id = apply.id
  row : ∀ row ∈ u.applies, row.id = apply.id →
    row.startedAt = none ∧ row.state = .pending ∧ row.target = apply.target
  free : ∀ a ∈ u.applies,
    u.blocks apply.target (u.operationDeploymentsForApply apply.id ++ [apply.deployment]) apply.id a = false

theorem Store.Queued.target (h : u.Queued apply) (hid : a.id = apply.id)
    (ht : a.target = apply.target) : u.applyTargetForUpdate a = apply.target := by
  unfold applyTargetForUpdate
  split
  · exact ht
  · split
    · next row hrow =>
      obtain ⟨hmem, hrid⟩ := getApply_some hrow
      exact (h.row row hmem (hrid.trans hid)).2.2
    · next hnone =>
      obtain ⟨row, hmem, hrid⟩ := h.exists_row
      exact absurd (hrid.trans hid.symm) (getApply_none hnone row hmem)

theorem Store.Queued.checkUpdate (h : u.Queued apply) (hid : a.id = apply.id) :
    u.checkUpdate a apply.target = .ok () := by
  unfold Store.checkUpdate
  split
  · rw [hid, checkNoActiveApplyForTargets, if_neg (by simp), if_neg]
    rw [List.any_eq_true]
    rintro ⟨b, hb, hblocks⟩
    have hfree := h.free b hb
    rw [show apply.deployment = apply.target.deployment from rfl] at hfree
    rw [hfree] at hblocks
    cases hblocks
  · rfl

theorem Store.Queued.update (h : u.Queued apply) (hid : a.id = apply.id)
    (ht : a.target = apply.target) : Method.call (SchemaBot.update {} a) u =
      (u.updateApplies (fun _ => updateRow none a) (assignUpdate a), .ok ()) := by
  refine call_update_unleased ?_
  split
  · rw [h.target hid ht]; exact h.checkUpdate hid
  · rw [ht]; exact h.checkUpdate hid

theorem Store.Queued.rowsOf_ne (h : u.Queued apply) {v : Store} {row : Apply} (hrow : row ∈ v.applies)
    (hid : row.id = apply.id) (hne : row.startedAt ≠ none ∨ row.state ≠ .pending) :
    v.rowsOf apply.id ≠ u.rowsOf apply.id := by
  intro heq
  have hnew : row ∈ (v.rowsOf apply.id).1 := List.mem_filter.2 ⟨hrow, decide_eq_true hid⟩
  rw [heq] at hnew
  obtain ⟨hmem, -⟩ := List.mem_filter.1 hnew
  obtain ⟨hstarted, hstate, -⟩ := h.row row hmem hid
  rcases hne with hne | hne
  · exact hne hstarted
  · exact hne hstate

theorem Store.Queued.markApplyStarted (h : w.store.Queued apply) :
    ∃ w' a, Method.call (SchemaBot.markApplyStarted {} apply) w = (w', .ok a) ∧
      w'.store.rowsOf apply.id ≠ w.store.rowsOf apply.id := by
  obtain ⟨row, hrow, hid⟩ := h.exists_row
  have hrow' := mem_updateApplies (a := apply.asStarted w.store.now) hrow hid
  have hread : Method.call (onStore (Method.read (·.now) : StoreMethod Nat)) w = (w, .ok w.store.now) :=
    call_onStore _ w
  have hcall : Method.call (SchemaBot.markApplyStarted {} apply) w =
      ({ w with
          parentCalls := w.parentCalls ++ [.update apply.id]
          store := w.store.updateApplies (fun _ => updateRow none (apply.asStarted w.store.now))
            (assignUpdate (apply.asStarted w.store.now)) }, .ok (apply.asStarted w.store.now)) := by
    unfold SchemaBot.markApplyStarted
    rw [Method.call_bind_ok hread, Method.call_bind_ok (Method.call_attempt _ _), call_updateParent]
    rw [h.update (a := apply.asStarted w.store.now) rfl rfl]
    rfl
  exact ⟨_, _, hcall, h.rowsOf_ne hrow' hid (.inl nofun)⟩

theorem Store.Queued.failApplyWithTasks (h : w.store.Queued apply) (tasks : List Task) (errMsg : String) :
    ∃ w', Method.call (SchemaBot.failApplyWithTasks {} apply tasks errMsg) w = (w', .ok ()) ∧
      w'.store.rowsOf apply.id ≠ w.store.rowsOf apply.id := by
  obtain ⟨v, hv, ha⟩ := call_settleTasks {} .failed (some w.store.now) errMsg tasks w.store
  obtain ⟨row, hrow, hid⟩ := h.exists_row
  rw [← ha] at hrow
  have hrow' := mem_updateApplies (a := apply.asSettled .failed (some w.store.now) errMsg) hrow hid
  have hread : Method.call (onStore (Method.read (·.now) : StoreMethod Nat)) w = (w, .ok w.store.now) :=
    call_onStore _ w
  have hsettle := call_onStore (settleTasks {} .failed (some w.store.now) errMsg tasks) w
  rw [hv] at hsettle
  -- the stored apply is pending, so it is overwritten
  have hfresh : ((if w.fails .applySettle then none else v.getApply apply.id).any (·.state.isTerminal)) =
      false := by
    split
    · rfl
    · cases hget : v.getApply apply.id with
      | none => rfl
      | some fresh =>
        obtain ⟨hmem, hfid⟩ := Store.getApply_some hget
        rw [ha] at hmem
        rw [Option.any_some, (h.row fresh hmem hfid).2.1]
        rfl
  have hcall : Method.call (SchemaBot.failApplyWithTasks {} apply tasks errMsg) w =
      ({ w with
          parentCalls := w.parentCalls ++ [.update apply.id]
          store := v.updateApplies (fun _ => updateRow none (apply.asSettled .failed (some w.store.now) errMsg))
            (assignUpdate (apply.asSettled .failed (some w.store.now) errMsg)) }, .ok ()) := by
    unfold SchemaBot.failApplyWithTasks settleApply
    rw [Method.call_bind_ok hread, Method.call_bind_ok hsettle, Method.call_bind_ok (Method.call_read _ _)]
    rw [hfresh, if_neg nofun]
    rfl
  exact ⟨_, hcall, h.rowsOf_ne hrow' hid (.inr nofun)⟩

end

/-! ## The claim of a new operation -/

section
variable {host : Host} {conflict : Store → Option String} {req : ApplyRequest} {s t : Store}
  {apply : Apply} {operationId : Nat} {tasks : List Task} {plan : StoredPlan} {a : Apply}

theorem call_existingIdempotentApply (req : ApplyRequest) (s : Store) :
    (Method.call (existingIdempotentApply req) s).1 = s := by
  unfold existingIdempotentApply
  split
  · rfl
  · rw [Method.call_bind_ok (Method.call_read _ s)]
    split
    · rfl
    · split <;> rfl

theorem call_resolveByKey {m : StoreMethod ApplyResponse}
    (h : Method.call (resolveByKey req m) s = (t, .ok (.started apply operationId tasks plan))) :
    Method.call m s = (t, .ok (.started apply operationId tasks plan)) := by
  unfold resolveByKey at h
  rw [Method.call_bind] at h
  have hs := call_existingIdempotentApply req s
  generalize Method.call (existingIdempotentApply req) s = r at h hs
  obtain ⟨s', _ | existing⟩ := r
  · cases h
  · cases existing with
    | some a => cases h
    | none => cases hs; exact h

theorem localApply_started (h : Method.call (localApply host conflict req) s =
      (t, .ok (.started apply operationId tasks plan))) :
    s.Created (req.newApply host plan) [newOperation host plan] t ∧
      apply = { req.newApply host plan with id := s.nextApply } ∧
      operationId = ((t.operations.filter (·.applyId = s.nextApply)).map (·.id)).headD 0 := by
  unfold localApply at h
  split at h
  · cases h
  split at h
  · cases h
  replace h := call_resolveByKey h
  split at h
  · cases h
  · next plan' _ =>
    rw [Method.call_bind_ok (Method.call_read _ s)] at h
    split at h
    · have h' := call_resolveByKey h
      cases h'
    · rw [Method.call_bind_ok (Method.call_outcome _ s)] at h
      rcases created_createWithTasksAndOperations s (req.newApply host plan') (req.newTasks plan')
        [newOperation host plan'] with ⟨e, he⟩ | ⟨u, hu, hcreated⟩
      · rw [he] at h
        have h' := call_resolveByKey h
        cases h'
      · rw [hu] at h
        cases h
        exact ⟨hcreated, rfl, rfl⟩

theorem Store.Created.operation_cases {op o : ApplyOperation} (hs : s.WF)
    (h : s.Created a [op] t) (ho : o ∈ t.operations) :
    (o ∈ s.operations ∧ o.applyId < s.nextApply ∧ o.id < s.nextOperation) ∨
      o = operationRow s.nextApply s.now s.nextOperation op := by
  rw [h.operations, operationRows, operationRows, List.mem_append, List.mem_singleton] at ho
  rcases ho with ho | rfl
  · exact .inl ⟨ho, hs.parents_lt o ho, hs.operationIds_lt o ho⟩
  · exact .inr rfl

theorem Store.Created.filter_operations {op : ApplyOperation} (hs : s.WF) (h : s.Created a [op] t) :
    t.operations.filter (·.applyId = s.nextApply) =
      [operationRow s.nextApply s.now s.nextOperation op] := by
  have hold : s.operations.filter (·.applyId = s.nextApply) = [] := by
    rw [List.filter_eq_nil_iff]
    intro o ho hid
    have hlt := hs.parents_lt o ho
    have heq : o.applyId = s.nextApply := of_decide_eq_true hid
    simp only [heq] at hlt
    omega
  rw [h.operations, List.filter_append, hold]
  simp [operationRows, operationRow]

def lockedBut (id : Nat) : Nat → Bool := fun id' => id' ≠ id

section
variable {a : Apply} {op : ApplyOperation} (hs : s.WF) (h : s.Created a [op] t)

theorem Store.Created.hasPending (h : s.Created a [op] t) (applyId : Nat) (operation : ControlOperation) :
    t.hasPending applyId operation = s.hasPending applyId operation := by
  unfold Store.hasPending
  rw [h.controlRequests]

include hs h in
theorem Store.Created.claimable (hop : op.state = .pending) (hkind : op.operationKind = .work)
    (hstop : s.hasPending s.nextApply .stop = false) :
    t.claimableOperation (operationRow s.nextApply s.now s.nextOperation op) = true := by
  have hnone : t.operations.any (blocksStart (operationRow s.nextApply s.now s.nextOperation op)) =
      false := by
    rw [List.any_eq_false]
    intro o ho hblocks
    simp only [blocksStart, Bool.and_eq_true, decide_eq_true_eq] at hblocks
    rcases h.operation_cases hs ho with ⟨-, hlt, -⟩ | rfl
    · have heq : o.applyId = s.nextApply := hblocks.1.1.1.1
      omega
    · exact hblocks.1.1.1.2 rfl
  have hpending := (h.hasPending s.nextApply .stop).trans hstop
  have hstart : t.mayStart (operationRow s.nextApply s.now s.nextOperation op) = true := by
    rw [mayStart, hnone]
    simp [operationRow, hkind]
  have hclause : t.claimPending (operationRow s.nextApply s.now s.nextOperation op) = true := by
    rw [claimPending, hstart]
    simp [operationRow, hop, hpending]
  rw [claimableOperation, hclause]
  rfl

include hs h in
theorem Store.Created.claim (hop : op.state = .pending) (hkind : op.operationKind = .work)
    (hstop : s.hasPending s.nextApply .stop = false) {owner : String} (howner : owner ≠ "") :
    ∃ u claimed, Method.call (findNextApplyOperation owner (lockedBut s.nextOperation)) t =
        (u, .ok (some claimed)) ∧ u.applies = t.applies ∧
      (∀ o ∈ u.operations, ∃ o' ∈ t.operations, o.applyId = o'.applyId ∧ o.deployment = o'.deployment) ∧
      ∃ o ∈ u.operations, o.id = s.nextOperation ∧ o.applyId = s.nextApply ∧ o.leaseToken ≠ 0 := by
  have hmem : operationRow s.nextApply s.now s.nextOperation op ∈ t.operations := by
    rw [h.operations]
    exact List.mem_append_right _ (.head _)
  have hfirst : Table.firstBy ApplyOperation.before
      (fun o => t.claimableOperation o && !lockedBut s.nextOperation o.id) t.operations =
      some (operationRow s.nextApply s.now s.nextOperation op) := by
    refine Table.firstBy_eq_of_unique hmem ?_ fun o ho hp => ?_
    · rw [h.claimable hs hop hkind hstop]
      simp [lockedBut, operationRow]
    · rcases h.operation_cases hs ho with ⟨-, -, hlt⟩ | rfl
      · simp only [lockedBut, Bool.and_eq_true, Bool.not_eq_true', decide_eq_false_iff_not] at hp
        omega
      · rfl
  have hpos : t.nextToken ≠ 0 := by
    have := hs.nextToken_pos
    rw [h.nextToken]
    omega
  unfold findNextApplyOperation claimOperation
  rw [if_neg howner, Method.call_bind_ok (Method.call_read _ t), hfirst]
  dsimp only
  rw [Method.call_write]
  have hrow : (operationRow s.nextApply s.now s.nextOperation op).state = .pending := hop
  have hpending := (h.hasPending s.nextApply .stop).trans hstop
  unfold persistOperationClaim
  rw [hrow]
  dsimp only
  unfold moveClaim
  -- the new row has no lease yet, so the claim changes it
  rw [if_neg]
  · refine ⟨_, _, rfl, rfl, fun o ho => ?_, _, Table.mem_update_of_pos hmem ?_, rfl, rfl, hpos⟩
    · obtain ⟨o', ho', rfl⟩ := Table.mem_update.1 ho
      exact ⟨o', ho', by split <;> rfl, by split <;> rfl⟩
    · simp [operationRow, hop, hpending]
  · intro hzero
    have hself := Table.affected_eq_zero.1 hzero _ hmem (by simp [operationRow, hop, hpending])
    have htoken := congrArg ApplyOperation.leaseToken hself
    exact hpos htoken

include hs h in
theorem Store.Created.queued (ha : a.state = .pending) (hdep : op.deployment = a.deployment) {u : Store}
    (happlies : u.applies = t.applies) (hops : ∀ o ∈ u.operations, ∃ o' ∈ t.operations,
      o.applyId = o'.applyId ∧ o.deployment = o'.deployment) :
    u.Queued { a with id := s.nextApply } where
  exists_row := by
    refine ⟨s.applyRow a, ?_, rfl⟩
    rw [happlies, h.applies]
    exact List.mem_append_right _ (.head _)
  row := by
    intro row hrow hid
    rw [happlies, h.applies, List.mem_append, List.mem_singleton] at hrow
    rcases hrow with hrow | rfl
    · have hlt : row.id < s.nextApply := hs.applyIds_lt row hrow
      have heq : row.id = s.nextApply := hid
      omega
    · exact ⟨rfl, ha, rfl⟩
  free := by
    intro b hb
    rw [Bool.eq_false_iff]
    intro hblocks
    -- every deployment of the new apply is its own, so what blocks it now blocked it when it was created
    have hmine : ∀ d ∈ u.operationDeploymentsForApply s.nextApply ++ [a.deployment], d = a.deployment := by
      intro d hd
      rcases List.mem_append.1 hd with hd | hd
      · obtain ⟨o, ho, rfl⟩ := List.mem_map.1 hd
        obtain ⟨ho, hid⟩ := List.mem_filter.1 ho
        obtain ⟨o', ho', hid', hd'⟩ := hops o ho
        rcases h.operation_cases hs ho' with ⟨-, hlt, -⟩ | rfl
        · have heq : o.applyId = s.nextApply := of_decide_eq_true hid
          omega
        · exact hd'.trans hdep
      · exact List.mem_singleton.1 hd
    simp only [blocks, Bool.and_eq_true, Bool.or_eq_true, decide_eq_true_eq, List.any_eq_true] at hblocks
    obtain ⟨⟨htarget, hdeployment⟩, hother⟩ := hblocks
    have hnew := hs.nextApply_pos
    have hne : b.id ≠ s.nextApply := by omega
    have hbs : b ∈ s.applies := by
      rw [happlies, h.applies, List.mem_append, List.mem_singleton] at hb
      rcases hb with hb | rfl
      · exact hb
      · exact absurd rfl hne
    have hcheck := h.check
    unfold checkCreate at hcheck
    rw [if_pos (by rw [ha]; rfl)] at hcheck
    obtain ⟨-, -, hcheck⟩ := bind_eq_ok hcheck
    rw [checkNoActiveApplyForTargets, if_neg (List.cons_ne_nil _ _)] at hcheck
    split at hcheck
    · cases hcheck
    · next hfree =>
      refine hfree (List.any_eq_true.2 ⟨b, hbs, ?_⟩)
      simp only [blocks, Bool.and_eq_true, Bool.or_eq_true, decide_eq_true_eq, List.any_eq_true]
      refine ⟨⟨htarget, ?_⟩, .inl trivial⟩
      rcases hdeployment with hd | ⟨o, ho, hid, hd⟩
      · exact .inl (hmine _ hd ▸ .head _)
      · obtain ⟨o', ho', hid', hd'⟩ := hops o ho
        rcases h.operation_cases hs ho' with ⟨hos, -, -⟩ | rfl
        · refine .inr ⟨o', hos, hid' ▸ hid, ?_⟩
          rw [← hd', hmine _ hd]
          exact .head _
        · exact absurd (hid.symm.trans hid') hne

end

end

/-! ## The background drive -/

def ChangesRows (applyId : Nat) (w : Site) (m : DriveMethod Unit) : Prop :=
  ∃ k, (Prog.steps k (w, m.run)).1.store.rowsOf applyId ≠ w.store.rowsOf applyId

theorem ChangesRows.of_call {applyId : Nat} {w w' : Site} {m : DriveMethod Unit}
    (h : Method.call m w = (w', .ok ())) (hne : w'.store.rowsOf applyId ≠ w.store.rowsOf applyId) :
    ChangesRows applyId w m := by
  obtain ⟨k, hk⟩ := Prog.exists_steps m.run w
  unfold Method.call at h
  rw [h] at hk
  exact ⟨k, by rw [hk]; exact hne⟩

theorem ChangesRows.of_first {α : Type} {applyId : Nat} {w w' : Site} {m : DriveMethod α} {a : α}
    {g : α → DriveMethod Unit} (h : Method.call m w = (w', .ok a))
    (hne : w'.store.rowsOf applyId ≠ w.store.rowsOf applyId) : ChangesRows applyId w (m >>= g) := by
  obtain ⟨k, hk⟩ := Method.exists_steps_bind h
  exact ⟨k, by rw [hk]; exact hne⟩

theorem ChangesRows.of_rest {α : Type} {applyId : Nat} {w w' : Site} {m : DriveMethod α} {a : α}
    {g : α → DriveMethod Unit} (h : Method.call m w = (w', .ok a)) (hsame : w'.store = w.store)
    (hrest : ChangesRows applyId w' (g a)) : ChangesRows applyId w (m >>= g) := by
  obtain ⟨j, hj⟩ := Method.exists_steps_bind h
  obtain ⟨k, hk⟩ := hrest
  refine ⟨j + k, ?_⟩
  rw [Prog.steps_add, hj, ← hsame]
  exact hk

theorem Store.Queued.exists_change {w : Site} {apply : Apply} (h : w.store.Queued apply) (host : Host)
    (n : Nat) (tasks : List Task) (plan : Plan) (options : ApplyOptions) (release : Bool) :
    ChangesRows apply.id w (runApplyExecution host n {} apply tasks plan options release) := by
  -- the heartbeat is armed first
  have hheart : ∀ g : Unit → DriveMethod Unit,
      (∀ w' : Site, w'.store = w.store → ChangesRows apply.id w' (g ())) →
        ChangesRows apply.id w (startApplyHeartbeat apply >>= g) :=
    fun g hg => .of_rest (Method.call_write _ w) rfl (hg _ rfl)
  have hfail : ∀ w' : Site, w'.store = w.store → ∀ errMsg,
      ChangesRows apply.id w' (SchemaBot.failApplyWithTasks {} apply tasks errMsg) := by
    intro w' hw errMsg
    obtain ⟨w'', hcall, hne⟩ := Store.Queued.failApplyWithTasks (hw ▸ h) tasks errMsg
    exact .of_call hcall hne
  have hstart : ∀ w' : Site, w'.store = w.store → ∀ g : Apply → DriveMethod Unit,
      ChangesRows apply.id w' (SchemaBot.markApplyStarted {} apply >>= g) := by
    intro w' hw g
    obtain ⟨w'', a, hcall, hne⟩ := Store.Queued.markApplyStarted (hw ▸ h)
    exact .of_first hcall hne
  unfold runApplyExecution
  split
  · refine hheart _ fun w' hw => ?_
    split
    · exact hfail w' hw _
    · split
      · exact hfail w' hw _
      · split
        · exact hfail w' hw _
        · exact hstart w' hw _
  · exact hheart _ fun w' hw => hstart w' hw _

section
variable (host : Host) (conflict : Store → Option String) (s : Store) (req : ApplyRequest)

/-- Every request that `Apply` accepts, on every store, can go wrong: once an operator has claimed the new
operation, the drive that `Apply` started still changes the rows of its apply. -/
theorem background_drive_not_exclusive {t : Store} {apply : Apply} {operationId : Nat} {tasks : List Task}
    {plan : StoredPlan} (hs : s.WF) (hcontrol : ∀ cr ∈ s.controlRequests, cr.applyId < s.nextApply)
    (hstarted : Method.call (localApply host conflict req) s =
      (t, .ok (.started apply operationId tasks plan))) :
    ∃ as, ¬ Transition.Along (Tern.step host conflict) (Tern.Exclusive host conflict)
      { site := { store := s } } (.apply req :: as) := by
  obtain ⟨hcreated, rfl, hoperation⟩ := localApply_started hstarted
  have hstop : s.hasPending s.nextApply .stop = false := by
    rw [Store.hasPending, List.any_eq_false]
    intro cr hcr hpending
    simp only [Bool.and_eq_true, decide_eq_true_eq] at hpending
    have hlt := hcontrol cr hcr
    omega
  rw [hcreated.filter_operations hs] at hoperation
  obtain ⟨u, claimed, hclaim, happlies, hops, o, ho, hoid, hoapply, htoken⟩ :=
    hcreated.claim hs rfl rfl hstop (nofun : "operator" ≠ "")
  have hqueued := hcreated.queued hs rfl rfl happlies hops
  obtain ⟨k, hk⟩ := Store.Queued.exists_change (w := { store := u }) hqueued host 0 tasks plan.plan
    req.options false
  refine ⟨.operate "operator" (lockedBut s.nextOperation) (fun _ => false) :: List.replicate k (.advance 0),
    fun halong => hk ?_⟩
  obtain ⟨-, -, halong⟩ := halong
  simp only [Tern.step, hstarted, Tern.withStore, hclaim] at halong
  have hrows := Tern.rows_advances k rfl ?_ halong
  · rw [Tern.site_advances k rfl] at hrows
    exact hrows
  · refine List.any_eq_true.2 ⟨o, List.mem_filter.2 ⟨ho, decide_eq_true hoapply⟩, ?_⟩
    rw [hoperation]
    simp [hoid, htoken, operationRow]

end

def sampleHost : Host where
  database := "orders"
  databaseType := databaseTypeMySQL
  engineApply _ := ([], .accepted none false)
  plan _ := some { namespaces := [("orders", { tables := [{ table := "items", ddl := "ALTER TABLE items" }] })] }

def sampleRequest : ApplyRequest where
  planId := "plan-1"
  environment := "staging"
  database := "orders"
  databaseType := databaseTypeMySQL
  plan := some {
    plan := { namespaces := [("orders", { tables := [{ table := "items", ddl := "ALTER TABLE items" }] })] }
    database := "orders", databaseType := databaseTypeMySQL }
  applyIdentifier := "apply-1"
  taskIdentifier _ := "task-1"

theorem background_drive_not_exclusive_sample : ∃ as, ¬ Transition.Along (Tern.step sampleHost fun _ => none)
      (Tern.Exclusive sampleHost fun _ => none) {} (.apply sampleRequest :: as) :=
  background_drive_not_exclusive sampleHost (fun _ => none) {} sampleRequest Store.wf_empty nofun rfl

/-- The operator drives the apply under the leases of its claims, and has called the engine; a second
later the background drive marks the apply running and calls the engine too. -/
def driveTwice : List TernAction :=
  [.apply sampleRequest, .operate "operator" (fun _ => false) (fun _ => false)] ++
    List.replicate 17 (.advance 1) ++ .tick 1 :: List.replicate 10 (.advance 0)

/-- Both drives of the apply are past their engine call, and the background drive, displaced by the
claim, has written. -/
theorem queued_apply_driven_twice :
    (Transition.run (Tern.step sampleHost fun _ => none) {} driveTwice).sharesEngine = true ∧
      ¬ Transition.Along (Tern.step sampleHost fun _ => none)
        (fun w a => w.displacedWrite a = false) {} driveTwice := by
  decide

end SchemaBot
