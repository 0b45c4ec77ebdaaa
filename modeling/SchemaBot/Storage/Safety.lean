import SchemaBot.Lib.Run
import SchemaBot.Storage.Evolution
import SchemaBot.Storage.Statements

/-!
# The store's interface as a whole

Every method of the store is safe (`Safe`): its statements evolve the store and keep it well formed.
-/

namespace SchemaBot

open Concurrent

def Safe {α : Type} (m : StoreMethod α) : Prop := Method.Always Store.WF Store.Evolves m

/-! ## Rules -/

namespace Safe
variable {α β : Type} {s t : Store}

theorem pure (a : α) : Safe (pure a : StoreMethod α) := Method.Always.pure a

theorem throw (e : StoreError) : Safe (throw e : StoreMethod α) := Method.Always.throw e

theorem lift (r : Except StoreError α) : Safe (Method.lift r : StoreMethod α) :=
  Method.Always.lift r

theorem bind {m : StoreMethod α} {g : α → StoreMethod β} (hm : Safe m) (hg : ∀ a, Safe (g a)) :
    Safe (m >>= g) := Method.Always.bind hm hg

theorem discard {m : StoreMethod α} (hm : Safe m) : Safe (discard m) := Method.Always.discard hm

theorem read (f : Store → α) : Safe (Method.read f : StoreMethod α) :=
  Method.Always.read Store.Evolves.refl f

theorem write {f : Store → Store × α} (h : ∀ s : Store, s.WF → s.Next (f s).1) :
    Safe (Method.write f : StoreMethod α) :=
  Method.Always.write fun s hs => ⟨(h s hs).evolves, (h s hs).wf⟩

theorem transaction {f : Store → Except StoreError (Store × α)} (h : ∀ s t a, s.WF → f s = .ok (t, a) → s.Next t) :
    Safe (Method.transaction f : StoreMethod α) :=
  Method.Always.transaction Store.Evolves.refl
    fun s t a hs hf => ⟨(h s t a hs hf).evolves, (h s t a hs hf).wf⟩

theorem next {m : StoreMethod α} (hm : Safe m) (hs : s.WF) : s.Next (Method.call m s).1 :=
  have h := Method.Ensures.call Store.Evolves.refl (fun _ _ _ => .trans) hm hs
  ⟨h.1, h.2.1⟩

theorem execApplies {p : Store → Apply → Bool} {f : Store → Apply → Apply}
    (hf : ∀ s a, (f s a).identity = a.identity ∧ (f s a).leaseToken = a.leaseToken) : Safe (execApplies p f) :=
  Safe.write fun s hs => hs.next_applies 0 (Nat.le_refl _) (fun a => (hf s a).1) fun a _ => .inl (hf s a).2

theorem execOperations {p : Store → ApplyOperation → Bool} {f : Store → ApplyOperation → ApplyOperation}
    (hf : ∀ s o, (f s o).identity = o.identity ∧ (f s o).leaseToken = o.leaseToken) : Safe (execOperations p f) :=
  Safe.write fun s hs => hs.next_operations 0 (Nat.le_refl _) (fun o => (hf s o).1) fun o _ => .inl (hf s o).2

theorem execTasks (p : Store → Task → Bool) (f : Store → Task → Task) : Safe (execTasks p f) :=
  Safe.write fun _ hs => hs.next_other (Nat.le_refl _) rfl rfl rfl rfl rfl

theorem execControlRequests (p : Store → ControlRequest → Bool)
    (f : Store → ControlRequest → ControlRequest) : Safe (execControlRequests p f) :=
  Safe.write fun _ hs => hs.next_other (Nat.le_refl _) rfl rfl rfl rfl rfl

end Safe

/-! ## Applies -/

theorem safe_createWithRows (a : Apply) (newDeployments : List String)
    {writeRows : Store → Nat → Except StoreError Store}
    (h : ∀ s id t, s.WF → id < s.nextApply → writeRows s id = .ok t → s.Next t) :
    Safe (createWithRows a newDeployments writeRows) := by
  refine .transaction fun s t id hs hf => ?_
  obtain ⟨_, -, hf⟩ := bind_eq_ok hf
  obtain ⟨⟨s', id'⟩, hi, hf⟩ := bind_eq_ok hf
  obtain ⟨t', hw, hf⟩ := bind_eq_ok hf
  cases hf
  obtain ⟨hn, hlt⟩ := hs.next_insertApply hi
  exact hn.trans (h s' id t hn.wf hlt hw)

theorem safe_create (a : Apply) : Safe (create a) :=
  safe_createWithRows a _ fun s _ t hs _ h => by cases h; exact .refl hs

theorem safe_createWithTasksAndOperations (a : Apply) (tasks : List Task)
    (operations : List ApplyOperation) : Safe (createWithTasksAndOperations a tasks operations) := by
  refine safe_createWithRows a _ fun s id t hs hid h => ?_
  obtain ⟨⟨s', ids⟩, hi, h⟩ := bind_eq_ok h
  obtain ⟨tasks', -, h⟩ := bind_eq_ok h
  have hn := hs.next_insertOperations hid hi
  exact hn.trans (hn.wf.next_insertTasks h)

theorem safe_createWithGroupedOperations (a : Apply) (groups : List ApplyOperationWithTasks) :
    Safe (createWithGroupedOperations a groups) := by
  refine safe_createWithRows a _ fun s id t hs hid h => ?_
  unfold Store.insertApplyGroupedOperations at h
  split at h
  · cases h
  · exact hs.next_insertGroups hid h

theorem safe_update (ctx : Ctx) (apply : Apply) : Safe (update ctx apply) := by
  refine always_update Store.Evolves.refl fun lease target => Safe.transaction fun s t _ hs hf => ?_
  obtain ⟨_, -, hf⟩ := bind_eq_ok hf
  obtain ⟨_, -, hf⟩ := bind_eq_ok hf
  cases hf
  exact hs.next_applies 0 (Nat.le_refl _) (fun _ => rfl) fun _ _ => .inl rfl

theorem safe_updateDerivedState (ctx : Ctx) (applyId : Nat) (expected newState : ApplyState)
    (errorMessage : String) (startedAt completedAt : Option Nat) :
    Safe (updateDerivedState ctx applyId expected newState errorMessage startedAt completedAt) :=
  always_updateDerivedState Store.Evolves.refl fun _ => Safe.execApplies fun _ _ => ⟨rfl, rfl⟩

theorem safe_expireRetryable : Safe expireRetryable := by
  refine .transaction fun s t ids hs hf => ?_
  cases hf
  have happlies := hs.next_applies 0 (p := fun a => decide (a.id ∈ s.expiredIds))
    (f := fun a => { a with
      state := .failed, completedAt := a.completedAt <|> some s.now, updatedAt := s.now })
    (Nat.le_refl _) (fun _ => rfl) fun _ _ => .inl rfl
  refine happlies.trans ?_
  have hops := happlies.wf.next_operations 0
    (p := fun o => decide (o.state = .failedRetryable) && decide (o.applyId ∈ s.expiredIds))
    (f := fun o => { o with
      state := .failed, completedAt := o.completedAt <|> some s.now, updatedAt := s.now })
    (Nat.le_refl _) (fun _ => rfl) fun _ _ => .inl rfl
  exact hops.trans (hops.wf.next_other (Nat.le_refl _) rfl rfl rfl rfl rfl)

/-! ## Claims of applies -/

section
variable {s t : Store} (hs : s.WF)
include hs

theorem Store.WF.next_transitionClaimToState (a : Apply) (targetState : ApplyState) (owner : String) :
    s.Next (s.transitionClaimToState a targetState owner).1 := by
  unfold Store.transitionClaimToState
  dsimp only
  split
  · exact .refl hs
  · refine hs.next_applies a.id (Nat.le_succ _) (fun _ => rfl) fun r hr => .inr ?_
    simp only [Bool.and_eq_true, decide_eq_true_eq] at hr
    exact ⟨hr.1, Nat.le_refl _, Nat.lt_succ_self _⟩

theorem Store.WF.next_persistApplyClaim {a : Apply} {owner : String} {r : Option Apply}
    (h : s.persistApplyClaim a owner = .ok (t, r)) : s.Next t := by
  unfold Store.persistApplyClaim at h
  split at h
  · unfold Store.claimStoppedApplyUnderTargetLock at h
    dsimp only at h
    split at h
    · cases h
    · split at h
      · split at h
        · cases h; exact hs.next_other (Nat.le_refl _) rfl rfl rfl rfl rfl
        · cases h
      · have := hs.next_transitionClaimToState a .resuming owner
        rwa [Except.ok.inj h] at this
  · split at h
    · have := hs.next_transitionClaimToState a .running owner
      rwa [Except.ok.inj h] at this
    · cases h
      exact hs.next_applies a.id (Nat.le_succ _) (fun _ => rfl) fun r hr =>
        .inr ⟨of_decide_eq_true hr, Nat.le_refl _, Nat.lt_succ_self _⟩

end

theorem safe_claimApply (wanted : Store → Apply → Bool) (locked : Nat → Bool)
    (owner message : String) : Safe (claimApply wanted locked owner message) :=
  always_claimApply Store.Evolves.refl fun _ =>
    Safe.transaction fun _ _ _ hs h => hs.next_persistApplyClaim h

/-! ## Operations -/

theorem safe_writeOperation (ctx : Ctx) (id : Nat) (missingOK : Bool)
    {assign : Store → ApplyOperation → ApplyOperation}
    (h : ∀ s o, (assign s o).identity = o.identity ∧ (assign s o).leaseToken = o.leaseToken) :
    Safe (writeOperation ctx id missingOK assign) :=
  always_writeOperation Store.Evolves.refl fun _ => Safe.execOperations h

theorem safe_execStateUpdate (ctx : Ctx) (id : Nat) {assign : Store → ApplyOperation → ApplyOperation}
    (h : ∀ s o, (assign s o).identity = o.identity ∧ (assign s o).leaseToken = o.leaseToken) :
    Safe (execStateUpdate ctx id assign) := by
  refine safe_writeOperation ctx id false fun s o => ?_
  unfold touch
  split
  · exact ⟨rfl, rfl⟩
  · exact h s o

/-! ## Claims of operations -/

section
variable {s : Store} (hs : s.WF)
include hs

section
variable (op : ApplyOperation)

theorem Store.WF.next_moveClaim (owner : String) (allowed : Store → Bool)
    {assign : Store → ApplyOperation → ApplyOperation}
    (h : ∀ o, (assign s o).identity = o.identity ∧ (assign s o).leaseToken = o.leaseToken) :
    s.Next (s.moveClaim op owner allowed assign).1 := by
  unfold Store.moveClaim
  dsimp only
  split
  · exact .refl hs
  · refine hs.next_operations op.id (Nat.le_succ _) (fun _ => (h _).1) fun o ho => .inr ?_
    simp only [Bool.and_eq_true, decide_eq_true_eq] at ho
    rw [(h _).2]
    exact ⟨ho.1.1, Nat.le_refl _, Nat.lt_succ_self _⟩

theorem Store.WF.next_releaseClaim (owner : String) : s.Next (s.releaseClaim op owner).1 :=
  hs.next_operations op.id (Nat.le_succ _) (fun _ => rfl) fun _ ho =>
    .inr ⟨of_decide_eq_true ho, Nat.le_refl _, Nat.lt_succ_self _⟩

theorem Store.WF.next_consumeRetry : s.Next (s.consumeRetry op) := by
  have hops := hs.next_operations 0
    (p := fun r => decide (r.id = op.id) && s.parentRetryable r.applyId)
    (f := fun r => { r with attempt := r.attempt + 1, updatedAt := s.now })
    (Nat.le_refl _) (fun _ => rfl) fun _ _ => .inl rfl
  exact hops.trans (hops.wf.next_applies 0 (Nat.le_refl _) (fun _ => rfl) fun _ _ => .inl rfl)

theorem Store.WF.next_persistOperationClaim (owner : String) : s.Next (s.persistOperationClaim op owner).1 := by
  unfold Store.persistOperationClaim
  split
  · exact hs.next_moveClaim op owner _ fun _ => ⟨rfl, rfl⟩
  · exact hs.next_moveClaim op owner _ fun _ => ⟨rfl, rfl⟩
  · have hn := hs.next_releaseClaim op owner
    exact hn.trans (hn.wf.next_consumeRetry op)
  · exact hs.next_releaseClaim op owner

theorem Store.WF.next_persistCutoverClaim (owner : String) : s.Next (s.persistCutoverClaim op owner).1 := by
  unfold Store.persistCutoverClaim
  split
  · exact hs.next_moveClaim op owner _ fun _ => ⟨rfl, rfl⟩
  · exact hs.next_releaseClaim op owner

end

end

/-! ## Control requests -/

theorem safe_requestPending (applyId : Nat) (operation : ControlOperation) (requestedBy metadata : String) :
    Safe (requestPending applyId operation requestedBy metadata) := by
  refine .write fun s hs => ?_
  split
  · split
    · exact .refl hs
    · exact hs.next_other (Nat.le_refl _) rfl rfl rfl rfl rfl
  · exact hs.next_other (Nat.le_refl _) rfl rfl rfl rfl rfl

/-! ## The interface -/

inductive Call
  | tick (seconds : Nat)
  | create (a : Apply)
  | createWithTasksAndOperations (a : Apply) (tasks : List Task) (operations : List ApplyOperation)
  | createWithGroupedOperations (a : Apply) (groups : List ApplyOperationWithTasks)
  | update (ctx : Ctx) (apply : Apply)
  | updateDerivedState (ctx : Ctx) (applyId : Nat) (expected newState : ApplyState)
      (errorMessage : String) (startedAt completedAt : Option Nat)
  | setRevertSkipped (ctx : Ctx) (applyId at' : Nat)
  | heartbeat (ctx : Ctx) (applyId : Nat)
  | expireRetryable
  | findNextApply (owner : String) (locked : Nat → Bool)
  | claimApplyByID (applyId : Nat) (owner : String) (locked : Nat → Bool)
  | findNextApplyForStopReconciliation (owner : String) (locked : Nat → Bool)
  | updateState (ctx : Ctx) (id : Nat) (newState : ApplyState)
  | markStarted (ctx : Ctx) (id : Nat)
  | markTerminal (ctx : Ctx) (id : Nat) (newState : ApplyState)
  | markFailed (ctx : Ctx) (id : Nat) (errMsg : String)
  | saveEngineResumeState (ctx : Ctx) (operationId resumeId : Nat) (migrationContext metadata : String)
  | heartbeatOperation (ctx : Ctx) (id : Nat)
  | markPendingStoppedByApply (ctx : Ctx) (applyId : Nat)
  | findNextApplyOperation (owner : String) (locked : Nat → Bool)
  | findNextApplyOperationCutover (owner : String) (locked : Nat → Bool)
  | updateTask (ctx : Ctx) (task : Task)
  | upsertShardProgress (ctx : Ctx) (task : Task)
  | requestPending (applyId : Nat) (operation : ControlOperation) (requestedBy metadata : String)
  | completePending (ctx : Ctx) (applyId : Nat) (operation : ControlOperation)
  | failPending (ctx : Ctx) (applyId : Nat) (operation : ControlOperation) (errorMessage : String)

def Call.method : Call → StoreMethod Unit
  | .tick seconds => Method.write fun s => ({ s with now := s.now + seconds }, ())
  | .create a => discard (SchemaBot.create a)
  | .createWithTasksAndOperations a tasks operations =>
    discard (SchemaBot.createWithTasksAndOperations a tasks operations)
  | .createWithGroupedOperations a groups => discard (SchemaBot.createWithGroupedOperations a groups)
  | .update ctx apply => SchemaBot.update ctx apply
  | .updateDerivedState ctx applyId expected newState errorMessage startedAt completedAt =>
    discard (SchemaBot.updateDerivedState ctx applyId expected newState errorMessage startedAt
      completedAt)
  | .setRevertSkipped ctx applyId at' => SchemaBot.setRevertSkipped ctx applyId at'
  | .heartbeat ctx applyId => SchemaBot.heartbeat ctx applyId
  | .expireRetryable => discard SchemaBot.expireRetryable
  | .findNextApply owner locked => discard (SchemaBot.findNextApply owner locked)
  | .claimApplyByID applyId owner locked => discard (SchemaBot.claimApplyByID applyId owner locked)
  | .findNextApplyForStopReconciliation owner locked =>
    discard (SchemaBot.findNextApplyForStopReconciliation owner locked)
  | .updateState ctx id newState => SchemaBot.updateState ctx id newState
  | .markStarted ctx id => SchemaBot.markStarted ctx id
  | .markTerminal ctx id newState => SchemaBot.markTerminal ctx id newState
  | .markFailed ctx id errMsg => SchemaBot.markFailed ctx id errMsg
  | .saveEngineResumeState ctx operationId resumeId migrationContext metadata =>
    SchemaBot.saveEngineResumeState ctx operationId resumeId migrationContext metadata
  | .heartbeatOperation ctx id => SchemaBot.heartbeatOperation ctx id
  | .markPendingStoppedByApply ctx applyId =>
    discard (SchemaBot.markPendingStoppedByApply ctx applyId)
  | .findNextApplyOperation owner locked => discard (SchemaBot.findNextApplyOperation owner locked)
  | .findNextApplyOperationCutover owner locked =>
    discard (SchemaBot.findNextApplyOperationCutover owner locked)
  | .updateTask ctx task => SchemaBot.updateTask ctx task
  | .upsertShardProgress ctx task => SchemaBot.upsertShardProgress ctx task
  | .requestPending applyId operation requestedBy metadata =>
    discard (SchemaBot.requestPending applyId operation requestedBy metadata)
  | .completePending ctx applyId operation => SchemaBot.completePending ctx applyId operation
  | .failPending ctx applyId operation errorMessage =>
    SchemaBot.failPending ctx applyId operation errorMessage

theorem Call.safe (c : Call) : Safe c.method := by
  have hrefl := Store.Evolves.refl
  cases c with
  | tick seconds =>
    exact .write fun s hs => hs.next_other (Nat.le_add_right _ _) rfl rfl rfl rfl rfl
  | create a => exact (safe_create a).discard
  | createWithTasksAndOperations a tasks operations =>
    exact (safe_createWithTasksAndOperations a tasks operations).discard
  | createWithGroupedOperations a groups => exact (safe_createWithGroupedOperations a groups).discard
  | update ctx apply => exact safe_update ctx apply
  | updateDerivedState => exact (safe_updateDerivedState ..).discard
  | setRevertSkipped => exact .bind (.execApplies fun _ _ => ⟨rfl, rfl⟩) fun _ => .pure _
  | heartbeat => exact always_heartbeat hrefl fun _ => Safe.execApplies fun _ _ => ⟨rfl, rfl⟩
  | expireRetryable => exact safe_expireRetryable.discard
  | findNextApply | claimApplyByID | findNextApplyForStopReconciliation =>
    exact .discard (safe_claimApply _ _ _ _)
  | updateState ctx id | markStarted ctx id | markTerminal ctx id | markFailed ctx id =>
    exact safe_execStateUpdate ctx id fun _ _ => ⟨rfl, rfl⟩
  | saveEngineResumeState ctx operationId resumeId =>
    simp only [method, SchemaBot.saveEngineResumeState]
    split
    · exact .throw _
    · exact safe_execStateUpdate ctx operationId fun _ _ => ⟨rfl, rfl⟩
  | heartbeatOperation ctx id => exact safe_writeOperation ctx id true fun _ _ => ⟨rfl, rfl⟩
  | markPendingStoppedByApply =>
    exact .discard (always_markPendingStoppedByApply hrefl fun _ =>
      Safe.execOperations fun _ _ => ⟨rfl, rfl⟩)
  | findNextApplyOperation owner =>
    exact .discard (always_claimOperation hrefl fun op =>
      Safe.write fun s hs => hs.next_persistOperationClaim op owner)
  | findNextApplyOperationCutover owner =>
    exact .discard (always_claimOperation hrefl fun op =>
      Safe.write fun s hs => hs.next_persistCutoverClaim op owner)
  | updateTask => exact always_updateTask hrefl fun _ => Safe.execTasks _ _
  | upsertShardProgress =>
    exact always_upsertShardProgress hrefl (fun _ _ => Safe.execTasks _ _) fun s t id hs h =>
      ⟨(hs.next_insertTask h).evolves, (hs.next_insertTask h).wf⟩
  | requestPending applyId operation requestedBy metadata =>
    exact (safe_requestPending applyId operation requestedBy metadata).discard
  | completePending | failPending =>
    exact always_settlePending hrefl fun _ => Safe.execControlRequests _ _

def Store.Other (s t : Store) : Prop := ∃ c : Call, Prog.Statement Store.WF c.method.run s t

theorem Store.Other.next {s t : Store} (h : s.Other t) (hs : s.WF) : s.Next t := by
  obtain ⟨c, hc⟩ := h
  have := Prog.Ensures.statement c.safe hs hc
  exact ⟨this.1, this.2⟩

theorem Store.wf_empty : ({} : Store).WF where
  nextApply_pos := Nat.one_pos
  nextOperation_pos := Nat.one_pos
  nextToken_pos := Nat.one_pos
  applyIds := List.nodup_nil
  applyIds_lt := List.forall_mem_nil _
  applyIds_pos := List.forall_mem_nil _
  applyTokens_lt := List.forall_mem_nil _
  applyTokens := List.forall_mem_nil _
  operationIds := List.nodup_nil
  operationIds_lt := List.forall_mem_nil _
  operationIds_pos := List.forall_mem_nil _
  operationTokens_lt := List.forall_mem_nil _
  operationTokens := List.forall_mem_nil _
  parents_lt := List.forall_mem_nil _

def Store.Reachable (s : Store) : Prop := Relation.ReflTransGen Store.Other {} s

theorem Store.next_of_other {s t : Store} (hs : s.WF) (h : Relation.ReflTransGen Store.Other s t) : s.Next t := by
  induction h with
  | refl => exact .refl hs
  | tail _ hb ih => exact ih.trans (hb.next ih.wf)

theorem Store.Reachable.wf {s : Store} (h : s.Reachable) : s.WF := (next_of_other wf_empty h).wf

def Store.after (s : Store) (c : Call) : Store := (Method.call c.method s).1

theorem Store.WF.others_after {s : Store} (hs : s.WF) (c : Call) :
    Relation.ReflTransGen Store.Other s (s.after c) :=
  Relation.ReflTransGen.mono (fun _ _ h => ⟨c, h⟩) _ _ (Prog.Ensures.exec_statements c.safe hs)

theorem Store.WF.others_run {s : Store} (hs : s.WF) (cs : List Call) :
    Relation.ReflTransGen Store.Other s (Transition.run Store.after s cs) := by
  induction cs generalizing s with
  | nil => exact .refl
  | cons c cs ih =>
    have h := hs.others_after c
    exact h.trans (ih (next_of_other hs h).wf)

/-! ## A sample apply -/

def sampleApply : Apply :=
  { applyIdentifier := "apply-1", database := "shop", databaseType := "mysql"
    environment := "production", deployment := "eu" }

def sampleGroup : ApplyOperationWithTasks :=
  { operation := { deployment := "eu" }, tasks := [{ taskIdentifier := "task-1", tableName := "orders" }] }

def sampleCreate : Call := .createWithGroupedOperations sampleApply [sampleGroup]

def sampleRollout (cutoverPolicy : CutoverPolicy) (onFailure : OnFailure) : Call :=
  .createWithGroupedOperations sampleApply
    [{ operation := { deployment := "eu", cutoverPolicy, onFailure }
       tasks := [{ taskIdentifier := "task-1" }] },
     { operation := { deployment := "us", cutoverPolicy, onFailure }
       tasks := [{ taskIdentifier := "task-2" }] }]

end SchemaBot
