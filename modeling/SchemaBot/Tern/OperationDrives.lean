import SchemaBot.Lib.Evolving
import SchemaBot.Lib.Reports
import SchemaBot.Storage.OperationRows
import SchemaBot.Tern.Resume

/-!
# Drives of a single operation

A drive that holds an operation lease only works for one operation of an apply that other drives share.
-/

namespace SchemaBot

open Concurrent

variable {apply : Apply} {lease : OperationLease} {ctx : Ctx} {host : Host} {a : Apply}

/-! ## The store of a drive that nobody disturbs -/

structure Store.Calm (s : Store) (apply : Apply) (lease : OperationLease) : Prop where
  owned : s.operationLeaseOwnsRow lease.operationId lease.token = true
  noStop : s.getPending apply.id .stop = none
  noCutover : s.getPending apply.id .cutover = none
  noStart : apply.state = .waitingForDeploy → s.hasPending apply.id .start = false

structure Store.Works (s t : Store) : Prop where
  applies : t.applies = s.applies
  requests : t.controlRequests = s.controlRequests
  rows : List.Forall₂ (RowShift fun _ _ => True) s.operations t.operations

structure Ctx.HoldsOnly (ctx : Ctx) (lease : OperationLease) : Prop where
  noApply : ctx.applyLease = none
  operation : ctx.operationLease = some lease
  valid : lease.valid = true

theorem Ctx.HoldsOnly.suppresses {ctx : Ctx} {lease : OperationLease} (h : ctx.HoldsOnly lease) :
    suppressParentApplyWrites ctx = true := by
  rw [suppressParentApplyWrites, h.noApply, h.operation]
  exact h.valid

section
variable {s t : Store}

theorem Store.Works.of_eq (ha : t.applies = s.applies) (hr : t.controlRequests = s.controlRequests)
    (ho : t.operations = s.operations) : s.Works t := by
  refine ⟨ha, hr, ?_⟩
  rw [ho]
  exact List.forall₂_same.2 fun o _ => .refl o

theorem Store.Works.refl (s : Store) : s.Works s := .of_eq rfl rfl rfl

theorem Store.Works.owned (h : s.Works t) {id token : Nat} (hs : s.operationLeaseOwnsRow id token = true) :
    t.operationLeaseOwnsRow id token = true := by
  simp only [Store.operationLeaseOwnsRow, List.any_eq_true, Bool.and_eq_true, decide_eq_true_eq] at hs ⊢
  obtain ⟨o, ho, hid, htoken⟩ := hs
  obtain ⟨o', ho', hshift⟩ := Table.forall₂_mem_left h.rows ho
  have hid' : o'.id = o.id := congrArg OperationIdentity.id hshift.identity
  exact ⟨o', ho', hid'.trans hid, hshift.leaseToken.trans htoken⟩

theorem Store.Calm.works (hs : s.Calm apply lease) (h : s.Works t) : t.Calm apply lease where
  owned := h.owned hs.owned
  noStop := by rw [Store.getPending, h.requests]; exact hs.noStop
  noCutover := by rw [Store.getPending, h.requests]; exact hs.noCutover
  noStart hw := by rw [Store.hasPending, h.requests]; exact hs.noStart hw

end

/-! ## The writes of a drive -/

/-- Every statement works on tasks and operations only, and the method returns something in `Q`. -/
abbrev Working {α : Type} (Q : α → Prop) (m : StoreMethod α) : Prop :=
  Method.Yields (fun _ => True) Store.Works Q m

section
variable {assign : Store → ApplyOperation → ApplyOperation} {id : Nat}

theorem works_execTasks (p : Store → Task → Bool) (f : Store → Task → Task) :
    Method.Only Store.Works (execTasks p f) :=
  .step fun _ => .of_eq rfl rfl rfl

theorem works_updateTask (task : Task) : Method.Only Store.Works (updateTask ctx task) :=
  always_updateTask Store.Works.refl fun _ => works_execTasks _ _

theorem works_upsertShardProgress (task : Task) : Method.Only Store.Works (upsertShardProgress ctx task) := by
  refine always_upsertShardProgress Store.Works.refl (fun _ _ => works_execTasks _ _) fun s t id _ h => ?_
  obtain ⟨hsame, hops, -, -⟩ := Store.insertTask_ok h
  exact ⟨.of_eq hsame.applies hsame.controlRequests hops, trivial⟩

theorem working_execOperations {p : Store → ApplyOperation → Bool}
    (h : ∀ s o, RowShift (fun _ _ => True) o (assign s o)) : Working (fun _ => True) (execOperations p assign) :=
  Method.Ensures.write fun s _ => ⟨⟨rfl, rfl, rowShift_update fun o _ _ => h s o⟩, trivial, trivial⟩

theorem works_writeOperation {missingOK : Bool} (h : ∀ s o, RowShift (fun _ _ => True) o (assign s o)) :
    Method.Only Store.Works (writeOperation ctx id missingOK assign) :=
  always_writeOperation Store.Works.refl fun _ => (working_execOperations h).returns.always

theorem works_execStateUpdate (h : ∀ s o, RowShift (fun _ _ => True) o (assign s o)) :
    Method.Only Store.Works (execStateUpdate ctx id assign) :=
  works_writeOperation fun s o => rowShift_touch (h s o)

theorem working_transitionTaskState (task : Task) (newState : TaskState) :
    Working (· = { task with state := newState }) (transitionTaskState ctx task newState) :=
  .bind (.attempt (works_updateTask _)) fun _ _ => .pure rfl

end

/-! ## The tasks of the operation -/

def OwnedBy (lease : OperationLease) (tasks : List Task) : Prop :=
  ∀ t ∈ tasks, t.applyOperationId = some lease.operationId

def SameOperations (tasks tasks' : List Task) : Prop :=
  tasks'.map (·.applyOperationId) = tasks.map (·.applyOperationId)

section
variable {tasks tasks' : List Task}

theorem SameOperations.refl (tasks : List Task) : SameOperations tasks tasks := rfl

theorem SameOperations.cons {t t' : Task} (h : t'.applyOperationId = t.applyOperationId)
    (hs : SameOperations tasks tasks') : SameOperations (t :: tasks) (t' :: tasks') :=
  congrArg₂ List.cons h hs

theorem SameOperations.ne_nil (h : SameOperations tasks tasks') (hne : tasks ≠ []) : tasks' ≠ [] := by
  rintro rfl
  exact hne (List.map_eq_nil_iff.1 h.symm)

theorem SameOperations.owned (h : SameOperations tasks tasks') (ho : OwnedBy lease tasks) :
    OwnedBy lease tasks' := by
  intro t ht
  have hmem : t.applyOperationId ∈ tasks.map (·.applyOperationId) := by
    rw [← h]
    exact List.mem_map_of_mem ht
  obtain ⟨u, hu, heq⟩ := List.mem_map.1 hmem
  rw [← heq]
  exact ho u hu

theorem applyOperationIDForTasks_eq (ho : OwnedBy lease tasks) (hne : tasks ≠ [])
    (hid : lease.operationId ≠ 0) : applyOperationIDForTasks tasks = .ok lease.operationId := by
  have hmap : tasks.map (·.applyOperationId.getD 0) = List.replicate tasks.length lease.operationId := by
    refine List.eq_replicate_iff.2 ⟨List.length_map _, fun id hmem => ?_⟩
    obtain ⟨t, ht, rfl⟩ := List.mem_map.1 hmem
    rw [ho t ht, Option.getD_some]
  obtain ⟨t, ts, rfl⟩ := List.exists_cons_of_ne_nil hne
  rw [applyOperationIDForTasks, hmap, List.length_cons, List.replicate_succ]
  have h0 : ¬ 0 ∈ lease.operationId :: List.replicate ts.length lease.operationId := by
    simp [hid.symm]
  simp only [if_neg h0]
  rw [if_pos (by simp)]

theorem SameOperations.working {m : StoreMethod (List Task)} {t t' : Task}
    (h : t'.applyOperationId = t.applyOperationId) (hm : Working (SameOperations tasks) m) :
    Working (SameOperations (t :: tasks)) (do let tasks ← m; pure (t' :: tasks)) :=
  .bind hm fun _ hs => .pure (.cons h hs)

theorem working_markTasksRecovering (tasks : List Task) :
    Working (SameOperations tasks) (markTasksRecovering ctx tasks) := by
  induction tasks with
  | nil => exact .pure (.refl _)
  | cons t ts ih =>
    refine .ite (fun _ => SameOperations.working rfl ih) fun _ => ?_
    exact .bind (working_transitionTaskState _ _) fun t' ht => SameOperations.working (by rw [ht]) ih

theorem working_markTasksResumed (newState : TaskState) (tasks : List Task) :
    Working (SameOperations tasks) (markTasksResumed ctx newState tasks) := by
  induction tasks with
  | nil => exact .pure (.refl _)
  | cons t ts ih =>
    exact .bind (working_transitionTaskState _ _) fun t' ht => SameOperations.working (by rw [ht]) ih

theorem working_prepareRetryableTasksForResume (apply : Apply) (tasks : List Task) :
    Working (SameOperations tasks) (prepareRetryableTasksForResume ctx apply tasks) := by
  induction tasks with
  | nil => exact .pure (.refl _)
  | cons t ts ih =>
    refine .ite (fun _ => ?_) fun _ => SameOperations.working rfl ih
    exact .bind (working_transitionTaskState _ _) fun t' ht => SameOperations.working (by rw [ht]) ih

theorem working_prepareStoppedTasksForResume (startRequested : Bool) (tasks : List Task) :
    Working (SameOperations tasks) (prepareStoppedTasksForResume ctx startRequested tasks) := by
  induction tasks with
  | nil => exact .pure (.refl _)
  | cons t ts ih =>
    refine .ite (fun _ => ?_) fun _ => SameOperations.working rfl ih
    exact .bind (working_transitionTaskState _ _) fun t' ht => SameOperations.working (by rw [ht]) ih

theorem working_writeShardProgress (table : Task) (now : Nat) (shards : List ShardProgress) :
    Working (fun _ => True) (writeShardProgress host ctx table now shards) := by
  induction shards with
  | nil => exact .pure trivial
  | cons sh shards ih =>
    refine .ite (fun _ => .pure trivial) fun _ => ?_
    refine .bind (.read Store.Works.refl fun _ _ => trivial) fun taskIdentifier (_ : True) =>
      .bind (.outcome (works_upsertShardProgress _)) fun written _ => ?_
    cases written with
    | ok _ => exact ih
    | error e => exact .ite (fun _ => .pure trivial) fun _ => ih

theorem working_syncAtomicTaskProgress (result : ProgressResult) (isInstant : Bool)
    (tables : Task → Option TableProgress) (newState : TaskState) (now : Nat) (tasks : List Task) :
    Working (SameOperations tasks) (syncAtomicTaskProgress host ctx result isInstant tables newState now tasks) := by
  induction tasks with
  | nil => exact .pure (.refl _)
  | cons t ts ih =>
    refine .ite (fun _ => SameOperations.working rfl ih) fun _ => ?_
    -- Whatever a poll has put into the task, it still belongs to its operation when it is written.
    have hwrite : ∀ t' : Task, t'.applyOperationId = t.applyOperationId → Working (SameOperations (t :: ts)) (do
        let task ← transitionTaskState ctx (withAtomicState now result newState t')
          (taskStateWithNoBackwardProgress (withAtomicState now result newState t').state newState)
        let tasks ← syncAtomicTaskProgress host ctx result isInstant tables newState now ts
        pure (task :: tasks)) := fun t' ht =>
      .bind (working_transitionTaskState _ _) fun t'' ht' => SameOperations.working (by rw [ht']; exact ht) ih
    split
    · exact .bind (working_writeShardProgress _ _ _) fun _ _ => hwrite _ rfl
    · exact .ite (fun _ => hwrite _ rfl) fun _ => hwrite _ rfl

/-- A re-plan keeps the tasks at their operation, and a task that has not completed and whose table still has a
change stays active. -/
theorem working_partitionTasks (now : Nat) (ddls : String → Option String) (ho : OwnedBy lease tasks) :
    Working (fun r => OwnedBy lease r.1.activeTasks ∧
      ((∃ t ∈ tasks, t.state ≠ .completed ∧ (ddls t.tableName).isSome = true) → r.1.activeTasks ≠ []))
      (partitionTasks ctx now ddls tasks) := by
  induction tasks with
  | nil => exact .pure ⟨ho, fun ⟨t, ht, _⟩ => absurd ht List.not_mem_nil⟩
  | cons t ts ih =>
    have hts := ih fun u hu => ho u (.tail _ hu)
    refine .ite (fun hdone => .bind hts fun r hr => .pure ⟨hr.1, ?_⟩) fun _ => ?_
    · rintro ⟨u, hu, hlive, hddl⟩
      rcases List.mem_cons.1 hu with rfl | hu
      · exact absurd hdone hlive
      · exact hr.2 ⟨u, hu, hlive, hddl⟩
    · cases hddl : ddls t.tableName with
      | none =>
        refine .bind (working_transitionTaskState _ _) fun t' _ => .bind hts fun r hr => .pure ⟨hr.1, ?_⟩
        rintro ⟨u, hu, hlive, hsome⟩
        rcases List.mem_cons.1 hu with rfl | hu
        · rw [hddl] at hsome
          cases hsome
        · exact hr.2 ⟨u, hu, hlive, hsome⟩
      | some ddl =>
        refine .bind hts fun r hr => .pure ⟨fun u hu => ?_, fun _ => List.cons_ne_nil _ _⟩
        rcases List.mem_cons.1 hu with rfl | hu
        · exact ho t (.head _)
        · exact hr.1 u hu

end

/-! ## The resume state -/

section
variable {tasks : List Task}

theorem works_applyOperationIDForApplyTasks (a : Apply) (tasks : List Task) :
    Method.Only Store.Works (applyOperationIDForApplyTasks a tasks) := by
  unfold applyOperationIDForApplyTasks
  split
  · refine .bind (.read Store.Works.refl _) fun ops => ?_
    split
    · exact .pure _
    · exact .throw _
  · exact .lift _

theorem works_saveResumeState (a : Apply) (tasks : List Task) (rs : ResumeState) :
    Method.Only Store.Works (saveResumeState ctx a tasks rs) := by
  refine .bind (works_applyOperationIDForApplyTasks a tasks) fun id => ?_
  unfold saveEngineResumeState
  split
  · exact .throw _
  · exact works_execStateUpdate fun _ _ => ⟨rfl, rfl, .inl rfl⟩

theorem yields_writeOperation (hctx : ctx.HoldsOnly lease)
    {missingOK : Bool} {assign : Store → ApplyOperation → ApplyOperation}
    (h : ∀ s o, RowShift (fun _ _ => True) o (assign s o)) :
    Method.Yields (·.Calm apply lease) Store.Works (fun _ => True)
      (writeOperation ctx lease.operationId missingOK assign) := by
  have hguard : operationWriteGuardFromContext ctx = .ok (.operation lease) := by
    rw [operationWriteGuardFromContext, hctx.operation]
    exact if_pos hctx.valid
  refine .bind (.lift hguard rfl) fun guard hg => .bind ((working_execOperations h).within fun s t => Store.Calm.works)
    fun rows _ => ?_
  rw [← hg]
  refine .ite (fun _ => .pure trivial) fun _ => ?_
  refine .bind (Q := (· = true)) (.read Store.Works.refl fun s hs => hs.owned) fun owned howned => ?_
  rw [howned]
  exact .pure trivial

theorem yields_saveResumeState (hctx : ctx.HoldsOnly lease)
    (ho : OwnedBy lease tasks) (hne : tasks ≠ []) (a : Apply) (rs : ResumeState) :
    Method.Yields (·.Calm apply lease) Store.Works (fun _ => True) (saveResumeState ctx a tasks rs) := by
  have hid : lease.operationId ≠ 0 := by
    have hvalid := hctx.valid
    simp only [OperationLease.valid, Bool.and_eq_true, decide_eq_true_eq] at hvalid
    omega
  unfold saveResumeState applyOperationIDForApplyTasks
  rw [if_neg hne]
  refine .bind (.lift (applyOperationIDForTasks_eq ho hne hid) rfl) fun id hown => ?_
  rw [← hown, saveEngineResumeState, if_neg (by simp)]
  exact yields_writeOperation hctx fun s o => rowShift_touch ⟨rfl, rfl, .inl rfl⟩

end

/-! ## Pieces of a drive that leave the apply alone -/

structure Site.LeavesParents (v w : Site) : Prop where
  calls : w.parentCalls = v.parentCalls
  observers : w.observers = v.observers
  rows : w.store.applies = v.store.applies

/-- As long as the store is calm, no statement turns to an apply, and what is returned is in `Q`. -/
abbrev Quietly {α : Type} (apply : Apply) (lease : OperationLease) (Q : α → Prop) (m : DriveMethod α) : Prop :=
  Method.Returns (fun w => w.store.Calm apply lease) Site.LeavesParents Q m

section
variable {α : Type} {Q : α → Prop}

theorem quietly_onStore {m : StoreMethod α} (h : Method.Returns (·.Calm apply lease) Store.Works Q m) :
    Quietly apply lease Q (onStore m) :=
  Prog.Ensures.zoom_inv (L := Site.storePart) (fun _ _ hworks => ⟨rfl, rfl, hworks.applies⟩) h

theorem quietly_read {f : Store → α} (h : ∀ s, s.Calm apply lease → Q (f s)) :
    Quietly apply lease Q (onStore (Method.read f)) :=
  quietly_onStore (.read Store.Works.refl h)

theorem Working.quietly {m : StoreMethod α} (h : Working Q m) : Quietly apply lease Q (onStore m) :=
  quietly_onStore (Method.Yields.within (fun _ _ hs hst => hs.works hst) h).returns

theorem quietly_callEngine (n : Nat) (request : EngineApplyRequest) :
    Quietly apply lease (fun _ => True) (callEngine n request) :=
  Method.Ensures.write fun _ hw => ⟨⟨rfl, rfl, rfl⟩, hw, trivial⟩

theorem quietly_processPendingStopControlRequest (hid : a.id = apply.id) :
    Quietly apply lease (· = (false, a)) (processPendingStopControlRequest host ctx a) := by
  refine .bind (Q := (· = none)) (quietly_read fun s hs => ?_) fun request hnone => ?_
  · rw [hid]
    exact hs.noStop
  · rw [hnone]
    exact .pure rfl

theorem quietly_processPendingCutoverControlRequest (hid : a.id = apply.id) :
    Quietly apply lease (· = a) (processPendingCutoverControlRequest host ctx a) := by
  refine .bind (Q := (· = none)) (quietly_read fun s hs => ?_) fun request hnone => ?_
  · rw [hid]
    exact hs.noCutover
  · rw [hnone]
    exact .pure rfl

theorem quietly_processPendingStartControlRequest (options : ApplyOptions) (release : Bool) :
    Quietly apply lease (· = false) (processPendingStartControlRequest host ctx apply options release) := by
  refine .bind (Q := fun pending => apply.state = .waitingForDeploy → pending = false)
    (quietly_read fun s hs => hs.noStart) fun pending hpending => ?_
  refine .ite (fun _ => .pure rfl) fun hstart => ?_
  refine .bind (quietly_read fun _ _ => trivial) fun stop (_ : True) => .ite (fun _ => .pure rfl) fun _ => ?_
  exact .ite (fun _ => .pure rfl) fun hwait => absurd (hpending (not_not.1 hwait)) hstart

end

/-! ## Polls -/

/-- What the polls see, after some errors in a row, without a reason to turn to the apply: no check fails for good,
fewer than `maxProgressErrors` fail in a row, and the engine skips no revert window. -/
def unremarkable : Nat → List AtomicPoll → Bool
  | _, [] => true
  | _, .permanent _ :: _ => false
  | errors, .transient _ _ :: polls => errors + 1 < maxProgressErrors && unremarkable (errors + 1) polls
  | _, .report result _ _ _ _ skipRevert :: polls =>
    !(result.state = .revertWindow && skipRevert) && unremarkable 0 polls

section
variable {loop : AtomicPollLoop} {polls : List AtomicPoll} {result : ProgressResult} {skipRevert : Bool}

theorem quietly_skipRevertWindow (options : ApplyOptions) (a : Apply) (now : Nat)
    (deployedAt : Option Nat) (ps : AtomicPollState) (h : (result.state = .revertWindow && skipRevert) = false) :
    Quietly apply lease (fun ps' => ps'.consecutiveErrors = ps.consecutiveErrors)
      (skipRevertWindow host ctx options a now result deployedAt skipRevert ps) := by
  refine .ite (fun hwindow => ?_) fun _ => .pure rfl
  have hskip : skipRevert = false := by
    simpa [hwindow.1] using h
  rw [hskip]
  exact .pure rfl

theorem working_settleOperation (a : Apply) (tasks : List Task) (newState : TaskState) (errorMessage : String)
    (release : Bool) : Working (fun _ => True) (settleOperation ctx a tasks newState errorMessage release) := by
  have hmark : ∀ opState, Method.Only Store.Works
      (markTasklessOperationState ctx a opState errorMessage) := by
    intro opState
    refine .bind (works_applyOperationIDForApplyTasks _ _) fun id => ?_
    cases opState
    case completed | failed | failedRetryable | waitingForCutover =>
      exact works_execStateUpdate fun _ _ => ⟨rfl, rfl, .inr trivial⟩
    all_goals
      dsimp only
      split
      · exact works_execStateUpdate fun _ _ => ⟨rfl, rfl, .inr trivial⟩
      · exact .pure _
  refine .ite (fun _ => .bind (.outcome (hmark _)) fun marked _ => ?_) fun _ => .pure trivial
  cases marked with
  | error e | ok u => exact .pure trivial

structure AtomicPollLoop.Keeps (loop : AtomicPollLoop) (apply : Apply) (lease : OperationLease) : Prop where
  id : loop.apply.id = apply.id
  owned : OwnedBy lease loop.tasks
  ne_nil : loop.tasks ≠ []

theorem quietly_handleAtomicReport (hctx : ctx.HoldsOnly lease) (options : ApplyOptions)
    (release : Bool) (hloop : loop.Keeps apply lease)
    (isInstant : Bool) (deployedAt : Option Nat) (tables : Task → Option TableProgress)
    (h : (result.state = .revertWindow && skipRevert) = false) :
    Quietly apply lease (fun r => ∀ next ∈ r, next.Keeps apply lease ∧ next.ps.consecutiveErrors = 0)
      (handleAtomicReport host ctx options release loop result isInstant deployedAt tables skipRevert) := by
  refine .bind (quietly_read fun _ _ => trivial) fun now (_ : True) => ?_
  refine .bind (working_syncAtomicTaskProgress _ _ _ _ _ _).quietly fun tasks htasks => ?_
  refine .bind (quietly_processPendingStopControlRequest hloop.id) fun r hr => ?_
  rw [hr]
  refine .ite nofun fun _ => ?_
  refine .bind (quietly_processPendingCutoverControlRequest hloop.id) fun a ha => ?_
  refine .bind (quietly_skipRevertWindow _ _ _ _ _ h) fun ps hps => ?_
  rw [if_pos hctx.suppresses]
  refine .bind (working_settleOperation _ _ _ _ _).quietly fun done _ => .pure fun next hnext => ?_
  cases done with
  | true => cases hnext
  | false =>
    cases hnext
    exact ⟨⟨ha ▸ hloop.id, htasks.owned hloop.owned, htasks.ne_nil hloop.ne_nil⟩, hps⟩

theorem quietly_savePolledResumeState (hctx : ctx.HoldsOnly lease)
    (hloop : loop.Keeps apply lease) (newResumeState : Option ResumeState) :
    Quietly apply lease (Method.Reported fun _ => True)
      (onStore (savePolledResumeState host ctx loop newResumeState)) := by
  refine quietly_onStore ?_
  unfold savePolledResumeState
  split
  · refine .ite (fun _ => ?_) fun _ => .pure trivial
    exact (Method.Yields.outcome (yields_saveResumeState hctx hloop.owned hloop.ne_nil _ _)).returns
  · exact .pure trivial

theorem quietly_handleAtomicProgressTick (hctx : ctx.HoldsOnly lease) (options : ApplyOptions) (release : Bool)
    (hloop : loop.Keeps apply lease) {poll : AtomicPoll}
    (h : unremarkable loop.ps.consecutiveErrors (poll :: polls) = true) : Quietly apply lease
      (fun r => ∀ next ∈ r, next.Keeps apply lease ∧ unremarkable next.ps.consecutiveErrors polls = true)
      (handleAtomicProgressTick host ctx options release loop poll) := by
  refine .bind (quietly_processPendingStopControlRequest hloop.id) fun r hr => ?_
  rw [hr]
  refine .ite nofun fun _ => ?_
  cases poll with
  | permanent message => cases h
  | transient message retryable =>
    simp only [unremarkable, Bool.and_eq_true, decide_eq_true_eq] at h
    refine .ite (fun hmany => absurd hmany (not_le.2 h.1)) fun _ => .pure fun next hnext => ?_
    cases hnext
    exact ⟨⟨hloop.id, hloop.owned, hloop.ne_nil⟩, h.2⟩
  | report result newResumeState isInstant deployedAt tables skipRevert =>
    simp only [unremarkable, Bool.and_eq_true, Bool.not_eq_true'] at h
    refine .bind (quietly_savePolledResumeState hctx hloop newResumeState) fun saved hsaved => ?_
    cases saved with
    | error e => exact hsaved.elim
    | ok u =>
      have hkept : ({ loop with resumeState := loop.resumeState.map newResumeState.getD } : AtomicPollLoop).Keeps
          apply lease := ⟨hloop.id, hloop.owned, hloop.ne_nil⟩
      refine .mono (fun r hr next hnext => ?_)
        (quietly_handleAtomicReport hctx options release hkept isInstant deployedAt tables h.1)
      obtain ⟨hkeeps, herrors⟩ := hr next hnext
      rw [herrors]
      exact ⟨hkeeps, h.2⟩

theorem quietly_pollForCompletionAtomic (hctx : ctx.HoldsOnly lease) (options : ApplyOptions) (release : Bool)
    : ∀ {loop : AtomicPollLoop}, loop.Keeps apply lease →
      unremarkable loop.ps.consecutiveErrors polls = true →
      Quietly apply lease (fun _ => True) (pollForCompletionAtomic host ctx options release loop polls) := by
  induction polls with
  | nil => exact fun _ _ => .pure trivial
  | cons poll polls ih =>
    intro loop hloop h
    refine .bind (quietly_handleAtomicProgressTick hctx options release hloop h) fun r hr => ?_
    cases r with
    | none => exact .pure trivial
    | some next =>
      obtain ⟨hkeeps, hrest⟩ := hr next rfl
      exact ih hkeeps hrest

end

/-! ## Resumes -/

def Unreported : Option ResumeFailure → Prop
  | some (.other _ _) => False
  | _ => True

/-- What a resumed drive meets outside: the plan is there and its credentials are found, the plan can be made again
and still changes `table`, the engine accepts what it is given, no cutover signal has gone, and the polls see
nothing remarkable. -/
structure Host.Cooperates (host : Host) (apply : Apply) (table : String) : Prop where
  plan : ∃ plan, host.plan apply = some plan ∧ host.credentialsForGroupedApply plan = .ok ()
  replan : ∀ s, ∃ changes, host.planWithEngine s = .ok changes ∧ (replanDDL changes table).isSome = true
  accepts : ∀ tasks, ∃ resumeState isInstant, (host.engineApply tasks).2 = .accepted resumeState isInstant
  signal : ∀ s, host.deferredCutoverSignalExists s ≠ .ok (false, true)
  polls : ∀ a tasks, unremarkable 0 (host.atomicPolls a tasks) = true

section
variable {table : String} {force : Bool} {options : ApplyOptions} {plan : Plan} {tasks : List Task}

theorem works_saveStateChanges (a : Apply) (tasks : List Task) (events : List EngineEvent) :
    Working (fun _ => True) (saveStateChanges ctx a tasks events) := by
  induction events with
  | nil => exact .pure trivial
  | cons event events ih =>
    cases event with
    | phase newState => exact ih
    | stateChange rs => exact .bind (.attempt (works_saveResumeState a tasks rs)) fun _ _ => ih

theorem working_groupedResumeState (a : Apply) (tasks : List Task) :
    Working (fun r => ∀ failure, r = .error failure → Unreported (some failure))
      (groupedResumeState host a tasks) := by
  refine .bind (.outcome (works_applyOperationIDForApplyTasks a tasks)) fun r _ => ?_
  cases r with
  | error e =>
    refine .ite (fun _ => .pure fun failure hf => ?_) fun _ => .pure nofun
    cases hf
    trivial
  | ok id =>
    refine .bind (.read Store.Works.refl fun _ _ => trivial) fun op (_ : True) => ?_
    cases op with
    | none =>
      refine .pure fun failure hf => ?_
      cases hf
      trivial
    | some op => exact .pure nofun

theorem working_acceptedResumeState (a : Apply) (tasks : List Task) (resumeState : ResumeState)
    (returned : Option ResumeState) : Working (fun r => ∀ failure, r = .error failure → Unreported (some failure))
      (acceptedResumeState host ctx a tasks resumeState returned) := by
  have hsaved : Working (fun r => ∀ failure, r = .error failure → Unreported (some failure))
      (if host.databaseType = databaseTypeVitess ∧ (returned.getD resumeState).metadata = "" then
        pure (.error (.unavailable "grouped resume state unavailable: no metadata"))
      else pure (.ok (returned.getD resumeState)) : StoreMethod (Except ResumeFailure ResumeState)) := by
    refine .ite (fun _ => .pure fun failure hf => ?_) fun _ => .pure fun failure hf => ?_
    · cases hf
      trivial
    · cases hf
  refine .ite (fun _ => .bind (.outcome (works_saveResumeState a tasks _)) fun saved _ => ?_) fun _ => hsaved
  cases saved with
  | error e =>
    refine .pure fun failure hf => ?_
    cases hf
    trivial
  | ok u => exact hsaved

theorem quietly_followAtomicResume (hhost : host.Cooperates apply table) (hctx : ctx.HoldsOnly lease) (hid : a.id = apply.id)
    (ho : OwnedBy lease tasks) (hne : tasks ≠ []) (options : ApplyOptions)
    (startRequested release : Bool) (resumeState : ResumeState) : Quietly apply lease Unreported
      (followAtomicResume host ctx a tasks options startRequested release resumeState) := by
  simp only [followAtomicResume, hctx.suppresses, Bool.not_true, Bool.and_false]
  refine .bind (working_markTasksResumed _ _).quietly fun tasks' htasks => ?_
  refine .bind (Q := (· = .ok ())) (.pure rfl) fun written hwritten => ?_
  rw [hwritten]
  refine .ite nofun fun _ => .bind (Q := (· = .ok ())) (.pure rfl) fun completed hcompleted => ?_
  rw [hcompleted]
  exact .bind (quietly_pollForCompletionAtomic hctx options release
    ⟨hid, htasks.owned ho, htasks.ne_nil hne⟩ (hhost.polls _ _)) fun _ _ => .pure trivial

theorem quietly_completeResumedApply (hctx : ctx.HoldsOnly lease) (a : Apply) (startRequested : Bool) :
    Quietly apply lease Unreported (completeResumedApply ctx a startRequested) := by
  refine .bind (quietly_read fun _ _ => trivial) fun now (_ : True) => ?_
  exact .ite (fun _ => .pure trivial) fun hnot => absurd hctx.suppresses hnot

theorem quietly_callAtomicResume (hhost : host.Cooperates apply table) (hctx : ctx.HoldsOnly lease) (n : Nat)
    (hid : a.id = apply.id) (ho : OwnedBy lease tasks) (hne : tasks ≠ [])
    (options : ApplyOptions) (startRequested release : Bool) :
    Quietly apply lease Unreported (callAtomicResume host n ctx a tasks plan options startRequested release) := by
  refine .bind (working_groupedResumeState a tasks).quietly fun r hr => ?_
  cases r with
  | error failure => exact .pure (hr failure rfl)
  | ok resumeState =>
    refine .bind (quietly_callEngine n _) fun _ _ => ?_
    refine .bind (works_saveStateChanges a tasks _).quietly fun _ _ => ?_
    obtain ⟨returned, isInstant, hreply⟩ := hhost.accepts tasks
    rw [hreply]
    refine .bind (working_acceptedResumeState a tasks resumeState returned).quietly fun r hr => ?_
    cases r with
    | error failure => exact .pure (hr failure rfl)
    | ok current =>
      exact quietly_followAtomicResume hhost hctx hid ho hne options startRequested release current

theorem working_replanAndFilterTasks {changes : List EngineSchemaChange}
    (ho : OwnedBy lease tasks) : Working (fun r => OwnedBy lease r.1.activeTasks ∧
      ((∃ t ∈ tasks, t.state ≠ .completed ∧ (replanDDL changes t.tableName).isSome = true) → r.1.activeTasks ≠ []))
      (replanAndFilterTasks (.ok changes) ctx tasks) :=
  .bind (.read Store.Works.refl fun _ _ => trivial) fun now (_ : True) => working_partitionTasks now _ ho

section
variable (hhost : host.Cooperates apply table) (hctx : ctx.HoldsOnly lease) (n : Nat)
  (hid : a.id = apply.id) (ho : OwnedBy lease tasks) (hcred : host.credentialsForGroupedApply plan = .ok ())
  (options : ApplyOptions) (startRequested release : Bool)
include hhost hctx hid ho hcred

theorem quietly_launchAtomicResume : Quietly apply lease (fun r => Unreported r.2)
      (launchAtomicResume host n ctx a tasks plan options startRequested release) := by
  unfold launchAtomicResume
  rw [hcred]
  refine .bind (Q := fun r => ∃ changes, r = .ok changes) (quietly_read fun s _ => ?_) fun replanOut hreplan => ?_
  · obtain ⟨changes, hchanges, -⟩ := hhost.replan s
    exact ⟨changes, hchanges⟩
  obtain ⟨changes, rfl⟩ := hreplan
  refine .bind (Working.quietly (.outcome (working_replanAndFilterTasks ho))) fun r hr => ?_
  cases r with
  | error e => exact hr.elim
  | ok r =>
    obtain ⟨hactive, -⟩ := hr
    refine .ite (fun _ => ?_) fun hne => ?_
    · exact .bind (quietly_completeResumedApply hctx a startRequested) fun failure hf => .pure hf
    · exact .bind (quietly_callAtomicResume hhost hctx n hid hactive hne options startRequested release)
        fun failure hf => .pure hf

theorem quietly_resumeGrouped : Quietly apply lease (fun _ => True)
      (resumeGrouped host n ctx a tasks plan options startRequested release) := by
  refine .bind (quietly_launchAtomicResume hhost hctx n hid ho hcred options startRequested release)
    fun r hr => ?_
  obtain ⟨held, failure⟩ := r
  cases failure with
  | none => exact .pure trivial
  | some failure =>
    cases failure with
    | unavailable message => exact .throw _
    | other message retryable => exact hr.elim

end

def ResumesGrouped (host : Host) (apply : Apply) (options : ApplyOptions) (force : Bool) : Prop :=
  usesGroupedApply apply options.deferCutover = true ∨
    shouldInspectCutoverSignalForResume apply force = true ∧
      ∀ s, host.deferredCutoverSignalExists s = .ok (true, true)

theorem quietly_resumeActiveTasks (hhost : host.Cooperates apply table) (hctx : ctx.HoldsOnly lease) (n : Nat)
    (ho : OwnedBy lease tasks) (hcred : host.credentialsForGroupedApply plan = .ok ())
    (hmode : usesGroupedApply apply options.deferCutover = true) (startRequested release : Bool) :
    Quietly apply lease (fun _ => True)
      (resumeActiveTasks host n ctx apply tasks plan options startRequested release) := by
  refine .bind (working_prepareRetryableTasksForResume apply tasks).quietly fun tasks₁ h₁ => ?_
  refine .bind (working_prepareStoppedTasksForResume startRequested tasks₁).quietly fun tasks₂ h₂ => ?_
  -- Clearing the error of a retried apply changes neither its name nor its mode.
  have hid : (if apply.state = .failedRetryable then { apply with errorMessage := "" } else apply).id = apply.id := by
    split <;> rfl
  have hmode' : usesGroupedApply (if apply.state = .failedRetryable then { apply with errorMessage := "" }
      else apply) options.deferCutover = true := by
    split
    · exact hmode
    · exact hmode
  rw [if_pos hmode']
  exact quietly_resumeGrouped hhost hctx n hid (h₂.owned (h₁.owned ho)) hcred options startRequested release

theorem quietly_markApplyRecovering (hctx : ctx.HoldsOnly lease) (ho : OwnedBy lease tasks) :
    Quietly apply lease (fun r => r.1.id = apply.id ∧ OwnedBy lease r.2) (markApplyRecovering ctx apply tasks) := by
  refine .bind (working_markTasksRecovering tasks).quietly fun tasks' htasks => ?_
  exact .ite (fun _ => .pure ⟨rfl, htasks.owned ho⟩) fun hnot => absurd hctx.suppresses hnot

theorem quietly_recoverStarted (hhost : host.Cooperates apply table) (hctx : ctx.HoldsOnly lease) (n : Nat)
    (ho : OwnedBy lease tasks) (hlive : ∃ t ∈ tasks, t.state ≠ .completed ∧ t.tableName = table)
    (hcred : host.credentialsForGroupedApply plan = .ok ())
    (hmode : ResumesGrouped host apply options force) (release : Bool) : Quietly apply lease (fun _ => True)
      (recoverStarted host n ctx apply tasks plan options release force) := by
  have hcheckpoint : Quietly apply lease (fun _ => True) (do
      let r ← markApplyRecovering ctx apply tasks
      resumeGrouped host n ctx r.1 r.2 plan options false release) := by
    refine .bind (quietly_markApplyRecovering hctx ho) fun r hr => ?_
    exact quietly_resumeGrouped hhost hctx n hr.1 hr.2 hcred options false release
  have hreplan (hgrouped : usesGroupedApply apply options.deferCutover = true) :
      Quietly apply lease (fun _ => True) (do
        let replanOut ← onStore (Method.read host.planWithEngine)
        let r ← onStore (replanAndFilterTasks replanOut ctx tasks)
        if false = true ∧ r.1.activeTasks ≠ [] then do
          failApplyWithTasks ctx apply r.1.activeTasks
            "deferred cutover signal is absent but live schema does not match desired schema; manual reconciliation required"
          notifyTerminalObserver apply
        else do
          let startRequested ← onStore (Method.read (·.hasPending apply.id .start))
          if r.1.activeTasks = [] then completeResume ctx apply startRequested
          else resumeActiveTasks host n ctx apply r.1.activeTasks plan options startRequested release) := by
    refine .bind (Q := fun r => ∃ changes, r = .ok changes ∧ (replanDDL changes table).isSome = true)
      (quietly_read fun s _ => hhost.replan s) fun replanOut hplanned => ?_
    obtain ⟨changes, rfl, hneeded⟩ := hplanned
    refine .bind (working_replanAndFilterTasks ho).quietly fun r hr => ?_
    have hne : r.1.activeTasks ≠ [] := by
      obtain ⟨t, ht, hstate, rfl⟩ := hlive
      exact hr.2 ⟨t, ht, hstate, hneeded⟩
    refine .ite (fun h => absurd h.1 (by decide)) fun _ => ?_
    refine .bind (quietly_read fun _ _ => trivial) fun startRequested (_ : True) => ?_
    refine .ite (fun hnil => absurd hnil hne) fun _ => ?_
    exact quietly_resumeActiveTasks hhost hctx n hr.1 hcred hgrouped startRequested release
  refine .ite (fun hinspect => ?_) fun hskip => ?_
  · refine .bind (Q := fun signal => signal ≠ .ok (false, true) ∧
        (usesGroupedApply apply options.deferCutover = true ∨ signal = .ok (true, true)))
      (quietly_read fun s _ => ⟨hhost.signal s, hmode.imp id fun h => h.2 s⟩) fun signal hs => ?_
    obtain ⟨hpresent, hmode⟩ := hs
    rcases signal with message | ⟨(_ | _), (_ | _)⟩
    · exact .throw _
    · exact hreplan (hmode.resolve_right (by rintro ⟨⟩))
    · exact absurd rfl hpresent
    · exact hreplan (hmode.resolve_right (by rintro ⟨⟩))
    · exact hcheckpoint
  · exact hreplan (hmode.resolve_right fun h => hskip h.1)

theorem quietly_resumeApplyWithTasks (hhost : host.Cooperates apply table) (hctx : ctx.HoldsOnly lease) (n : Nat)
    (hstarted : ¬ (apply.state = .pending ∧ apply.startedAt = none)) (ho : OwnedBy lease tasks)
    (hlive : ∃ t ∈ tasks, t.state ≠ .completed ∧ t.tableName = table)
    (hmode : ResumesGrouped host apply options force) (release : Bool) :
    Quietly apply lease (fun _ => True) (resumeApplyWithTasks host n ctx apply tasks options release force) := by
  obtain ⟨plan, hplan, hcred⟩ := hhost.plan
  refine .bind (quietly_processPendingStopControlRequest rfl) fun r hr => ?_
  subst hr
  refine .ite nofun fun _ => ?_
  simp only [hplan]
  refine .ite (fun hempty => ?_) fun _ => ?_
  · obtain ⟨t, ht, -⟩ := hlive
    rw [hempty.1] at ht
    exact absurd ht List.not_mem_nil
  refine .bind (quietly_processPendingStartControlRequest options release) fun handled hhandled => ?_
  subst hhandled
  refine .ite nofun fun _ => .ite (fun hfresh => absurd hfresh hstarted) fun _ => ?_
  exact quietly_recoverStarted hhost hctx n ho hlive hcred hmode release

theorem working_persistResume (op : ApplyOperation) (rs : ResumeState) :
    Working (fun _ => True) (persistResume ctx op rs) := by
  refine .attempt ?_
  unfold saveEngineResumeState
  split
  · exact .throw _
  · exact works_execStateUpdate fun _ _ => ⟨rfl, rfl, .inl rfl⟩

theorem working_persistStateChanges (op : ApplyOperation) (events : List EngineEvent) :
    Working (fun _ => True) (persistStateChanges ctx op events) := by
  induction events with
  | nil => exact .pure trivial
  | cons event events ih =>
    cases event with
    | phase newState => exact ih
    | stateChange rs => exact .bind (working_persistResume op rs) fun _ _ => ih

theorem working_driveFinalizerToTerminal (op : ApplyOperation) (polls : List AtomicPoll) :
    Working (fun _ => True) (driveFinalizerToTerminal ctx op polls) := by
  induction polls with
  | nil => exact .pure trivial
  | cons poll polls ih =>
    cases poll with
    | permanent message => exact .pure trivial
    | transient message retryable => exact ih
    | report result resumeState isInstant deployedAt tables skipRevert =>
      refine .bind (Q := fun _ => True) ?_ fun _ _ => .ite (fun _ => .pure trivial) fun _ => ih
      cases resumeState with
      | none => exact .pure trivial
      | some rs => exact working_persistResume op rs

theorem quietly_execStateUpdate {id : Nat} {assign : Store → ApplyOperation → ApplyOperation}
    (h : ∀ s o, RowShift (fun _ _ => True) o (assign s o)) :
    Quietly apply lease (fun _ => True) (onStore (execStateUpdate ctx id assign)) := by
  refine quietly_onStore (.of_always ?_)
  exact Method.Ensures.within (fun _ _ hs hst => hs.works hst) (works_execStateUpdate h)

theorem quietly_markCompleted (id : Nat) : Quietly apply lease (fun _ => True) (onStore (markCompleted ctx id)) :=
  quietly_execStateUpdate fun _ _ => ⟨rfl, rfl, .inr trivial⟩

theorem quietly_failClosed (op : ApplyOperation) (message : String) :
    Quietly apply lease (fun _ => True) (failClosed ctx op message) := by
  have hfailed : Quietly apply lease (fun _ => True) (onStore (markFailed ctx op.id message)) :=
    quietly_execStateUpdate fun _ _ => ⟨rfl, rfl, .inr trivial⟩
  exact .bind (Method.Yields.attempt hfailed.always).returns fun _ _ => .throw _

theorem quietly_driveGroupFinalizer (n : Nat) (op : ApplyOperation) :
    Quietly apply lease (fun _ => True) (driveGroupFinalizer host n ctx apply op) := by
  have hstarted : Quietly apply lease (fun _ => True) (onStore (markStarted ctx op.id)) :=
    quietly_execStateUpdate fun _ _ => ⟨rfl, rfl, .inr trivial⟩
  unfold driveGroupFinalizer
  cases host.plan apply with
  | none => exact .throw _
  | some plan =>
    dsimp only
    cases finalizerVSchemaChanges plan (namespaceFromFinalizerKey op.operationKey) with
    | error message => exact .throw _
    | ok namespaces =>
      cases host.credentialsForGroupedApply plan with
      | error message => exact .throw _
      | ok u =>
        refine .bind hstarted fun _ _ => .bind (quietly_callEngine n _) fun _ _ => ?_
        refine .bind (working_persistStateChanges op _).quietly fun _ _ => ?_
        cases (host.engineApply []).2 with
        | failed message retryable | rejected message => exact quietly_failClosed op _
        | accepted resumeState isInstant =>
          cases resumeState with
          | none => exact quietly_markCompleted op.id
          | some rs =>
            refine .bind (working_persistResume op rs).quietly fun _ _ => ?_
            refine .bind (working_driveFinalizerToTerminal op _).quietly fun r _ => ?_
            cases r with
            | error message => exact quietly_failClosed op _
            | ok state => exact .ite (fun _ => quietly_markCompleted op.id) fun _ => quietly_failClosed op _

end

/-! ## Drives of an operation -/

inductive OperationDrive
  | copy | cutover
  deriving DecidableEq

def OperationDrive.method (host : Host) (n : Nat) (ctx : Ctx) (apply : Apply) (operationId : Nat) :
    OperationDrive → DriveMethod Unit
  | .copy => resumeApplyOperation host n ctx apply operationId
  | .cutover => resumeApplyOperationCutover host n ctx apply operationId

structure Store.Finalizes (s : Store) (operationId : Nat) : Prop where
  kind : ∀ op ∈ s.operations, op.id = operationId → op.operationKind = .groupFinalizer
  noTasks : s.getByApplyOperationID operationId = []

/-- The drive resumes its operation by a grouped apply: on Vitess, from the checkpoint of a deferred cutover, or by
a cutover that the apply defers, or that its operations have to wait for. -/
inductive Store.RunsGrouped (s : Store) (host : Host) (apply : Apply) (operationId : Nat) : OperationDrive → Prop
  | vitess {drive : OperationDrive} (hdb : apply.databaseType = databaseTypeVitess) :
      s.RunsGrouped host apply operationId drive
  | checkpoint {drive : OperationDrive}
      (hstate : shouldInspectCutoverSignalForResume apply (drive = .cutover) = true)
      (hsignal : ∀ t, host.deferredCutoverSignalExists t = .ok (true, true)) :
      s.RunsGrouped host apply operationId drive
  | deferred (hdb : apply.databaseType = databaseTypeMySQL) (hdefer : (apply.options.getD {}).deferCutover = true) :
      s.RunsGrouped host apply operationId .copy
  | barrier (hdb : apply.databaseType = databaseTypeMySQL)
      (hpolicy : ∀ op ∈ s.operations, op.id = operationId → op.cutoverPolicy = .barrier)
      (hmany : 1 < (s.operations.filter (·.applyId = apply.id)).length) :
      s.RunsGrouped host apply operationId .copy

structure Store.Resumes (s : Store) (host : Host) (apply : Apply) (operationId : Nat) (table : String)
    (drive : OperationDrive) : Prop where
  live : ∃ t ∈ s.getByApplyOperationID operationId, t.state ≠ .completed ∧ t.tableName = table
  grouped : s.RunsGrouped host apply operationId drive

/-- What a drive may rely on while it runs: the store stays calm, and what is `kept` stays. -/
def Site.undisturbed (apply : Apply) (lease : OperationLease) (kept : Store → Prop) : Evolution Site where
  inv w := w.store.Calm apply lease
  le v w := kept v.store → kept w.store
  move v w := v.LeavesParents w ∧ (v.store.Calm apply lease → w.store.Calm apply lease)
  refl _ := id
  trans h h' := h' ∘ h
  stay _ := ⟨⟨rfl, rfl, rfl⟩, id⟩
  keep h hmove := hmove.2 h

section
variable {kept : Store → Prop} {w : Site} {op : ApplyOperation} {operationId : Nat} {s : Store}

theorem acts_of_quietly {α : Type} {Q : α → Prop} {m : DriveMethod α}
    (h : Quietly apply lease Q m) : Method.Acts (Site.undisturbed apply lease kept) (fun _ _ => True) m w := by
  have hinv : Method.Ensures (fun w => w.store.Calm apply lease)
      (fun v w => v.LeavesParents w ∧ (v.store.Calm apply lease → w.store.Calm apply lease)) (Method.OnOk Q) m :=
    Method.Ensures.keeping h
  exact .of_ensures hinv fun _ _ _ hmove => hmove

theorem acts_read_bind {α β : Type} {f : Store → α} {g : α → DriveMethod β} {R : β → Site → Prop}
    (hw : kept w.store)
    (h : ∀ v : Site, kept v.store → Method.Acts (Site.undisturbed apply lease kept) R (g (f v.store)) v) :
    Method.Acts (Site.undisturbed apply lease kept) R (onStore (Method.read f) >>= g) w :=
  Method.Acts.read_bind fun v hwv _ => h v (hwv hw)

theorem acts_loadOperation {R : ApplyOperation → Prop}
    (hR : ∀ s, kept s → ∀ op ∈ s.operations, op.id = operationId → R op) (hw : kept w.store) :
    Method.Acts (Site.undisturbed apply lease kept) (fun op v => R op ∧ kept v.store)
      (onStore (loadOperation apply operationId)) w := by
  unfold loadOperation
  rw [onStore_bind]
  refine acts_read_bind hw fun v hkept => ?_
  cases hfind : v.store.operations.find? (·.id = operationId) with
  | none => exact fun _ _ _ => trivial
  | some op =>
    have hop : R op := hR v.store hkept op (List.mem_of_find?_eq_some hfind) (by simpa using List.find?_some hfind)
    dsimp only
    split
    · exact fun u hvu _ => ⟨hop, hvu hkept⟩
    · exact fun _ _ _ => trivial

theorem Store.ownedBy_getByApplyOperationID (s : Store) (lease : OperationLease) :
    OwnedBy lease (s.getByApplyOperationID lease.operationId) := by
  intro t ht
  have hfilter := (List.mem_filter.1 ht).2
  simp only [Bool.and_eq_true, decide_eq_true_eq] at hfilter
  exact hfilter.1

theorem acts_of_finalizes (drive : OperationDrive) (n : Nat) (hw : w.store.Finalizes lease.operationId) :
    Method.Acts (Site.undisturbed apply lease (·.Finalizes lease.operationId)) (fun _ _ => True)
      (drive.method host n ctx apply lease.operationId) w := by
  have hload : Method.Acts (Site.undisturbed apply lease (·.Finalizes lease.operationId))
      (fun op v => op.operationKind = .groupFinalizer ∧ v.store.Finalizes lease.operationId)
      (onStore (loadOperation apply lease.operationId)) w := acts_loadOperation (fun s hs => hs.kind) hw
  cases drive with
  | copy | cutover =>
    refine .sequence hload fun op v _ hop => acts_read_bind hop.2 fun u hu => ?_
    rw [hu.noTasks]
    exact .ite (fun _ => acts_of_quietly (quietly_driveGroupFinalizer n op)) fun hkind =>
      absurd hop.1 hkind

theorem resumesGrouped_of_vitess (hdb : apply.databaseType = databaseTypeVitess) (options : ApplyOptions)
    (force : Bool) : ResumesGrouped host apply options force :=
  .inl (by simp [usesGroupedApply, hdb])

theorem resumesGrouped_of_defer (hdb : apply.databaseType = databaseTypeMySQL) {options : ApplyOptions}
    (hdefer : options.deferCutover = true) (force : Bool) : ResumesGrouped host apply options force :=
  .inl (by simp [usesGroupedApply, hdb, hdefer])

theorem Store.RunsGrouped.of_operation
    (h : s.RunsGrouped host apply operationId .copy) (hmem : op ∈ s.operations) (hid : op.id = operationId) :
    ResumesGrouped host apply (effectiveCopyDriveOptions apply true op) false := by
  cases h with
  | vitess hdb => exact resumesGrouped_of_vitess hdb _ _
  | checkpoint hstate hsignal => exact .inr ⟨hstate, hsignal⟩
  | deferred hdb hdefer => exact resumesGrouped_of_defer hdb (by simp [effectiveCopyDriveOptions, hdefer]) _
  | barrier hdb hpolicy hmany =>
    refine resumesGrouped_of_defer hdb ?_ _
    simp [effectiveCopyDriveOptions, shouldAutoDeferCutover, hpolicy op hmem hid]

theorem Store.RunsGrouped.of_siblings (h : s.RunsGrouped host apply operationId .copy)
    (hop : ResumesGrouped host apply (effectiveCopyDriveOptions apply true op) false) :
    ResumesGrouped host apply (effectiveCopyDriveOptions apply
      (decide (1 < (s.operations.filter (·.applyId = apply.id)).length)) op) false := by
  cases h with
  | vitess hdb => exact resumesGrouped_of_vitess hdb _ _
  | checkpoint hstate hsignal => exact .inr ⟨hstate, hsignal⟩
  | deferred hdb hdefer => exact resumesGrouped_of_defer hdb (by simp [effectiveCopyDriveOptions, hdefer]) _
  | barrier hdb hpolicy hmany =>
    rw [decide_eq_true hmany]
    exact hop

theorem Store.RunsGrouped.of_cutover (options : ApplyOptions)
    (h : s.RunsGrouped host apply operationId .cutover) : ResumesGrouped host apply options true := by
  cases h with
  | vitess hdb => exact resumesGrouped_of_vitess hdb _ _
  | checkpoint hstate hsignal => exact .inr ⟨hstate, hsignal⟩

theorem acts_of_resumes {table : String} (drive : OperationDrive) (n : Nat) (hctx : ctx.HoldsOnly lease)
    (hhost : host.Cooperates apply table) (hstarted : ¬ (apply.state = .pending ∧ apply.startedAt = none))
    (hw : w.store.Resumes host apply lease.operationId table drive) :
    Method.Acts (Site.undisturbed apply lease (·.Resumes host apply lease.operationId table drive))
      (fun _ _ => True) (drive.method host n ctx apply lease.operationId) w := by
  cases drive with
  | copy =>
    have hload : Method.Acts (Site.undisturbed apply lease (·.Resumes host apply lease.operationId table .copy))
        (fun op v => ResumesGrouped host apply (effectiveCopyDriveOptions apply true op) false ∧
          v.store.Resumes host apply lease.operationId table .copy)
        (onStore (loadOperation apply lease.operationId)) w :=
      acts_loadOperation (fun s hs op hmem hid => hs.grouped.of_operation hmem hid) hw
    refine .sequence hload fun op v _ hop => acts_read_bind hop.2 fun u hu => ?_
    have ho := u.store.ownedBy_getByApplyOperationID lease
    obtain ⟨t, ht, hlive⟩ := hu.live
    cases htasks : u.store.getByApplyOperationID lease.operationId with
    | nil => rw [htasks] at ht; cases ht
    | cons task tasks =>
      rw [htasks] at ho ht
      refine acts_read_bind hu fun x hx => acts_of_quietly (Q := fun _ => True) ?_
      exact quietly_resumeApplyWithTasks hhost hctx n hstarted ho ⟨t, ht, hlive⟩
        (hx.grouped.of_siblings hop.1) _
  | cutover =>
    have hload : Method.Acts (Site.undisturbed apply lease (·.Resumes host apply lease.operationId table .cutover))
        (fun op v => True ∧ v.store.Resumes host apply lease.operationId table .cutover)
        (onStore (loadOperation apply lease.operationId)) w :=
      acts_loadOperation (fun _ _ _ _ _ => trivial) hw
    refine .sequence hload fun op v _ hop => acts_read_bind hop.2 fun u hu => ?_
    have ho := u.store.ownedBy_getByApplyOperationID lease
    obtain ⟨t, ht, hlive⟩ := hu.live
    cases htasks : u.store.getByApplyOperationID lease.operationId with
    | nil => rw [htasks] at ht; cases ht
    | cons task tasks =>
      rw [htasks] at ho ht
      refine .ite (fun _ => .throw _) fun _ => acts_of_quietly (Q := fun _ => True) ?_
      exact quietly_resumeApplyWithTasks hhost hctx n hstarted ho ⟨t, ht, hlive⟩
        (hu.grouped.of_cutover _) _

end

/-! ## The apply of an operation -/

/-- The drives that leave the apply alone: those of finalizers, and the grouped resumes of operations that still have
something to do, of applies that are not new, where nothing outside goes wrong. -/
inductive OperationDrive.Spares (drive : OperationDrive) (host : Host) (apply : Apply) (lease : OperationLease)
    (s : Store) : Prop
  | finalizes (h : s.Finalizes lease.operationId)
  | resumes {table : String} (hhost : host.Cooperates apply table)
      (hstarted : ¬ (apply.state = .pending ∧ apply.startedAt = none))
      (h : s.Resumes host apply lease.operationId table drive)

structure OperationDrive.Undisturbed (drive : OperationDrive) (host : Host) (apply : Apply) (lease : OperationLease)
    (s t : Store) : Prop where
  calm : s.Calm apply lease → t.Calm apply lease
  finalizes : s.Finalizes lease.operationId → t.Finalizes lease.operationId
  resumes : ∀ table, s.Resumes host apply lease.operationId table drive →
    t.Resumes host apply lease.operationId table drive

/-- In every run of a drive that holds an operation lease only, whatever it has come to, no statement of the drive
turns to an apply: nothing is written, nothing is heartbeated and no observer is told, provided that the drive starts
as one that spares its apply and that the others do not disturb it. -/
theorem operation_drive_leaves_parent (drive : OperationDrive) {host : Host} {ctx : Ctx} {apply : Apply}
    {lease : OperationLease} (n : Nat) {rely : Site → Site → Prop} {w v : Site} {moves : List (Site × Site)}
    {q : Prog Site (Except StoreError Unit)} (hctx : ctx.HoldsOnly lease) (hcalm : w.store.Calm apply lease)
    (hspares : drive.Spares host apply lease w.store)
    (hrely : ∀ t u, rely t u → drive.Undisturbed host apply lease t.store u.store)
    (hrun : Prog.Partway rely (drive.method host n ctx apply lease.operationId).run w moves q v) :
    ∀ m ∈ moves, m.1.LeavesParents m.2 := by
  intro m hm
  cases hspares with
  | finalizes h =>
    have hacts := hrun.acts
      (fun t u ht hstep => ⟨(hrely t u hstep).finalizes, (hrely t u hstep).calm ht⟩) (acts_of_finalizes drive n h) hcalm
    exact (hacts.1 m hm).1
  | @resumes table hhost hstarted h =>
    have hacts := hrun.acts
     
      (fun t u ht hstep => ⟨(hrely t u hstep).resumes table, (hrely t u hstep).calm ht⟩)
      (acts_of_resumes drive n hctx hhost hstarted h) hcalm
    exact (hacts.1 m hm).1

namespace Sample

def startedApply : Apply :=
  { id := 1, applyIdentifier := "apply-1", databaseType := databaseTypeMySQL, state := .running, startedAt := some 1 }

def operationLease : OperationLease := { applyId := 1, operationId := 1, token := 7 }

def operationCtx : Ctx := { applyLease := none, operationLease := some operationLease }

def operationStore (apply : Apply) : Store :=
  { applies := [apply]
    operations :=
      [{ id := 1, applyId := 1, deployment := "a", state := .running, cutoverPolicy := .barrier, leaseToken := 7 },
       { id := 2, applyId := 1, deployment := "b", state := .running, cutoverPolicy := .barrier, leaseToken := 8 }]
    tasks := [{ id := 1, taskIdentifier := "task-1", applyId := 1, applyOperationId := some 1, tableName := "users"
                state := .running }]
    now := 9 }

def copyingHost : Host where
  database := "app"
  databaseType := databaseTypeMySQL
  engineApply _ := ([], .accepted none false)
  progress _ := [some { state := .completed }]
  atomicPolls _ _ :=
    [.transient "timeout" true, .report { state := .waitingForCutover } none false none (fun _ => none) false]
  planWithEngine _ := .ok [{ namespaceName := "app", tableChanges := [{ table := "users", ddl := "ALTER" }] }]
  plan _ := some { namespaces := [("app", {})] }

def queuedApply : Apply := { startedApply with state := .pending, startedAt := none }

def queuedStore : Store :=
  { operationStore queuedApply with
    operations := [{ id := 1, applyId := 1, deployment := "a", state := .running, leaseToken := 7 }] }

def vitessApply : Apply :=
  { startedApply with databaseType := databaseTypeVitess, options := some { skipRevert := true } }

def vitessHost : Host :=
  { copyingHost with
    databaseType := databaseTypeVitess
    engineApply := fun _ => ([], .accepted (some ⟨"context", "metadata"⟩) false)
    atomicPolls := fun _ _ => [.report { state := .revertWindow } none false none (fun _ => none) true] }

end Sample

open Sample in
/-- Drives that hold an operation lease only and turn to the apply all the same: a new one heartbeats it, asks for two
writes of its row and tells its observer; a resumed one, in a poll that skips the revert window, writes its row. -/
theorem operation_drive_turns_to_parent : suppressParentApplyWrites operationCtx = true ∧
    ((resumeApplyOperation copyingHost 0 operationCtx queuedApply 1).call
      { store := queuedStore, observers := [1] }).1.parentCalls =
      [.heartbeat 1, .update 1, .update 1, .onTerminal 1] ∧
    ((resumeApplyOperation vitessHost 0 operationCtx vitessApply 1).call
      { store := operationStore vitessApply }).1.parentCalls = [.setRevertSkipped 1] ∧
    ((resumeApplyOperation vitessHost 0 operationCtx vitessApply 1).call
      { store := operationStore vitessApply }).1.store.applies.map (·.revertSkippedAt) = [some 9] := by
  decide +kernel

open Sample in
/-- The conditions hold of an operation that is resumed up to the barrier: the engine is called, the task waits for its
cutover, and no statement turns to the apply. -/
theorem barrier_resume_leaves_parent : ((OperationDrive.copy.method copyingHost 0 operationCtx startedApply 1).call
      { store := operationStore startedApply, observers := [1] }).1.store.tasks.map (·.state) = [.waitingForCutover] ∧
    ∀ m ∈ (OperationDrive.copy.method copyingHost 0 operationCtx startedApply 1).run.moves
        { store := operationStore startedApply, observers := [1] }, m.1.LeavesParents m.2 := by
  have hhost : copyingHost.Cooperates startedApply "users" :=
    { plan := ⟨_, rfl, rfl⟩
      replan := fun _ => ⟨_, rfl, by decide⟩
      accepts := fun _ => ⟨_, _, rfl⟩
      signal := fun _ h => by cases h
      polls := fun _ _ => rfl }
  have hresumes : (operationStore startedApply).Resumes copyingHost startedApply operationLease.operationId "users"
      .copy := ⟨⟨_, .head _, by decide, rfl⟩, .barrier rfl (by decide) (by decide)⟩
  have hrun := Prog.partway_exec (fun _ _ => False)
    (OperationDrive.copy.method copyingHost 0 operationCtx startedApply operationLease.operationId).run
    { store := operationStore startedApply, observers := [1] }
  refine ⟨by decide +kernel, ?_⟩
  exact operation_drive_leaves_parent .copy 0 ⟨rfl, rfl, rfl⟩ ⟨by decide, by decide, by decide, by decide⟩
    (.resumes hhost (by decide) hresumes) (fun _ _ h => h.elim) hrun

end SchemaBot
