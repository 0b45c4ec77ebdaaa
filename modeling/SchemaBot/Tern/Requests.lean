import Mathlib.Data.List.Dedup
import SchemaBot.Lib.Triples
import SchemaBot.Tern.OperationDrives

/-!
# The requests of the drives of a shard

An operation of a sharded apply has the tasks of one shard. Its drives ask the engine in one of two ways.
-/

namespace SchemaBot

open Concurrent

variable {α β : Type} {P : EngineApplyRequest → Prop} {host : Host} {ctx : Ctx} {apply : Apply}
  {tasks : List Task} {plan : Plan} {shard : String}

/-- The requests that a statement issues are in `P`. -/
def Site.Issues (P : EngineApplyRequest → Prop) (w w' : Site) : Prop :=
  ∃ new, w'.requests = w.requests ++ new ∧ ∀ r ∈ new, P r

theorem Site.Issues.none {P : EngineApplyRequest → Prop} {w w' : Site} (h : w'.requests = w.requests) :
    w.Issues P w' := ⟨[], by rw [h, List.append_nil], nofun⟩

/-- All requests that the piece of a drive issues are in `P`, whatever the others do meanwhile. -/
def Issues {α : Type} (P : EngineApplyRequest → Prop) (m : DriveMethod α) : Prop :=
  Method.Only (Site.Issues P) m

/-! ## Pieces that issue nothing -/

section
variable {m : DriveMethod α}

theorem Issues.bind {g : α → DriveMethod β} (hm : Issues P m) (hg : ∀ a, Issues P (g a)) : Issues P (m >>= g) :=
  Method.Always.bind hm hg

theorem Issues.pure (a : α) : Issues P (pure a : DriveMethod α) := Method.Always.pure a

theorem Issues.throw (e : StoreError) : Issues P (throw e : DriveMethod α) := Method.Always.throw e

theorem Issues.ite {c : Prop} [Decidable c] {m' : DriveMethod α} (h : c → Issues P m) (h' : ¬ c → Issues P m') :
    Issues P (if c then m else m') :=
  Method.Always.ite h h'

theorem Issues.attempt (h : Issues P m) : Issues P (Method.attempt m) :=
  (Method.Yields.attempt h).returns.always

theorem Issues.outcome (h : Issues P m) : Issues P (Method.outcome m) :=
  (Method.Yields.outcome h).returns.always

theorem Issues.read (f : Site → α) : Issues P (Method.read f) := Method.Always.read (fun _ => .none rfl) f

theorem Issues.onStore (m : StoreMethod α) : Issues P (onStore m) :=
  Prog.Ensures.mono (fun _ _ => trivial) (Prog.Ensures.zoom (fun _ _ => .none rfl) m.run)

theorem Issues.store {m : StoreMethod α} {g : α → DriveMethod β} (hg : ∀ a, Issues P (g a)) :
    Issues P (SchemaBot.onStore m >>= g) :=
  .bind (.onStore m) hg

theorem Issues.unless {c : Prop} [Decidable c] {a : α} (h : ¬ c → Issues P m) :
    Issues P (if c then Pure.pure a else m) :=
  .ite (fun _ => .pure a) h

theorem issues_callParent (call : ParentCall) : Issues P (callParent call) :=
  Method.Always.step fun _ => .none rfl

theorem issues_updateParent (a : Apply) : Issues P (updateParent ctx a) :=
  .bind (issues_callParent _) fun _ => .onStore _

theorem issues_notifyTerminalObserver (a : Apply) : Issues P (notifyTerminalObserver a) := by
  refine .write fun w _ => ?_
  split
  · exact ⟨.none rfl, trivial⟩
  · exact ⟨.none rfl, trivial⟩

theorem issues_settleApply (newState : ApplyState) (completedAt : Option Nat) (errMsg : String) :
    Issues P (settleApply ctx apply newState completedAt errMsg) :=
  .bind (.read _) fun _ => .unless fun _ => .attempt (issues_updateParent _)

theorem issues_failApplyWithTasks (errMsg : String) : Issues P (failApplyWithTasks ctx apply tasks errMsg) :=
  .store fun _ => .store fun _ => issues_settleApply _ _ _

theorem issues_markApplyRetryableWithTasks (errMsg : String) :
    Issues P (markApplyRetryableWithTasks ctx apply tasks errMsg) :=
  .store fun _ => issues_settleApply _ _ _

theorem issues_markApplyStarted : Issues P (markApplyStarted ctx apply) :=
  .store fun _ => .bind (.attempt (issues_updateParent _)) fun _ => .pure _

theorem issues_loadForStop (id : Nat) (purpose : String) : Issues P (loadForStop id purpose) := by
  refine .store fun found => ?_
  cases found with
  | none => exact .throw _
  | some a => exact .pure _

theorem issues_markApplyStopped (id : Nat) : Issues P (markApplyStopped ctx id) :=
  .bind (issues_loadForStop _ _) fun _ => .unless fun _ => issues_updateParent _

theorem issues_markApplyCancelled (id : Nat) : Issues P (markApplyCancelled ctx id) :=
  .bind (issues_loadForStop _ _) fun _ => .store fun _ => issues_updateParent _

theorem issues_handleStopAllTasksTerminal (id : Nat) : Issues P (handleStopAllTasksTerminal ctx id) :=
  .bind (issues_loadForStop _ _) fun _ => .unless fun _ =>
    .store fun _ => .store fun _ => issues_updateParent _

theorem issues_stopOwnedApply : Issues P (stopOwnedApply host ctx apply) := by
  refine .store fun all => .store fun found => ?_
  cases found with
  | none => exact .throw _
  | some target =>
    refine .ite (fun _ => .throw _) fun _ => .bind (Method.Always.lift _) fun asked => .store fun counts => ?_
    refine .ite (fun _ => ?_) fun _ => .ite (fun _ => .throw _) fun _ => .unless fun _ =>
      .bind (issues_handleStopAllTasksTerminal _) fun _ => .pure _
    exact .ite (fun _ => .bind (issues_markApplyCancelled _) fun _ => .pure _)
      fun _ => .bind (issues_markApplyStopped _) fun _ => .pure _

theorem issues_processPendingStop : Issues P (processPendingStopControlRequest host ctx apply) := by
  refine .store fun request => ?_
  cases request with
  | none => exact .pure _
  | some _ =>
    refine .store fun resolved => ?_
    cases resolved with
    | some stored => exact .onStore _
    | none =>
      refine .ite (fun _ => .store fun _ => .onStore _) fun _ => .store fun _ => ?_
      refine .ite (fun _ => .store fun _ => .pure _) fun _ => .bind issues_stopOwnedApply fun _ => ?_
      refine .ite (fun _ => .store fun resolved => ?_) fun _ => .throw _
      cases resolved with
      | none => exact .throw _
      | some stored => exact .pure _

theorem issues_processPendingCutover : Issues P (processPendingCutoverControlRequest host ctx apply) := by
  refine .store fun request => ?_
  cases request with
  | none => exact .pure _
  | some _ =>
    have hmark : Issues P (markApplyCuttingOverForControlRequest ctx apply) :=
      .ite (fun _ => .bind (issues_updateParent _) fun _ => .pure _) fun _ => .pure _
    refine .ite (fun _ => .store fun _ => .pure _) fun _ => ?_
    refine .ite (fun _ => .store fun _ => .throw _) fun _ => .unless fun _ => ?_
    refine .store fun ready => .unless fun _ => .store fun stop => ?_
    refine .ite (fun _ => .throw _) fun _ => .bind hmark fun a => .store fun answer => ?_
    cases answer with
    | some message => exact .store fun _ => .throw _
    | none => exact .store fun _ => .pure _

theorem issues_pollTaskToCompletion (results : List (Option ProgressResult)) (apply : Apply) (task : Task) :
    Issues P (pollTaskToCompletion host ctx apply task results) := by
  induction results generalizing apply task with
  | nil => exact .pure _
  | cons result results ih =>
    refine .bind issues_processPendingStop fun handled => .unless fun _ => ?_
    refine .bind issues_processPendingCutover fun a => .bind (.read _) fun fresh => ?_
    cases fresh.filter (·.state.isTerminal) with
    | some fresh => exact .pure _
    | none =>
      cases result with
      | none => exact ih _ _
      | some result =>
        exact .store fun _ => .store fun _ => .unless fun _ => ih _ _

theorem issues_deriveAggregateApplyState : Issues P (deriveAggregateApplyState apply tasks) := by
  unfold deriveAggregateApplyState
  cases classifyOperationTasks tasks with
  | none => exact .pure _
  | some operationId =>
    cases operationId with
    | none => exact .pure _
    | some operationId => exact .bind (.read _) fun _ => .unless fun _ => .pure _

theorem issues_updateDerivedParent (expected : ApplyState) : Issues P (updateDerivedParent ctx apply expected) :=
  .bind (issues_callParent _) fun _ => .onStore _

theorem issues_skipRevertWindow (options : ApplyOptions) (now : Nat) (result : ProgressResult)
    (deployedAt : Option Nat) (skipRevert : Bool) (ps : AtomicPollState) :
    Issues P (skipRevertWindow host ctx options apply now result deployedAt skipRevert ps) := by
  have hmark : Issues P (markRevertSkipped ctx apply) :=
    .bind (issues_callParent _) fun _ => .store fun _ => .attempt (.onStore _)
  exact .ite (fun _ => .ite (fun _ => .bind hmark fun _ => .pure _) fun _ => .pure _) fun _ => .pure _

theorem issues_projectTasks (newState : TaskState) (result : ProgressResult) (now : Nat) (release : Bool) :
    Issues P (projectTasks ctx apply tasks newState result now release) := by
  -- The projection is read or known; what follows is the same.
  refine .ite (fun _ => .bind (.pure _) fun derived => ?_)
    fun _ => .bind issues_deriveAggregateApplyState fun derived => ?_
  all_goals
    refine .store fun found => ?_
    cases found with
    | none => exact .pure _
    | some fresh =>
      refine .ite (fun _ => .store fun _ => .pure _) fun _ => .ite (fun _ => ?_) fun _ => ?_
      · refine .bind (.outcome (issues_updateDerivedParent _)) fun r => ?_
        split
        · exact .pure _
        · refine .store fun _ => .unless fun _ => ?_
          exact .bind (issues_notifyTerminalObserver _) fun _ => .pure _
      · refine .bind (.outcome (issues_updateDerivedParent _)) fun r => ?_
        split
        · exact .pure _
        · exact .pure _

section
variable (options : ApplyOptions) (release : Bool) (loop : AtomicPollLoop)

theorem issues_handleAtomicReport
    (result : ProgressResult) (isInstant : Bool) (deployedAt : Option Nat) (tables : Task → Option TableProgress)
    (skipRevert : Bool) :
    Issues P (handleAtomicReport host ctx options release loop result isInstant deployedAt tables skipRevert) := by
  refine .store fun now => .store fun tasks => .bind issues_processPendingStop fun handled => ?_
  refine .unless fun _ => .bind issues_processPendingCutover fun a => ?_
  refine .bind (issues_skipRevertWindow _ _ _ _ _ _) fun ps => .ite (fun _ => ?_) fun _ => ?_
  · exact .store fun _ => .pure _
  · exact .bind (issues_projectTasks _ _ _ _) fun _ => .pure _

theorem issues_handleAtomicProgressTick
    (poll : AtomicPoll) : Issues P (handleAtomicProgressTick host ctx options release loop poll) := by
  refine .bind issues_processPendingStop fun handled => .unless fun _ => ?_
  cases poll with
  | permanent message => exact .bind (issues_failApplyWithTasks _) fun _ => .pure _
  | transient message retryable =>
    refine .ite (fun _ => .ite (fun _ => ?_) fun _ => ?_) fun _ => .pure _
    · exact .bind (issues_markApplyRetryableWithTasks _) fun _ => .pure _
    · exact .bind (issues_failApplyWithTasks _) fun _ => .pure _
  | report result newResumeState isInstant deployedAt tables skipRevert =>
    refine .store fun saved => ?_
    cases saved with
    | error e => exact .bind (issues_markApplyRetryableWithTasks _) fun _ => .pure _
    | ok _ => exact issues_handleAtomicReport _ _ _ _ _ _ _ _

theorem issues_pollForCompletionAtomic
    (polls : List AtomicPoll) : Issues P (pollForCompletionAtomic host ctx options release loop polls) := by
  induction polls generalizing loop with
  | nil => exact .pure _
  | cons poll polls ih =>
    refine .bind (issues_handleAtomicProgressTick _ _ _ _) fun next => ?_
    cases next with
    | none => exact .pure _
    | some loop => exact ih loop

end

theorem issues_handleEngineEvents (events : List EngineEvent) (apply : Apply) :
    Issues P (handleEngineEvents ctx tasks apply events) := by
  induction events generalizing apply with
  | nil => exact .pure _
  | cons event events ih =>
    cases event with
    | phase newState =>
      exact .ite (fun _ => ih _) fun _ => .bind (.outcome (issues_updateParent _)) fun _ => ih _
    | stateChange rs => exact .bind (.attempt (.onStore _)) fun _ => ih _

theorem issues_completeTaskless : Issues P (completeTasklessGroupedApply ctx apply) :=
  .ite (fun _ => .onStore _) fun _ => .store fun _ => .bind (issues_updateParent _) fun _ =>
    issues_notifyTerminalObserver _

theorem issues_launchGroupedApply (options : ApplyOptions) (release : Bool) (resumeState : Option ResumeState)
    (isInstant : Bool) : Issues P (launchGroupedApply host ctx options release apply tasks resumeState isInstant) :=
  .store fun _ => .bind (.attempt (issues_updateParent _)) fun _ => issues_pollForCompletionAtomic _ _ _ _

theorem issues_finalizeSequentialApply (loopEnd : LoopEnd) :
    Issues P (finalizeSequentialApply ctx apply tasks loopEnd) := by
  have hnotify : ∀ a : Apply, Issues P (if a.state = .failedRetryable then pure () else notifyTerminalObserver a) :=
    fun a => .unless fun _ => issues_notifyTerminalObserver _
  refine .store fun now => .store fun fresh => .ite (fun _ => .onStore _) fun _ => ?_
  refine .ite (fun _ => .store fun _ => ?_) fun _ => ?_
  all_goals
    refine .bind (.attempt (issues_updateParent _)) fun _ => ?_
    exact .ite (fun _ => .store fun _ => hnotify _) fun _ => hnotify _

theorem issues_processPendingStart (options : ApplyOptions) (release : Bool) :
    Issues P (processPendingStartControlRequest host ctx apply options release) := by
  refine .store fun start => .unless fun _ => .store fun stop => ?_
  refine .unless fun _ => .unless fun _ => .store fun started => ?_
  cases started with
  | error message => exact .store fun _ => .throw _
  | ok started =>
    exact .store fun _ => .bind (issues_updateParent _) fun _ => .store fun _ =>
      .bind (issues_pollForCompletionAtomic _ _ _ _) fun _ => .pure _

theorem issues_followAtomicResume (options : ApplyOptions) (startRequested release : Bool)
    (resumeState : ResumeState) :
    Issues P (followAtomicResume host ctx apply tasks options startRequested release resumeState) := by
  refine .store fun ts => .ite (fun _ => .bind (.pure _) fun written => ?_)
    fun _ => .bind (.outcome (issues_updateParent _)) fun written => ?_
  all_goals
    cases written with
    | error e => exact .pure _
    | ok _ =>
      refine .ite (fun _ => .store fun completed => ?_) fun _ => .bind (.pure _) fun completed => ?_
      all_goals
        cases completed with
        | error e => exact .pure _
        | ok _ =>
          refine .ite (fun _ => .bind (issues_pollForCompletionAtomic _ _ _ _) fun _ => .pure _) fun _ => ?_
          exact .bind (issues_callParent _) fun _ => .bind (issues_pollForCompletionAtomic _ _ _ _) fun _ => .pure _

theorem issues_completeResumedApply (startRequested : Bool) :
    Issues P (completeResumedApply ctx apply startRequested) := by
  refine .store fun now => .unless fun _ => ?_
  refine .bind (.outcome (issues_updateParent _)) fun written => ?_
  cases written with
  | error e => exact .pure _
  | ok _ =>
    refine .ite (fun _ => .store fun completed => ?_) fun _ => .bind (.pure _) fun completed => ?_
    all_goals
      cases completed with
      | error e => exact .pure _
      | ok _ => exact .bind (issues_notifyTerminalObserver _) fun _ => .pure _

theorem issues_handleGroupedResumeFailure (errMsg : String) (retryable startRequested : Bool) :
    Issues P (handleGroupedResumeFailure host ctx apply tasks errMsg retryable startRequested) := by
  have hend : Issues P (do
      notifyTerminalObserver apply
      (throw ⟨errMsg, .unnamed⟩ : DriveMethod Unit)) := .bind (issues_notifyTerminalObserver _) fun _ => .throw _
  refine .ite (fun _ => issues_markApplyRetryableWithTasks _) fun _ => .bind (issues_failApplyWithTasks _) fun _ => ?_
  exact .ite (fun _ => .store fun _ => hend) fun _ => hend

theorem issues_failResume (errorMessage : String) : Issues P (failResume ctx apply errorMessage) :=
  .bind (.attempt (issues_updateParent _)) fun _ => issues_notifyTerminalObserver _

theorem issues_completeResume (startRequested : Bool) : Issues P (completeResume ctx apply startRequested) := by
  refine .store fun now => .bind (.attempt (issues_updateParent _)) fun _ => ?_
  exact .ite (fun _ => .store fun _ => issues_notifyTerminalObserver _)
    fun _ => issues_notifyTerminalObserver _

end

/-! ## Pieces that call the engine -/

section
variable {task : Task}

theorem issues_callEngine (n : Nat) {request : EngineApplyRequest} (h : P request) :
    Issues P (callEngine n request) :=
  Method.Always.step fun _ => ⟨[request], rfl, fun _ hr => List.mem_singleton.1 hr ▸ h⟩

theorem issues_runEngineTask (n : Nat) (h : P (sequentialRequest task)) :
    Issues P (runEngineTask host n ctx apply task) := by
  refine .bind issues_processPendingStop fun handled => .unless fun _ => ?_
  cases (if host.databaseType = databaseTypeMySQL then host.credentialsForMySQLNamespace task.namespaceName
    else .ok ()) with
  | error errMsg => exact .store fun _ => .pure _
  | ok u =>
    refine .bind (issues_callEngine n h) fun _ => ?_
    cases (host.engineApply [task]).2 with
    | failed errMsg retryable | rejected errMsg => exact .store fun _ => .pure _
    | accepted resumeState isInstant =>
      exact .store fun _ => .store fun _ =>
        .bind (issues_pollTaskToCompletion _ _ _) fun _ => .pure _

theorem issues_runReadyTask (n : Nat) (resumed : Bool) (h : P (sequentialRequest task)) :
    Issues P (runReadyTask host n ctx resumed apply task) := by
  refine .ite (fun _ => ?_) fun _ => issues_runEngineTask n h
  have hneeds : Issues P (tableStillNeedsChange host task.tableName) := by
    refine .store fun planned => ?_
    cases planned with
    | error message | ok changes => exact .pure _
  refine .bind hneeds fun needs => ?_
  split
  · exact .store fun _ => .store fun _ => .pure _
  · exact issues_runEngineTask n h

theorem issues_runTasks (n : Nat) (resumed : Bool) (h : ∀ t ∈ tasks, P (sequentialRequest t)) :
    Issues P (runTasks host n ctx resumed apply tasks) := by
  induction tasks generalizing apply with
  | nil => exact .pure _
  | cons task tasks ih =>
    obtain ⟨htask, htasks⟩ := List.forall_mem_cons.1 h
    have hready : Issues P (checkTaskReady n task) := by
      refine .bind (.read _) fun cancelled => .unless fun _ => .bind (.read _) fun fresh => ?_
      cases fresh with
      | none => exact .pure _
      | some fresh => exact .unless fun _ => .unless fun _ => .pure _
    have hrest : ∀ (a : Apply) (t : Task), Issues P
        (runTasks host n ctx resumed a tasks >>= fun r => pure (r.1, t :: r.2.1, r.2.2)) :=
      fun a t => .bind (ih htasks) fun _ => .pure _
    refine .bind issues_processPendingStop fun handled => .unless fun _ => .bind hready fun action => ?_
    split
    · exact .pure _
    · exact hrest _ _
    · refine .bind (issues_runReadyTask n resumed htask) fun r => ?_
      obtain ⟨a, t, action⟩ := r
      cases action with
      | failed | stopped => exact .pure _
      | «continue» | skip => exact hrest _ _

theorem issues_runSequential (n : Nat) (resumed : Bool) (h : ∀ t ∈ tasks, P (sequentialRequest t)) :
    Issues P (runSequential host n ctx resumed apply tasks) :=
  .bind (issues_runTasks n resumed h) fun _ => issues_finalizeSequentialApply _

theorem issues_executeGroupedApply (n : Nat) (options : ApplyOptions) (release : Bool)
    (h : ∀ rs, P (groupedRequest tasks plan rs)) :
    Issues P (executeGroupedApply host n ctx apply tasks plan options release) := by
  refine .bind (issues_callParent _) fun _ => .ite (fun _ => issues_failApplyWithTasks _) fun _ => ?_
  refine .ite (fun _ => issues_failApplyWithTasks _) fun _ => ?_
  cases host.credentialsForGroupedApply plan with
  | error errMsg => exact issues_failApplyWithTasks _
  | ok _ =>
    refine .bind issues_markApplyStarted fun a => .bind issues_processPendingStop fun handled => ?_
    refine .unless fun _ => .bind (issues_callEngine n (h _)) fun _ => ?_
    refine .bind (issues_handleEngineEvents _ _) fun a => ?_
    cases (host.engineApply tasks).2 with
    | failed errMsg retryable =>
      exact .ite (fun _ => issues_markApplyRetryableWithTasks _) fun _ => issues_failApplyWithTasks _
    | rejected errMsg => exact issues_failApplyWithTasks _
    | accepted resumeState isInstant =>
      refine .ite (fun _ => .attempt issues_completeTaskless) fun _ => .ite (fun _ => ?_)
        fun _ => issues_launchGroupedApply _ _ _ _
      cases resumeState with
      | none => exact issues_failApplyWithTasks _
      | some rs =>
        exact .store fun _ => .ite (fun _ => issues_launchGroupedApply _ _ _ _)
          fun _ => issues_failApplyWithTasks _

theorem issues_callAtomicResume (n : Nat) (options : ApplyOptions) (startRequested release : Bool)
    (h : ∀ rs, P (groupedRequest tasks plan rs)) :
    Issues P (callAtomicResume host n ctx apply tasks plan options startRequested release) := by
  refine .store fun found => ?_
  cases found with
  | error failure => exact .pure _
  | ok resumeState =>
    refine .bind (issues_callEngine n (h _)) fun _ => .store fun _ => ?_
    cases (host.engineApply tasks).2 with
    | failed message retryable | rejected message => exact .pure _
    | accepted returned isInstant =>
      refine .store fun current => ?_
      cases current with
      | error failure => exact .pure _
      | ok current => exact issues_followAtomicResume _ _ _ _

end

/-! ## Drives of a shard -/

def OfShard (shard : String) (tasks : List Task) : Prop := ∀ t ∈ tasks, t.shard = shard

theorem OfShard.cons {shard : String} {t : Task} {ts : List Task} (ht : t.shard = shard) (hts : OfShard shard ts) :
    OfShard shard (t :: ts) := List.forall_mem_cons.2 ⟨ht, hts⟩

abbrev Hands {α : Type} (Q : α → Prop) (m : StoreMethod α) : Prop :=
  Method.Gives (fun _ _ => True) Q m

theorem hands_transitionTaskState (ctx : Ctx) (t : Task) (newState : TaskState) :
    Hands (fun t' => t'.shard = t.shard) (transitionTaskState ctx t newState) := by
  have htrivial : Method.Only (fun _ _ => True) (updateTask ctx { t with state := newState }) :=
    always_updateTask (fun _ => trivial) fun _ => .step fun _ => trivial
  exact .bind (Method.Yields.attempt htrivial).returns fun _ _ => .pure rfl

theorem Hands.cons {m : StoreMethod Task} {ms : StoreMethod (List Task)} (hm : Hands (fun t => t.shard = shard) m)
    (hms : Hands (OfShard shard) ms) : Hands (OfShard shard) (do
      let t ← m
      let ts ← ms
      pure (t :: ts)) :=
  .bind hm fun _ ht => .bind hms fun _ hts => .pure (OfShard.cons ht hts)

theorem hands_markTasksRecovering (h : OfShard shard tasks) :
    Hands (OfShard shard) (markTasksRecovering ctx tasks) := by
  induction tasks with
  | nil => exact .pure h
  | cons t ts ih =>
    obtain ⟨rfl, hts⟩ := List.forall_mem_cons.1 h
    exact .ite (fun _ => Hands.cons (.pure rfl) (ih hts))
      fun _ => Hands.cons (hands_transitionTaskState ctx t _) (ih hts)

theorem hands_prepareRetryableTasks (apply : Apply) (h : OfShard shard tasks) :
    Hands (OfShard shard) (prepareRetryableTasksForResume ctx apply tasks) := by
  induction tasks with
  | nil => exact .pure h
  | cons t ts ih =>
    obtain ⟨rfl, hts⟩ := List.forall_mem_cons.1 h
    have hmoved := hands_transitionTaskState ctx
      { t with attempt := t.attempt + 1, errorMessage := "", completedAt := none } .pending
    exact .ite (fun _ => Hands.cons hmoved (ih hts)) fun _ => Hands.cons (.pure rfl) (ih hts)

theorem hands_prepareStoppedTasks (startRequested : Bool) (h : OfShard shard tasks) :
    Hands (OfShard shard) (prepareStoppedTasksForResume ctx startRequested tasks) := by
  induction tasks with
  | nil => exact .pure h
  | cons t ts ih =>
    obtain ⟨rfl, hts⟩ := List.forall_mem_cons.1 h
    have hmoved := hands_transitionTaskState ctx { t with completedAt := none } .pending
    exact .ite (fun _ => Hands.cons hmoved (ih hts)) fun _ => Hands.cons (.pure rfl) (ih hts)

theorem hands_partitionTasks (now : Nat) (ddls : String → Option String) (h : OfShard shard tasks) :
    Hands (fun r => OfShard shard r.1.activeTasks) (partitionTasks ctx now ddls tasks) := by
  induction tasks with
  | nil => exact .pure h
  | cons t ts ih =>
    obtain ⟨ht, hts⟩ := List.forall_mem_cons.1 h
    refine .ite (fun _ => .bind (ih hts) fun _ hr => .pure hr) fun _ => ?_
    cases ddls t.tableName with
    | none => exact .bind (hands_transitionTaskState ctx _ _) fun _ _ => .bind (ih hts) fun _ hr => .pure hr
    | some ddl => exact .bind (ih hts) fun _ hr => .pure (OfShard.cons ht hr)

theorem hands_replanAndFilterTasks (replanOut : Except String (List EngineSchemaChange)) (h : OfShard shard tasks) :
    Hands (fun r => OfShard shard r.1.activeTasks) (replanAndFilterTasks replanOut ctx tasks) := by
  cases replanOut with
  | error message => exact .throw _
  | ok changes =>
    exact .bind (.read (Q := fun _ => True) (fun _ => trivial) fun _ _ => trivial) fun now _ =>
      hands_partitionTasks now _ h

theorem Issues.bind_store {Q : α → Prop} {m : StoreMethod α} {g : α → DriveMethod β} (hm : Hands Q m)
    (hg : ∀ a, Q a → Issues P (g a)) : Issues P (SchemaBot.onStore m >>= g) := by
  have hzoom : Method.Gives (Site.Issues P) Q (SchemaBot.onStore m) :=
    Prog.Ensures.zoom_inv (fun _ _ _ => .none rfl) hm
  have hall : Method.Gives (Site.Issues P) (fun _ => True) (SchemaBot.onStore m >>= g) :=
    .bind hzoom fun a ha => .of_always (hg a ha)
  exact hall.always

/-- The requests of the drives of a shard, which `P` has to allow. -/
structure AllowsShard (P : EngineApplyRequest → Prop) (shard : String) : Prop where
  sequential : ∀ t : Task, t.shard = shard → P (sequentialRequest t)
  grouped : ∀ (ts : List Task) (plan : Plan) (rs : ResumeState), ts ≠ [] → OfShard shard ts →
    P (groupedRequest ts plan rs)

section
variable (hP : AllowsShard P shard) (n : Nat) (options : ApplyOptions)
include hP

theorem issues_launchAtomicResume (startRequested release : Bool) (h : OfShard shard tasks) :
    Issues P (launchAtomicResume host n ctx apply tasks plan options startRequested release) := by
  unfold launchAtomicResume
  cases host.credentialsForGroupedApply plan with
  | error message => exact .pure _
  | ok _ =>
    refine .store fun replanOut => ?_
    refine .bind_store (Method.Yields.outcome (hands_replanAndFilterTasks replanOut h)).returns fun r hr => ?_
    cases r with
    | error e => exact .pure _
    | ok rp =>
      refine .ite (fun _ => .bind (issues_completeResumedApply _) fun _ => .pure _) fun hne => ?_
      exact .bind (issues_callAtomicResume n _ _ _ fun rs => hP.grouped _ _ _ hne hr) fun _ => .pure _

theorem issues_resumeGrouped (startRequested release : Bool) (h : OfShard shard tasks) :
    Issues P (resumeGrouped host n ctx apply tasks plan options startRequested release) := by
  refine .bind (issues_launchAtomicResume hP n options startRequested release h) fun ⟨ts, failure⟩ => ?_
  cases failure with
  | none => exact .pure _
  | some failure =>
    cases failure with
    | unavailable message => exact .throw _
    | other message retryable => exact issues_handleGroupedResumeFailure _ _ _

theorem issues_resumeActiveTasks (startRequested release : Bool) (h : OfShard shard tasks) :
    Issues P (resumeActiveTasks host n ctx apply tasks plan options startRequested release) := by
  refine .bind_store (hands_prepareRetryableTasks apply h) fun ts hts => ?_
  refine .bind_store (hands_prepareStoppedTasks startRequested hts) fun ts hts => ?_
  refine .ite (fun _ => issues_resumeGrouped hP n _ _ _ hts) fun _ => .bind (issues_updateParent _) fun _ => ?_
  have hseq : ∀ a : Apply, Issues P (resumeApplySequential host n ctx a ts) := fun a =>
    .bind (issues_callParent _) fun _ => issues_runSequential n _ fun t ht => hP.sequential t (hts t ht)
  exact .ite (fun _ => .store fun _ => hseq _) fun _ => hseq _

theorem issues_recoverStarted (release force : Bool) (h : OfShard shard tasks) :
    Issues P (recoverStarted host n ctx apply tasks plan options release force) := by
  have hrecovering : Method.Gives (Site.Issues P) (fun r => OfShard shard r.2)
      (markApplyRecovering ctx apply tasks) := by
    have hmarked : Method.Gives (Site.Issues P) (OfShard shard)
        (SchemaBot.onStore (markTasksRecovering ctx tasks)) :=
      Prog.Ensures.zoom_inv (fun _ _ _ => .none rfl) (hands_markTasksRecovering h)
    refine .bind hmarked fun ts hts => .ite (fun _ => .pure hts) fun _ => ?_
    exact .bind (.of_always (issues_updateParent _)) fun _ _ => .pure hts
  refine .ite (fun _ => .store fun signal => ?_) fun _ => .bind (.pure _) fun signal => ?_
  all_goals
    dsimp only
    split
    · exact .throw _
    · exact (Method.Returns.bind hrecovering fun r hr => .of_always (issues_resumeGrouped hP n _ _ _ hr)).always
    · refine .store fun replanOut => .bind_store (hands_replanAndFilterTasks replanOut h) fun r hr => ?_
      refine .ite (fun _ => ?_) fun _ => ?_
      · exact .bind (issues_failApplyWithTasks _) fun _ => issues_notifyTerminalObserver _
      · refine .store fun startRequested => .ite (fun _ => issues_completeResume _) fun _ => ?_
        exact issues_resumeActiveTasks hP n _ _ _ hr

theorem issues_resumeApplyWithTasks (release force : Bool) (h : OfShard shard tasks) (hne : tasks ≠ []) :
    Issues P (resumeApplyWithTasks host n ctx apply tasks options release force) := by
  refine .bind issues_processPendingStop fun ⟨handled, a⟩ => .unless fun _ => ?_
  cases host.plan a with
  | none => exact issues_failResume _
  | some plan =>
    refine .ite (fun _ => issues_failResume _) fun _ => .bind (issues_processPendingStart _ _) fun started => ?_
    refine .unless fun _ => .ite (fun _ => ?_) fun _ => issues_recoverStarted hP n _ _ _ h
    refine .ite (fun _ => issues_executeGroupedApply n _ _ fun rs => hP.grouped _ _ _ hne h) fun _ => ?_
    exact .bind (issues_callParent _) fun _ => .bind issues_markApplyStarted fun _ =>
      issues_runSequential n _ fun t ht => hP.sequential t (h t ht)

end

/-! ## Operations of a shard -/

structure Store.ShardScoped (s : Store) (operationId : Nat) (shard : String) : Prop where
  named : shard ≠ ""
  tasks : s.getByApplyOperationID operationId ≠ []
  ofShard : OfShard shard (s.getByApplyOperationID operationId)

theorem taskTargetShards_ofShard {shard : String} {tasks : List Task} (hnamed : shard ≠ "") (hne : tasks ≠ [])
    (h : OfShard shard tasks) : taskTargetShards tasks = [shard] := by
  have hmap : tasks.map (·.shard) = List.replicate tasks.length shard :=
    List.map_eq_replicate_iff.2 h
  have hlength : tasks.length ≠ 0 := fun hzero => hne (List.length_eq_zero_iff.1 hzero)
  unfold taskTargetShards
  rw [hmap, List.filter_replicate_of_pos (by simpa using hnamed), List.replicate_dedup hlength,
    List.mergeSort_singleton]

structure EngineApplyRequest.ForShard (shard : String) (r : EngineApplyRequest) : Prop where
  tasks : r.tasks ≠ []
  ofShard : OfShard shard r.tasks
  names_iff : (∀ t ∈ r.tasks, r.targetShards = [t.shard]) ↔ r.mode = .grouped

theorem allowsShard_forShard {shard : String} (hnamed : shard ≠ "") :
    AllowsShard (EngineApplyRequest.ForShard shard) shard where
  sequential t ht := by
    refine ⟨List.cons_ne_nil _ _, OfShard.cons ht nofun, ?_⟩
    constructor
    · intro h
      cases h t (.head _)
    · intro h
      cases h
  grouped ts plan rs hne hts := by
    refine ⟨hne, hts, fun _ => rfl, fun _ t ht => ?_⟩
    rw [hts t ht]
    exact taskTargetShards_ofShard hnamed hne hts

def Site.sharded (operationId : Nat) (shard : String) : Evolution Site where
  inv _ := True
  le w w' := w.store.ShardScoped operationId shard → w'.store.ShardScoped operationId shard
  move := Site.Issues (EngineApplyRequest.ForShard shard)
  refl _ := id
  trans h h' := h' ∘ h
  stay _ := .none rfl
  keep _ _ := trivial

section
variable {operationId : Nat} {shard : String}

theorem stable_shardScoped :
    (Site.sharded operationId shard).Stable fun w => w.store.ShardScoped operationId shard :=
  fun _ _ _ _ hle => hle

theorem triple_loadOperation :
    Method.Triple (Site.sharded operationId shard) (fun w => w.store.ShardScoped operationId shard)
      (fun _ w => w.store.ShardScoped operationId shard) (onStore (loadOperation apply operationId)) := by
  have hread : Method.Gives (fun s t : Store => t = s) (fun _ => True)
      (loadOperation apply operationId) := by
    refine .bind (.read (Q := fun _ => True) (fun _ => rfl) fun _ _ => trivial) fun found _ => ?_
    cases found with
    | none => exact .throw _
    | some op => exact .ite (fun _ => .pure trivial) fun _ => .throw _
  have hset : ∀ (w : Site) (s : Store), s = w.store → Site.storePart.set w s = w := by
    rintro w s rfl
    rfl
  have hzoom : Method.Gives (fun w w' : Site => w' = w) (fun _ => True)
      (onStore (loadOperation apply operationId)) := 
    Prog.Ensures.zoom_inv (G := fun w w' : Site => w' = w) hset hread
  refine .post (.of_returns stable_shardScoped hzoom (fun _ _ _ => trivial) fun w w' _ hw hw' => ?_)
    fun _ _ _ h => h.2
  rw [hw']
  exact ⟨.none rfl, hw⟩

theorem triple_resumeApplyWithTasks (n : Nat) (options : ApplyOptions) (release force : Bool) {tasks : List Task}
    (hnamed : shard ≠ "") (hne : tasks ≠ []) (h : OfShard shard tasks) :
    Method.Triple (Site.sharded operationId shard) (fun _ => True) (fun _ _ => True)
      (resumeApplyWithTasks host n ctx apply tasks options release force) := by
  have hissues : Issues (EngineApplyRequest.ForShard shard)
      (resumeApplyWithTasks host n ctx apply tasks options release force) :=
    issues_resumeApplyWithTasks (allowsShard_forShard hnamed) n options release force h hne
  exact .post (.of_returns .true (.of_always hissues) (fun _ _ _ => trivial) fun _ _ _ _ h => ⟨h, trivial⟩)
    fun _ _ _ _ => trivial

theorem triple_operationDrive (drive : OperationDrive) (n : Nat) :
    Method.Triple (Site.sharded operationId shard) (fun w => w.store.ShardScoped operationId shard)
      (fun _ _ => True) (drive.method host n ctx apply operationId) := by
  have hload : Method.Triple (Site.sharded operationId shard) (fun w => w.store.ShardScoped operationId shard)
      (fun tasks _ => shard ≠ "" ∧ tasks ≠ [] ∧ OfShard shard tasks)
      (onStore (Method.read (·.getByApplyOperationID operationId))) :=
    .read stable_shardScoped (fun _ => .const _) fun w _ hw => ⟨hw.named, hw.tasks, hw.ofShard⟩
  have hlook : ∀ {α : Type} (f : Store → α), Method.Triple (Site.sharded operationId shard) (fun _ => True)
      (fun _ _ => True) (onStore (Method.read f)) :=
    fun f => .read .true (fun _ => .true) fun _ _ _ => trivial
  -- The tasks that are loaded fix the rest of the drive.
  have hloaded : ∀ {g : List Task → DriveMethod Unit},
      (∀ tasks, shard ≠ "" → tasks ≠ [] → OfShard shard tasks → Method.Triple (Site.sharded operationId shard)
        (fun _ => True) (fun _ _ => True) (g tasks)) →
      Method.Triple (Site.sharded operationId shard) (fun w => w.store.ShardScoped operationId shard)
        (fun _ _ => True) (onStore (Method.read (·.getByApplyOperationID operationId)) >>= g) := by
    intro g hg
    refine .bind hload fun tasks w hw htasks => ?_
    exact hg tasks htasks.1 htasks.2.1 htasks.2.2 w hw trivial
  cases drive with
  | copy =>
    refine .bind triple_loadOperation fun op => hloaded fun tasks hnamed hne htasks => ?_
    cases tasks with
    | nil => exact absurd rfl hne
    | cons task tasks =>
      exact .bind (hlook _) fun siblings => triple_resumeApplyWithTasks n _ _ _ hnamed hne htasks
  | cutover =>
    refine .bind triple_loadOperation fun op => hloaded fun tasks hnamed hne htasks => ?_
    cases tasks with
    | nil => exact absurd rfl hne
    | cons task tasks =>
      exact .ite (fun _ => .throw _) fun _ => triple_resumeApplyWithTasks n _ _ _ hnamed hne htasks

/-- In every run of a drive of a shard's operation, whatever it has come to, every request that it has issued is for
tasks of the shard, and names the shard of its tasks exactly if it is one of a grouped apply. -/
theorem shard_requests_iff (drive : OperationDrive) (n : Nat) {rely : Site → Site → Prop} {w v : Site}
    {moves : List (Site × Site)} {q : Prog Site (Except StoreError Unit)}
    (hscoped : w.store.ShardScoped operationId shard)
    (hrely : ∀ t u, rely t u → t.store.ShardScoped operationId shard → u.store.ShardScoped operationId shard)
    (hrun : Prog.Partway rely (drive.method host n ctx apply operationId).run w moves q v) :
    ∀ m ∈ moves, ∃ issued, m.2.requests = m.1.requests ++ issued ∧
      ∀ r ∈ issued, (r.tasks ≠ [] ∧ ∀ t ∈ r.tasks, t.shard = shard) ∧
        ((∀ t ∈ r.tasks, r.targetShards = [t.shard]) ↔ r.mode = .grouped) := by
  intro m hm
  have hacts := hrun.acts (fun t u _ hstep => ⟨hrely t u hstep, trivial⟩)
    (triple_operationDrive drive n w trivial hscoped) trivial
  obtain ⟨issued, hissued, hfor⟩ := hacts.1 m hm
  exact ⟨issued, hissued, fun r hr => ⟨⟨(hfor r hr).tasks, (hfor r hr).ofShard⟩, (hfor r hr).names_iff⟩⟩

end

namespace Sample

def shardApply (databaseType : String) : Apply :=
  { id := 1, applyIdentifier := "apply-1", database := "app", databaseType, leaseToken := 7 }

def shardStore (databaseType : String) : Store where
  applies := [shardApply databaseType]
  operations := [{ id := 1, applyId := 1, deployment := "a", operationKey := "commerce/-80/users", state := .running
                   leaseToken := 5 }]
  tasks := [{ id := 1, taskIdentifier := "task-1", applyId := 1, applyOperationId := some 1
              namespaceName := "commerce", tableName := "users", shard := "-80", ddl := "ALTER TABLE users" }]

def shardHost (databaseType : String) : Host where
  database := "app"
  databaseType := databaseType
  engineApply _ := ([], .accepted (some ⟨"context", "metadata"⟩) false)
  progress _ := [some { state := .completed }]
  plan _ := some { namespaces := [("commerce", {})] }

def shardCtx : Ctx := { applyLease := some { applyId := 1, token := 7 }, operationLease := none }

def shardRequests (databaseType : String) : List EngineApplyRequest :=
  (Method.call (resumeApplyOperation (shardHost databaseType) 0 shardCtx (shardApply databaseType) 1)
    { store := shardStore databaseType }).1.requests

end Sample

open Sample in
/-- A sequential drive asks the engine for the change of one shard without naming the shard. -/
theorem sequential_request_names_no_shard :
    ((shardStore "strata").getByApplyOperationID 1).map (·.shard) = ["-80"] ∧
      (shardRequests "strata").map (fun r => (r.tasks.map (·.shard), r.targetShards)) = [(["-80"], [])] := by
  decide +kernel

open Sample in
/-- A grouped drive names it. -/
theorem grouped_request_names_shard :
    (shardRequests databaseTypeVitess).map (fun r => (r.mode, r.targetShards)) = [(.grouped, ["-80"])] ∧
    ∀ m ∈ Prog.moves (OperationDrive.copy.method (shardHost databaseTypeVitess) 0 shardCtx
        (shardApply databaseTypeVitess) 1).run { store := shardStore databaseTypeVitess },
      ∃ issued, m.2.requests = m.1.requests ++ issued ∧
        ∀ r ∈ issued, (r.tasks ≠ [] ∧ ∀ t ∈ r.tasks, t.shard = "-80") ∧
          ((∀ t ∈ r.tasks, r.targetShards = [t.shard]) ↔ r.mode = .grouped) := by
  refine ⟨by decide +kernel, ?_⟩
  have hscoped : (shardStore databaseTypeVitess).ShardScoped 1 "-80" := by
    refine ⟨by decide, by decide +kernel, ?_⟩
    unfold OfShard
    decide +kernel
  have hrun := Prog.partway_exec (fun _ _ => False) (OperationDrive.copy.method (shardHost databaseTypeVitess) 0
    shardCtx (shardApply databaseTypeVitess) 1).run { store := shardStore databaseTypeVitess }
  exact shard_requests_iff .copy 0 hscoped (fun _ _ h => h.elim) hrun

end SchemaBot
