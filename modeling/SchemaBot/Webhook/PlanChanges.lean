import SchemaBot.Lib.Reports
import SchemaBot.Webhook.Deliveries
import SchemaBot.Webhook.Rows

/-!
# Plans with nothing to apply

A plan has changes of tables and of VSchemas, by namespace.
-/

namespace SchemaBot.Webhook

open Concurrent

section
variable {r : PlanResponse} {E : Reply → Prop} {cfg : ServerConfig} {cached : Option String}
  {handling : Handle} {repo : String} {pr : Nat} {schema : SchemaRequest} {environment : String}
  {result : CommandResult}

/-! ## Changes -/

def SchemaChange.changesVSchema (sc : SchemaChange) : Bool := sc.vschemaDiff ≠ "" || sc.vschemaChanged

def PlanResponse.changesVSchema (r : PlanResponse) : Bool := r.changes.any (·.changesVSchema)

def PlanResponse.Unchanged (r : PlanResponse) : Prop :=
  ∀ sc ∈ r.changes, sc.tableChanges = [] ∧ sc.changesVSchema = false

instance (r : PlanResponse) : Decidable r.Unchanged :=
  inferInstanceAs (Decidable (∀ sc ∈ r.changes, sc.tableChanges = [] ∧ sc.changesVSchema = false))

theorem PlanResponse.flatTables_eq_nil : r.flatTables = [] ↔ ∀ sc ∈ r.changes, sc.tableChanges = [] :=
  List.flatMap_eq_nil_iff

theorem PlanResponse.changesVSchema_eq_false :
    r.changesVSchema = false ↔ ∀ sc ∈ r.changes, sc.changesVSchema = false := by
  unfold changesVSchema
  rw [List.any_eq_false]
  exact forall₂_congr fun sc _ => Bool.eq_false_iff.symm

theorem PlanResponse.unchanged_iff : r.Unchanged ↔ r.flatTables = [] ∧ r.changesVSchema = false := by
  rw [flatTables_eq_nil, changesVSchema_eq_false]
  exact ⟨fun h => ⟨fun sc hsc => (h sc hsc).1, fun sc hsc => (h sc hsc).2⟩,
    fun h sc hsc => ⟨h.1 sc hsc, h.2 sc hsc⟩⟩

theorem PlanResponse.conclusion_eq_success : r.conclusion = .success ↔ r.errors = [] ∧ r.flatTables = [] := by
  unfold conclusion
  split
  · next he => exact ⟨nofun, fun h => absurd h.1 he⟩
  · next he =>
    split
    · next hf => exact ⟨nofun, fun h => absurd h.2 hf⟩
    · next hf => exact ⟨fun _ => ⟨not_not.1 he, not_not.1 hf⟩, fun _ => rfl⟩

/-! ## Parts of the handlers that always return -/

section
variable {headSHA : String} {planId : String} {req : PlanRequest}

theorem failsOnly_fetchPullRequest : Method.FailsOnly E (fetchPullRequest cached repo pr) := by
  cases cached with
  | some headSHA => exact .pure _
  | none => exact .read _

theorem failsOnly_locksRelease {database dbType owner : String} :
    Method.FailsOnly E (locksRelease database dbType owner) := .returned _

theorem failsOnly_locksAcquire {lock : Lock} : Method.FailsOnly E (locksAcquire lock) := .returned _

theorem failsOnly_upsertPlanCheckRecord :
    Method.FailsOnly E (upsertPlanCheckRecord cached repo pr schema r environment) := by
  refine .ite (fun _ => .pure _) fun _ => .bind failsOnly_fetchPullRequest fun current => ?_
  cases current with
  | error e => exact .pure _
  | ok current =>
    refine .ite (fun _ => .pure _) fun _ => .bind (.bind (.write _) fun inserted => ?_) fun _ => .pure _
    exact .ite (fun _ => .pure _) fun _ => .discard (.write _)

theorem failsOnly_publishCheckRun {headSHA name basis : String} {existing : Option Check} {status : CheckStatus}
    {conclusion : Conclusion} {made : Made} :
    Method.FailsOnly E (publishCheckRun cfg repo headSHA existing name status conclusion basis made) := by
  cases existing with
  | none => exact .write _
  | some e => exact .ite (fun _ => .write _) fun _ => .write _

theorem failsOnly_upsertAggregateCheckRun {headSHA checkName : String} {dbChecks : List Check} :
    Method.FailsOnly E (upsertAggregateCheckRun cfg repo pr headSHA dbChecks checkName environment) := by
  refine .bind (.write _) fun _ => .bind (.read _) fun existing => ?_
  refine .bind failsOnly_publishCheckRun fun published => ?_
  cases published with
  | none => exact .pure _
  | some checkRunId => exact .discard (.write _)

theorem failsOnly_verifyHeadSHAStillCurrentForPR :
    Method.FailsOnly E (verifyHeadSHAStillCurrentForPR cached repo pr headSHA) := by
  refine .ite (fun _ => .pure _) fun _ => .bind failsOnly_fetchPullRequest fun current => ?_
  cases current with
  | error e | ok current => exact .pure _

theorem failsOnly_updateAggregateCheck : Method.FailsOnly E (updateAggregateCheck cfg cached repo pr headSHA) := by
  refine .ite (fun _ => ?_) fun _ => .pure _
  refine .bind failsOnly_verifyHeadSHAStillCurrentForPR fun current => .ite (fun _ => ?_) fun _ => .pure _
  refine .bind (.write _) fun checks => .ite (fun _ => .pure _) fun _ => ?_
  refine .ite (fun _ => failsOnly_upsertAggregateCheckRun) fun _ => .forM fun environment => ?_
  exact .ite (fun _ => .pure _) fun _ => failsOnly_upsertAggregateCheckRun

theorem failsOnly_recordApplyPlan : Method.FailsOnly E (recordApplyPlan cfg repo pr schema r environment) := by
  refine .bind (.bind failsOnly_upsertPlanCheckRecord fun _ => .pure _) fun headSHA => ?_
  exact .ite (fun _ => failsOnly_updateAggregateCheck) fun _ => .pure _

theorem failsOnly_updateCheckRecordForApplyStart {applyId : Nat} : Method.FailsOnly E
      (updateCheckRecordForApplyStart cfg cached repo pr handling schema environment applyId) := by
  refine .bind (.read _) fun existing => ?_
  cases existing with
  | some existing => exact .bind (.discard (.write _)) fun _ => .bind failsOnly_updateAggregateCheck fun _ => .pure _
  | none =>
    refine .bind failsOnly_fetchPullRequest fun current => ?_
    cases current with
    | error e => exact .pure _
    | ok current =>
      exact .bind (.discard (.write _)) fun _ => .bind failsOnly_updateAggregateCheck fun _ => .pure _

theorem failsOnly_executePlan : Method.FailsOnly E (executePlan req) := by
  refine .bind (.read _) fun answer => ?_
  cases answer with
  | error e => exact .pure _
  | ok planned =>
    show Method.FailsOnly E (storePlanResponse req planned)
    unfold storePlanResponse
    split
    · exact .pure _
    · exact .bind (.write _) fun _ => .pure _

theorem failsOnly_executePlanWithTransientRetry : Method.FailsOnly E (executePlanWithTransientRetry req) := by
  refine .bind failsOnly_executePlan fun answer => ?_
  cases answer with
  | ok resp => exact .pure _
  | error e => exact .ite (fun _ => failsOnly_executePlan) fun _ => .pure _

theorem failsOnly_loadPlanForApply : Method.FailsOnly E (loadPlanForApply planId environment) := by
  refine .bind (.read _) fun plan => ?_
  cases plan with
  | none => exact .pure _
  | some plan => exact .ite (fun _ => .pure _) fun _ => .ite (fun _ => .pure _) fun _ => .ite (fun _ => .pure _) fun _ => .pure _

theorem failsOnly_serviceExecuteApply {origin : Origin} {rollback : Bool} :
    Method.FailsOnly E (serviceExecuteApply handling origin planId environment rollback) := by
  refine .bind failsOnly_loadPlanForApply fun loaded => ?_
  cases loaded with
  | error e => exact .pure _
  | ok plan =>
    refine .bind (.read _) fun queued => ?_
    cases queued with
    | error e => exact .pure _
    | ok _ => exact .bind (.read _) fun _ => .bind (.write _) fun _ => .pure _

end

/-! ## How the commands reply -/

def Replies {α : Type} (m : Handling α) (reply : Reply) : Prop :=
  ∃ h tr h', Prog.Runs (fun _ _ => True) m.run h tr (.error reply) h'

theorem Replies.of_failsOnly {α : Type} {m : Handling α} {reply : Reply} {E : Reply → Prop}
    (hr : Replies m reply) (hm : Method.FailsOnly E m) : E reply := by
  obtain ⟨h, tr, h', hrun⟩ := hr
  exact hm.runs hrun

theorem failsOnly_releaseAndReply {α : Type} {database dbType : String} {reply : Reply} (h : E reply) :
    Method.FailsOnly E (releaseAndReply repo pr database dbType reply : Handling α) :=
  .bind (.discard failsOnly_locksRelease) fun _ => .throw h

theorem failsOnly_verifyHeadOrRelease {failure : String}
    (herr : ∀ message, E (.commandError .apply environment message)) (hstale : E (.schemaStale .apply environment)) :
    Method.FailsOnly E (verifyHeadOrRelease repo pr schema environment failure) := by
  refine .bind (.read _) fun fresh => ?_
  cases fresh with
  | error e => exact failsOnly_releaseAndReply (herr _)
  | ok fresh => exact .ite (fun _ => failsOnly_releaseAndReply hstale) fun _ => .pure _

theorem failsOnly_executeReplanned {origin : Origin} {storedPlan : Option StoredPlan}
    (herr : ∀ message, E (.commandError .apply environment message))
    (hblocks : E (.unsafeChangesBlocked environment))
    (hdiffer : E (.planComment environment "Schema changes differ from auto-plan — review and confirm manually"))
    (hnone : r.flatTables = [] → E (.applyConfirmNoChanges schema.database environment)) : Method.FailsOnly E
      (executeReplanned cfg handling repo pr origin schema environment result storedPlan r) := by
  refine .bind (.write _) fun _ => .ite (fun hempty => ?_) fun _ => ?_
  · exact failsOnly_releaseAndReply (hnone (List.isEmpty_iff.1 hempty))
  refine .ite (fun _ => .throw hdiffer) fun _ => .ite (fun _ => .throw hblocks) fun _ => ?_
  refine .bind failsOnly_serviceExecuteApply fun applied => ?_
  cases applied with
  | error e => exact .throw (herr _)
  | ok apply =>
    refine .bind failsOnly_updateCheckRecordForApplyStart fun failed => ?_
    cases failed with
    | none => exact .pure _
    | some e => exact .throw (herr _)

section
variable (herr : ∀ message, E (.commandError .apply environment message))
  (hstale : E (.schemaStale .apply environment)) (hchecks : E (.checksNotPassing environment))
  (hblocks : E (.unsafeChangesBlocked environment))
  (hcomment : ∀ reason, reason ≠ "" → E (.planComment environment reason))
  (hnone : E (.applyConfirmNoChanges schema.database environment))
include herr hstale hchecks hblocks hcomment hnone

theorem failsOnly_autoConfirmApply :
    Method.FailsOnly E (autoConfirmApply cfg handling repo pr schema r environment result) := by
  refine .bind (failsOnly_verifyHeadOrRelease herr hstale) fun fresh => .bind (.read _) fun passing => ?_
  refine .ite (fun _ => failsOnly_releaseAndReply hchecks) fun _ => .bind (.read _) fun stored => ?_
  cases stored with
  | none => exact .bind failsOnly_recordApplyPlan fun _ => .throw (hcomment _ (by decide))
  | some stored =>
    refine .bind failsOnly_recordApplyPlan fun _ => .bind failsOnly_executePlanWithTransientRetry fun planned => ?_
    cases planned with
    | error e => exact .throw (herr _)
    | ok planResp =>
      exact failsOnly_executeReplanned herr hblocks (hcomment _ (by decide)) fun _ => hnone

theorem failsOnly_applyPlanned (hempty : r.flatTables = [] → E (.planComment environment "")) :
    Method.FailsOnly E (applyPlanned cfg handling repo pr schema environment result r) := by
  refine .ite (fun hnil => .throw (hempty (List.isEmpty_iff.1 hnil))) fun _ => ?_
  refine .ite (fun _ => .throw hblocks) fun _ => .bind failsOnly_locksAcquire fun acquired => ?_
  cases acquired with
  | error e => exact .throw (herr _)
  | ok _ =>
    refine .bind (.write _) fun _ => .ite (fun _ => ?_) fun _ => ?_
    · exact failsOnly_autoConfirmApply herr hstale hchecks hblocks hcomment hnone
    · exact .bind (.discard (failsOnly_verifyHeadOrRelease herr hstale)) fun _ => failsOnly_recordApplyPlan

end

/-! ## What the record of a plan stores -/

def Stores {α : Type} (m : Handling α) (c : Check) : Prop :=
  ∃ h tr result h', Prog.Runs (fun _ _ => True) m.run h tr result h' ∧
    ∃ step ∈ tr, c ∈ step.2.inst.checks ∧ c ∉ step.1.inst.checks

/-- The rows that a statement adds satisfy `P`. -/
def AddsOnly (P : Check → Prop) (s t : Hub) : Prop := ∀ c ∈ t.inst.checks, c ∉ s.inst.checks → P c

section
variable {P : Check → Prop}

theorem addsOnly_refl (s : Hub) : AddsOnly P s s := fun _ hc hnew => absurd hc hnew

theorem Stores.of_always {α : Type} {m : Handling α} {c : Check} (hs : Stores m c)
    (hm : Method.Only (AddsOnly P) m) : P c := by
  obtain ⟨h, tr, result, h', hrun, step, hstep, hc, hnew⟩ := hs
  exact (hm.runs (fun _ _ _ _ => trivial) hrun trivial).1 step hstep c hc hnew

theorem addsOnly_writeRows {w : RowWrite} {entries : Instance → List Entry}
    (hw : ∀ check, w.row = some check → P (w.result check)) : Method.Only (AddsOnly P) (writeRows w entries) := by
  refine .step fun s => fun c hc hnew => ?_
  rcases Instance.mem_writtenRows hc with ⟨hold, -⟩ | ⟨check, hrow, rfl, -⟩
  · exact absurd hold hnew
  · exact hw check hrow

theorem addsOnly_fetchPullRequest : Method.Only (AddsOnly P) (fetchPullRequest cached repo pr) := by
  cases cached with
  | some headSHA => exact .pure _
  | none => exact .read addsOnly_refl _

theorem returns_upsertPlanCheckRecord : Method.Gives (AddsOnly (·.conclusion = r.conclusion))
      (fun stored => ∀ check ∈ stored.2, check.conclusion = r.conclusion)
      (upsertPlanCheckRecord cached repo pr schema r environment) := by
  unfold upsertPlanCheckRecord
  split
  · exact .pure nofun
  refine .bind (.of_always addsOnly_fetchPullRequest) fun current _ => ?_
  cases current with
  | error e => exact .pure nofun
  | ok current =>
    dsimp only
    split
    · exact .pure nofun
    refine .bind (.of_always (.bind (addsOnly_writeRows ?_) fun inserted => ?_)) fun _ _ => .pure ?_
    · rintro check ⟨⟩
      rfl
    · split
      · exact .pure _
      · refine .discard (addsOnly_writeRows ?_)
        rintro check ⟨⟩
        rfl
    · rintro check ⟨⟩
      rfl

theorem addsOnly_storePlanCheckRecord : Method.Only (AddsOnly (·.conclusion = r.conclusion))
      (storePlanCheckRecord cached repo pr schema r environment) :=
  .bind returns_upsertPlanCheckRecord.always fun _ => .pure _

theorem addsOnly_storeManualPlanCheckRecord : Method.Only (AddsOnly (·.conclusion = r.conclusion))
      (storeManualPlanCheckRecord cached repo pr schema r environment) := by
  refine (Method.Returns.bind (R := fun _ => True) returns_upsertPlanCheckRecord fun stored hstored => ?_).always
  obtain ⟨headSHA, _ | check⟩ := stored
  · exact .pure trivial
  refine .of_always (.bind (.discard ?_) fun _ => .pure _)
  unfold checksRecoverApplyOwned
  split
  · refine addsOnly_writeRows ?_
    rintro _ ⟨⟩
    exact hstored check rfl
  · exact .pure _

end

/-! ## Decisions -/

/-- What is decided on a plan, by its record, by `apply` and by `apply-confirm`, is right: a row is stored as
successful only for a plan without errors and changes, and only a plan without changes has nothing to apply. -/
structure PlanResponse.Judged (r : PlanResponse) : Prop where
  recorded : ∀ cached repo pr schema environment c,
    Stores (storePlanCheckRecord cached repo pr schema r environment) c ∨
      Stores (storeManualPlanCheckRecord cached repo pr schema r environment) c →
    c.status = .completed → c.conclusion = .success → r.errors = [] ∧ r.Unchanged
  applied : ∀ cfg handling repo pr schema environment result,
    Replies (applyPlanned cfg handling repo pr schema environment result r) (.planComment environment "") →
    r.Unchanged
  executed : ∀ cfg handling repo pr origin schema environment result storedPlan,
    Replies (executeReplanned cfg handling repo pr origin schema environment result storedPlan r)
      (.applyConfirmNoChanges schema.database environment) →
    r.Unchanged

theorem replies_applyPlanned :
    Replies (applyPlanned cfg handling repo pr schema environment result r) (.planComment environment "") ↔
      r.flatTables = [] := by
  constructor
  · intro hr
    by_contra hne
    exact hr.of_failsOnly (E := (· ≠ .planComment environment ""))
      (failsOnly_applyPlanned nofun nofun nofun nofun (fun reason hreason he => hreason (Reply.planComment.inj he).2)
        nofun fun hnil => absurd hnil hne) rfl
  · intro hnil
    unfold applyPlanned
    rw [hnil]
    exact ⟨({} : World).hub 0, [], _, .ret⟩

theorem flatTables_of_replies_executeReplanned {origin : Origin} {storedPlan : Option StoredPlan}
    (hr : Replies (executeReplanned cfg handling repo pr origin schema environment result storedPlan r)
      (.applyConfirmNoChanges schema.database environment)) : r.flatTables = [] := by
  by_contra hne
  exact hr.of_failsOnly (E := (· ≠ .applyConfirmNoChanges schema.database environment))
    (failsOnly_executeReplanned nofun nofun nofun fun hnil => absurd hnil hne) rfl

end

def Sample.schema : SchemaRequest := { database := "users", type := "mysql", headSHA := "A" }

/-- The decisions are right for the plans that change a table, and for those that change no VSchema. -/
theorem judged_iff (r : PlanResponse) : r.Judged ↔ r.flatTables ≠ [] ∨ r.changesVSchema = false := by
  constructor
  · intro hj
    by_cases hnil : r.flatTables = []
    · have hreply : Replies (applyPlanned (Sample.config 0) ⟨0, 0⟩ "app" 1 Sample.schema "staging" {} r)
          (.planComment "staging" "") := replies_applyPlanned.2 hnil
      exact .inr (PlanResponse.unchanged_iff.1 (hj.applied _ _ _ _ _ _ _ hreply)).2
    · exact .inl hnil
  · intro h
    -- all three decisions come down to the tables
    have hunchanged : r.flatTables = [] → r.Unchanged := fun hnil =>
      PlanResponse.unchanged_iff.2 ⟨hnil, h.resolve_left fun hne => hne hnil⟩
    refine ⟨fun cached repo pr schema environment c hs _ hc => ?_, fun _ _ _ _ _ _ _ hr => ?_,
      fun _ _ _ _ _ _ _ _ _ hr => ?_⟩
    · have hconc : c.conclusion = r.conclusion :=
        hs.elim (·.of_always addsOnly_storePlanCheckRecord) (·.of_always addsOnly_storeManualPlanCheckRecord)
      obtain ⟨herr, hnil⟩ := PlanResponse.conclusion_eq_success.1 (hconc.symm.trans hc)
      exact ⟨herr, hunchanged hnil⟩
    · exact hunchanged (replies_applyPlanned.1 hr)
    · exact hunchanged (flatTables_of_replies_executeReplanned hr)

def vschemaChange : SchemaChange :=
  { namespaceName := "users", vschemaDiff := "+ hash", vschemaChanged := true, vschema := "hash" }

def vschemaRun : List Action :=
  [Sample.push "A", Sample.plans fun _ => [vschemaChange], .deliver 0 (.autoPlan "app" 1 "users")] ++
    Sample.steps 0 20

/-- The plan is recorded as successful, `apply` does not take the lock for it, and `apply-confirm` releases
it. -/
theorem vschema_dropped : ¬ ({ changes := [vschemaChange] } : PlanResponse).Unchanged ∧
      { Sample.row "staging" "A" with conclusion := .success } ∈
        ((World.after Sample.config vschemaRun).instances 0).checks ∧
      Replies (applyPlanned (Sample.config 0) ⟨0, 0⟩ "app" 1 Sample.schema "staging" {}
        { changes := [vschemaChange] }) (.planComment "staging" "") ∧
      Replies (executeReplanned (Sample.config 0) ⟨0, 0⟩ "app" 1 (.applyConfirm (Sample.lock 1 "") none)
        Sample.schema "staging" {} none { changes := [vschemaChange] })
        (.applyConfirmNoChanges "users" "staging") := by
  refine ⟨by decide, by decide +kernel, replies_applyPlanned.2 rfl, ?_⟩
  obtain ⟨tr, hrun⟩ := Prog.runs_exec (fun _ _ => True)
    (executeReplanned (Sample.config 0) ⟨0, 0⟩ "app" 1 (.applyConfirm (Sample.lock 1 "") none)
      Sample.schema "staging" {} none { changes := [vschemaChange] }).run (({} : World).hub 0)
  exact ⟨_, tr, _, hrun⟩

end SchemaBot.Webhook
