import SchemaBot.Webhook.Records

/-!
# The handlers move as they should

What each handler does to a deployment, from the rules of its statements.
-/

namespace SchemaBot.Webhook

open Concurrent

variable {schema : SchemaRequest} {result : CommandResult} {plan : StoredPlan} {lock : Lock}

variable {cfg : Nat → ServerConfig} {me : Handle} {h : Hub} {conf : ServerConfig} {repo : String} {pr : Nat}

/-! ## The promotion gate -/

section
variable {handling : Handle} {request : GateRequest} {environment priorEnv : String} {n : Nat}

def PassedPrior (conf : ServerConfig) (handling : Handle) (request : GateRequest) (priorEnv : String)
    (t : Hub) : Prop :=
  ∃ evidence : Evidence, Note.passed handling request priorEnv evidence ∈ t.notes ∧
    evidence.Passes conf request priorEnv

theorem carries_waitForLocalPriorEnvCheck : Carried cfg me
      (fun r t => ∀ c, r = some c → c.Good t ∧
        c.isFor request.repository request.pullRequest priorEnv request.databaseType request.database = true)
      (waitForLocalPriorEnvCheck request priorEnv n) h := by
  induction n generalizing h with
  | zero => exact .pure fun _ _ _ _ hc => by cases hc
  | succ n ih =>
    refine (carries_checksGet _ _ _ _ _).lasting.andThen fun check t _ _ hcheck => ?_
    exact .ite (fun _ => .pure hcheck) fun _ => ih

theorem carries_checkPriorEnvViaLocal (hown : conf.isEnvironmentAllowed priorEnv = true) :
    Carried cfg me (fun _ t => PassedPrior conf handling request priorEnv t)
      (checkPriorEnvViaLocal conf handling request environment priorEnv) h := by
  refine carries_waitForLocalPriorEnvCheck.andThen fun check t _ _ hcheck => ?_
  cases check with
  | none => exact .throw _
  | some c =>
    obtain ⟨hgood, hfor⟩ := hcheck c rfl
    refine .ite (fun hsucc => ?_) fun _ =>
      Method.Carries.ite (fun _ => .throw _) fun _ => Method.Carries.throw _
    refine (carries_leaveNote fun u hu _ hcur _ _ _ _ hn => ?_).mono
      fun _ u _ _ hnote => ⟨.row c, hnote, hown, hsucc, hfor⟩
    cases hn
    -- the note is current: the row carries the commit of the schema files
    have hhead := hcur _ (List.mem_append_right _ (List.mem_singleton_self _))
    have hcur' : Current u.notes := hcur.mono fun _ hm => List.mem_append_left _ hm
    exact ((hgood.later hu).fresh hcur' hsucc).trans (of_decide_eq_true hhead)

theorem findTrusted_some {runs : List CheckRun} {r : CheckRun} (hr : (findTrusted conf runs).1 = some r) :
    r ∈ runs ∧ conf.isTrustedCheckAppSlug r.app = true := by
  have hpred := Table.firstBy_pred hr
  exact ⟨Table.firstBy_mem hr, hpred⟩

structure Trusted (conf : ServerConfig) (repo headSHA name : String) (r : CheckRun) (t : Hub) : Prop where
  repository : r.repository = repo
  headSHA : r.headSHA = headSHA
  name : r.name = name
  app : conf.isTrustedCheckAppSlug r.app = true
  fresh : Current t.notes → r.conclusion = .success → r.basis = r.headSHA

theorem carries_findCheckRunByName {headSHA name : String} : Carried cfg me
      (fun res t => ∀ r apps, res = .ok (some r, apps) → Trusted conf repo headSHA name r t)
      (findCheckRunByName conf repo headSHA name) h := by
  refine .read fun t u _ hs hu _ r apps hres => ?_
  split at hres
  · cases hres
  split at hres
  · cases hres
  · have hfound := congrArg Prod.fst (Except.ok.inj hres)
    obtain ⟨hmem, happ⟩ := findTrusted_some hfound
    obtain ⟨hrun, hkey⟩ := List.mem_filter.1 hmem
    simp only [Bool.and_eq_true, decide_eq_true_eq] at hkey
    refine ⟨hkey.1.1, hkey.1.2, hkey.2, happ, fun hcur => hs.runs (hcur.mono hu.1.notes) r hrun ?_⟩
    rintro hempty
    rw [hempty] at happ
    cases happ

theorem carries_waitForGitHubPriorEnvCheck {headSHA name : String} : Carried cfg me
      (fun res t => ∀ r apps, res = .ok (some r, apps) → Trusted conf request.repository headSHA name r t)
      (waitForGitHubPriorEnvCheck conf request headSHA name n) h := by
  induction n generalizing h with
  | zero => exact .pure fun _ _ _ _ _ hres => by cases hres
  | succ n ih =>
    refine carries_findCheckRunByName.lasting.andThen fun res t _ _ hfound => ?_
    rcases res with e | ⟨run, untrusted⟩
    · exact .pure fun _ _ _ _ _ hres => by cases hres
    · exact .ite (fun _ => .pure hfound) fun _ => ih

theorem carries_checkPriorEnvViaGitHub (hown : conf.isEnvironmentAllowed priorEnv = false) :
    Carried cfg me (fun _ t => PassedPrior conf handling request priorEnv t)
      (checkPriorEnvViaGitHub conf handling request environment priorEnv (some request.headSHA)) h := by
  refine carries_waitForGitHubPriorEnvCheck.andThen fun res t _ _ hfound => ?_
  rcases res with e | ⟨_ | r, untrusted⟩
  · exact .throw _
  · exact .ite (fun _ => .throw _) fun _ => Method.Carries.throw _
  · have htrust := hfound r untrusted rfl
    refine .ite (fun hok => ?_) fun _ =>
      Method.Carries.ite (fun _ => .throw _) fun _ => Method.Carries.throw _
    refine (carries_leaveNote fun u hu _ hcur _ _ _ _ hn => ?_).mono
      fun _ u _ _ hnote => ⟨.run r, hnote, hown, hok.1, hok.2, htrust.repository, htrust.headSHA,
        htrust.name, htrust.app⟩
    cases hn
    have hcur' : Current t.notes := hcur.mono fun _ hm => List.mem_append_left _ (hu.notes _ hm)
    exact (htrust.fresh hcur' hok.2).trans htrust.headSHA

theorem carries_checkPriorEnvironments {environments : List String}
    (henv : conf.databaseEnvironments request.database = .ok environments) :
    Carried cfg me (fun _ t => Promoted conf t.notes handling request environment)
      (checkPriorEnvironments conf handling request environment (some request.headSHA) environments) h := by
  refine .ite (fun _ => .throw _) fun _ => ?_
  refine .mono (fun _ t _ _ hall => ⟨environments, henv, hall⟩)
    (Method.Carries.forM fun priorEnv _ t _ _ => ?_)
  refine .ite (fun hown => carries_checkPriorEnvViaLocal hown) fun hown => ?_
  exact carries_checkPriorEnvViaGitHub (Bool.eq_false_iff.2 hown)

end

/-! ## Plans and applies of the service -/

section
variable {origin : Origin}

def PlanRequest.gateRequest (req : PlanRequest) : GateRequest :=
  ⟨req.repository, req.pullRequest, req.database, req.type, req.headSHA⟩

structure PlanRequest.Yields (req : PlanRequest) (resp : PlanResponse) (plan : StoredPlan) : Prop where
  gate : plan.gateRequest = req.gateRequest
  environment : plan.environment = req.environment
  changes : protoChangesToNamespaces resp.changes [] = .ok plan.content.namespaces

def PlanRequest.Stored (req : PlanRequest) (resp : PlanResponse) (t : Hub) : Prop :=
  (∃ plan, t.inst.plan resp.planId = some plan ∧ req.Yields resp plan) ∧ ∃ k, resp.planId = planIdentifier k

theorem PlanRequest.Stored.later {req : PlanRequest} {resp : PlanResponse} {t u : Hub}
    (hp : req.Stored resp t) (hl : t.Later u) : req.Stored resp u := by
  obtain ⟨⟨plan, hplan, hy⟩, hk⟩ := hp
  exact ⟨⟨plan, hl.plans _ _ hplan, hy⟩, hk⟩

theorem carries_executePlan (req : PlanRequest) :
    Carried cfg me (fun r t => ∀ resp, r = .ok resp → req.Stored resp t)
      (executePlan req) h := by
  refine (Keeps.readStore _ h).andThen fun answer t _ _ _ => ?_
  cases answer with
  | error e => exact .pure fun _ _ _ _ hr => by cases hr
  | ok planned =>
    show Method.Carries _ _ (storePlanResponse req planned) t
    unfold storePlanResponse
    cases hns : protoChangesToNamespaces planned.response.changes [] with
    | error e => exact .pure fun _ _ _ _ hr => by cases hr
    | ok namespaces =>
      refine carries_plansCreate.lasting.andThen fun planId u _ _ hplan => ?_
      refine .pure fun v hv hsv resp hr => ?_
      cases hr
      obtain ⟨hstored, hk⟩ := hplan v hv hsv
      exact ⟨⟨_, hstored, rfl, rfl, hns⟩, hk⟩

theorem carries_executePlanWithTransientRetry (req : PlanRequest) :
    Carried cfg me (fun r t => ∀ resp, r = .ok resp → req.Stored resp t)
      (executePlanWithTransientRetry req) h := by
  refine (carries_executePlan req).lasting.andThen fun r t _ _ hr => ?_
  cases r with
  | ok resp => exact .pure hr
  | error e =>
    refine .ite (fun _ => carries_executePlan req) fun _ => ?_
    exact .pure fun _ _ _ _ he => by cases he

theorem carries_loadPlanForApply {planId environment : String} : Carried cfg me
      (fun r t => ∀ p, r = .ok p → t.inst.plan planId = some p ∧ p.environment = environment)
      (loadPlanForApply planId environment) h := by
  refine (carries_plansGet planId).lasting.andThen fun r t _ _ hr => ?_
  cases r with
  | none => exact .pure fun _ _ _ _ he => by cases he
  | some plan =>
    refine .ite (fun _ => .pure fun _ _ _ _ he => by cases he) fun henv => ?_
    refine .ite (fun _ => .pure fun _ _ _ _ he => by cases he) fun _ => ?_
    refine .ite (fun _ => .pure fun _ _ _ _ he => by cases he) fun _ => ?_
    refine .pure fun u hu hs p hp => ?_
    cases hp
    exact ⟨hr u hu hs plan rfl, not_not.1 henv⟩

theorem acts_serviceExecuteApply {planId environment : String} {rollback : Bool} {P : StoredPlan → Prop}
    (hidle : Idle me h)
    (hc : ∀ t plan, h.Later t → t.inst.plan planId = some plan → plan.environment = environment →
      Creates cfg me.deployment t me origin plan rollback ∧ P plan) :
    Method.Acts (evolution cfg me)
      (fun r t => ∀ a, r = .ok a → Begun me a t ∧ ∃ plan id lockId, P plan ∧ a = plan.newApply id lockId rollback)
      (serviceExecuteApply me origin planId environment rollback) h := by
  refine .andThen carries_loadPlanForApply.lasting fun r t ht _ hr => ?_
  cases r with
  | error e => exact .pure fun _ _ _ _ he => by cases he
  | ok plan =>
    refine .andThen (Keeps.readStore _ t) fun queued u hu _ _ => ?_
    cases queued with
    | error e => exact .pure fun _ _ _ _ he => by cases he
    | ok _ =>
      refine .andThen (carries_locksGet _ _) fun lock v hv hsv _ => ?_
      have hle := (evolution cfg me).trans ht ((evolution cfg me).trans hu hv)
      obtain ⟨hplan, henv⟩ := hr v ((evolution cfg me).trans hu hv) hsv plan rfl
      obtain ⟨hcr, hP⟩ := hc v plan hle.1 hplan henv
      refine (acts_appliesCreate (hidle.later hle) hcr).lasting.sequence fun a w _ hbegun => ?_
      refine .pure fun x hx hsx a' ha' => ?_
      cases ha'
      obtain ⟨hb, id, lockId, heq⟩ := hbegun x hx hsx
      exact ⟨hb, plan, id, lockId, hP, heq⟩

end

/-! ## Discovery -/

section
variable {action : CommandAction} {environment databaseName : String} {headSHA : String}

theorem attachServerEnvironments_ok {schema' : SchemaRequest}
    (ha : attachServerEnvironments conf schema environment = .ok schema') :
    conf.databaseEnvironments schema'.database = .ok schema'.environments := by
  unfold attachServerEnvironments at ha
  split at ha
  · cases ha
  · next environments henv =>
    split at ha
    · cases ha
    · cases ha
      exact henv

theorem carries_schemaRequestFromPR : Carried cfg me
      (fun r _ => ∀ schema : SchemaRequest, r = .ok schema →
        conf.databaseEnvironments schema.database = .ok schema.environments)
      (schemaRequestFromPR conf repo pr headSHA environment databaseName) h := by
  refine (Keeps.readStore _ h).andThen fun answer t _ _ _ => ?_
  cases answer with
  | error e => exact .pure fun _ _ _ _ hr => by cases hr
  | ok schema => exact .pure fun _ _ _ _ hr => attachServerEnvironments_ok hr

theorem carries_commandSchema {cached : Option String} : Carried cfg me
      (fun schema _ => conf.databaseEnvironments schema.database = .ok schema.environments)
      (commandSchema conf repo pr cached action environment databaseName) h := by
  refine (Keeps.readStore _ h).andThen fun handled t _ _ _ => ?_
  rcases handled with e | _ | _
  · exact .throw _
  · refine (keeps_fetchPullRequest cached repo pr t).andThen fun head u _ _ _ => ?_
    cases head with
    | error e => exact .throw _
    | ok headSHA =>
      refine carries_schemaRequestFromPR.andThen fun r v _ _ hr => ?_
      cases r with
      | error e => exact .throw _
      | ok schema => exact .pure fun _ _ _ => hr schema rfl
  · exact .throw _

theorem keeps_enforceActorAuthorization {requestedBy database : String} :
    Keeps cfg me (enforceActorAuthorization repo pr action requestedBy database) :=
  .bind (.readStore _) fun _ => .ite (.pure _) (.throw _)

theorem keeps_enforceReviewGate : Keeps cfg me (enforceReviewGate repo pr action schema environment) :=
  .bind (.readStore _) fun _ => .ite (.pure _) (.throw _)

theorem keeps_enforcePassingChecks : Keeps cfg me (enforcePassingChecks repo pr headSHA environment) :=
  .bind (.readStore _) fun _ => .ite (.pure _) (.throw _)

end

/-! ## Plan -/

section
variable {environment databaseName : String} {isAutoPlan : Bool}

theorem keeps_executePlan (req : PlanRequest) : Keeps cfg me (executePlan req) :=
  fun _ => (carries_executePlan req).mono fun _ _ _ _ _ => trivial

theorem keeps_planEnvironment : Keeps cfg me (planEnvironment repo pr schema environment isAutoPlan) := by
  refine .bind (keeps_executePlan _) fun r => ?_
  cases r with
  | error e => exact .pure _
  | ok planResp =>
    dsimp only
    split
    · exact .bind keeps_storePlanCheckRecord fun _ => .pure _
    · exact .bind keeps_storeManualPlanCheckRecord fun _ => .pure _

theorem keeps_commandSchema {cached : Option String} {action : CommandAction} :
    Keeps cfg me (commandSchema conf repo pr cached action environment databaseName) :=
  fun _ => carries_commandSchema.mono fun _ _ _ _ _ => trivial

theorem keeps_schemaRequestFromPR {headSHA : String} :
    Keeps cfg me (schemaRequestFromPR conf repo pr headSHA environment databaseName) :=
  fun _ => carries_schemaRequestFromPR.mono fun _ _ _ _ _ => trivial

theorem keeps_handlePlanCommand {result : CommandResult} :
    Keeps cfg me (handlePlanCommand conf repo pr result) := by
  refine .bind keeps_reconcileStaleChecks fun r => ?_
  cases r with
  | error e => exact .throw _
  | ok cached =>
    refine .bind keeps_commandSchema fun schema => ?_
    refine .bind (keeps_fetchPullRequestNoCache repo pr) fun fresh => ?_
    cases fresh with
    | error e => exact .throw _
    | ok fresh =>
      refine .ite (.throw _) (.bind keeps_planEnvironment fun planned => ?_)
      cases planned with
      | error e => exact .bind keeps_postFailingAggregatesWithBlock fun _ => .throw _
      | ok headSHA => exact .ite keeps_updateAggregateCheck (.pure _)

theorem keeps_assertSchemaStillCurrent : Keeps cfg me (assertSchemaStillCurrent repo pr schema environment) := by
  refine .bind (keeps_fetchPullRequestNoCache repo pr) fun fresh => ?_
  cases fresh with
  | error e => exact .throw _
  | ok fresh => exact .ite (.throw _) (.pure _)

theorem keeps_planEnvironments {cachedHead headSHA : String} {environments : List String} {checked : Bool}
    {errors : List (String × String)} :
    Keeps cfg me (planEnvironments conf repo pr cachedHead databaseName isAutoPlan environments checked headSHA
      errors) := by
  induction environments generalizing checked headSHA errors with
  | nil => exact .pure _
  | cons environment rest ih =>
    refine .bind keeps_schemaRequestFromPR fun r => ?_
    cases r with
    | error e => exact ih
    | ok schema =>
      dsimp only
      split
      · refine .bind keeps_assertSchemaStillCurrent fun _ => .bind keeps_planEnvironment ?_
        rintro (e | sha) <;> exact ih
      · refine .bind keeps_planEnvironment ?_
        rintro (e | sha) <;> exact ih

theorem keeps_handleMultiEnvPlan : Keeps cfg me (handleMultiEnvPlan conf repo pr databaseName isAutoPlan) := by
  refine .bind keeps_reconcileStaleChecks fun r => ?_
  cases r with
  | error e => exact .throw _
  | ok cached =>
    refine .bind (keeps_fetchPullRequest cached repo pr) fun head => ?_
    cases head with
    | error e => exact .throw _
    | ok cachedHead =>
      refine .bind (.readStore _) fun config => ?_
      cases config with
      | error e => exact .throw _
      | ok database =>
        dsimp only
        cases conf.databaseEnvironments database with
        | error e =>
          dsimp only
          split
          · exact .bind keeps_postFailingAggregatesWithBlock fun _ => .throw _
          · exact .throw _
        | ok environments =>
          refine .ite keeps_postFailingAggregatesWithBlock (.bind keeps_planEnvironments fun outcome => ?_)
          exact .ite keeps_updateAggregateCheck (.ite keeps_postFailingAggregatesWithBlock (.pure _))

end

/-! ## Apply -/

section
variable {environment : String} {planResp : PlanResponse}

theorem keeps_releaseAndReply {α : Type} {database dbType : String} {reply : Reply} :
    Keeps cfg me (releaseAndReply repo pr database dbType reply : Handling α) :=
  .bind (.discard (keeps_locksRelease database dbType _)) fun _ => .throw _

theorem PlanRequest.Yields.target (hy : (schema.planRequest repo pr environment).Yields planResp plan) :
    plan.repository = repo ∧ plan.pullRequest = pr ∧ plan.database = schema.database ∧
      plan.databaseType = schema.type := by
  have hgate := GateRequest.mk.inj hy.gate
  exact ⟨hgate.1, hgate.2.1, hgate.2.2.1, hgate.2.2.2.1⟩

theorem acts_executeApply {origin : Origin} {storedPlan : Option StoredPlan} (hidle : Idle me h)
    (horigin : origin ≠ .rollbackConfirm) (hheld : HasHeld h.inst.log me repo pr schema.database schema.type)
    (hb : ∀ t plan planResp, h.Later t → Entry.replanned me planResp ∈ t.inst.log →
      (schema.planRequest repo pr environment).Yields planResp plan →
      origin.Backed (cfg me.deployment) t me plan) :
    Method.Acts (evolution cfg me) (fun _ _ => True)
      (executeApply conf me repo pr origin schema environment result storedPlan) h := by
  refine .andThen (carries_executePlanWithTransientRetry _) fun r t ht _ hr => ?_
  cases r with
  | error e => exact .throw _
  | ok planResp =>
    refine .andThen (carries_leaveEntry rfl trivial) fun _ u hu _ hre => ?_
    refine .ite (fun _ => .of_carries (keeps_releaseAndReply u)) fun _ => ?_
    refine .ite (fun _ => .throw _) fun _ => ?_
    refine .ite (fun _ => .throw _) fun _ => ?_
    have hidle' := (hidle.later ht).later hu
    have hstored := (hr planResp rfl).later hu.1
    refine (acts_serviceExecuteApply (P := (schema.planRequest repo pr environment).Yields planResp) hidle'
      fun v plan hv hplan _ => ?_).sequence fun applied w _ happ => ?_
    · -- the plan that is applied is the one that was just stored
      obtain ⟨⟨plan', hplan', hy⟩, -⟩ := hstored.later hv
      rw [hplan] at hplan'
      cases hplan'
      have hlater := (ht.1.trans hu.1).trans hv
      obtain ⟨hrepo, hpr, hdb, htype⟩ := hy.target
      refine ⟨⟨rfl, (decide_eq_false horigin).symm, ?_, ?_, ?_⟩, hy⟩
      · rw [Instance.plan_identifier hplan]
        exact hplan
      · rw [hrepo, hpr, hdb, htype]
        exact hheld.later hlater
      · exact hb v plan planResp hlater (hv.mem_log hre) hy
    cases applied with
    | error e => exact .throw _
    | ok apply =>
      obtain ⟨hbegun, plan, id, lockId, hy, rfl⟩ := happ apply rfl
      obtain ⟨hrepo, hpr, hdb, htype⟩ := hy.target
      have hkey : (plan.newApply id lockId false).key =
          (repo, pr, environment, schema.type, schema.database) := by
        unfold StoredPlan.newApply
        rw [hrepo, hpr, hdb, htype, hy.environment]
        rfl
      refine (acts_updateCheckRecordForApplyStart hbegun hkey).sequence fun failed _ _ _ => ?_
      cases failed with
      | none => exact .done
      | some e => exact .throw _

theorem keeps_yieldLock : Keeps cfg me (yieldLock repo pr schema environment) := by
  refine .bind (.readStore _) fun existing => ?_
  cases existing with
  | none => exact .pure _
  | some existing =>
    refine .ite (.throw _) (.bind (.readStore _) fun applies => ?_)
    split
    · exact .throw _
    · exact .discard (keeps_locksRelease _ _ _)

theorem keeps_recordApplyPlan : Keeps cfg me (recordApplyPlan conf repo pr schema planResp environment) :=
  .bind keeps_storePlanCheckRecord fun _ => .ite keeps_updateAggregateCheck (.pure _)

theorem keeps_verifyHeadOrRelease {failure : String} :
    Keeps cfg me (verifyHeadOrRelease repo pr schema environment failure) := by
  refine .bind (keeps_fetchPullRequestNoCache repo pr) fun fresh => ?_
  cases fresh with
  | error e => exact keeps_releaseAndReply
  | ok fresh => exact .ite keeps_releaseAndReply (.pure _)

theorem keeps_reconcileForApply : Keeps cfg me (reconcileForApply conf repo pr schema environment) := by
  refine .bind keeps_reconcileStaleChecks fun r => ?_
  cases r with
  | error e => exact .throw _
  | ok _ => exact .pure _

theorem acts_autoConfirmApply (hidle : Idle me h)
    (hprom : Promoted (cfg me.deployment) h.notes me (schema.gateRequest repo pr) environment)
    (hheld : HasHeld h.inst.log me repo pr schema.database schema.type) :
    Method.Acts (evolution cfg me) (fun _ _ => True)
      (autoConfirmApply conf me repo pr schema planResp environment result) h := by
  refine .andThen (keeps_verifyHeadOrRelease h) fun fresh t ht _ _ => ?_
  refine .andThen (Keeps.readStore _ t) fun passing u hu _ _ => ?_
  refine .ite (fun _ => .of_carries (keeps_releaseAndReply u)) fun _ => ?_
  refine .andThen (Keeps.readStore _ u) fun stored v hv _ _ => ?_
  cases stored with
  | none => exact .of_carries (Keeps.bind keeps_recordApplyPlan (fun _ => .throw _) v)
  | some stored =>
    refine .andThen (keeps_recordApplyPlan v) fun _ w hw _ _ => ?_
    have hlater := ((ht.1.trans hu.1).trans hv.1).trans hw.1
    refine acts_executeApply ((((hidle.later ht).later hu).later hv).later hw) (by decide)
      (hheld.later hlater) fun x plan planResp hx _ hy => ?_
    show Promoted _ _ _ _ _
    rw [hy.gate, hy.environment]
    exact hprom.mono (hlater.trans hx).notes

theorem pinned_applyLock (hprom : Promoted (cfg me.deployment) h.notes me (schema.gateRequest repo pr) environment)
    (hplan : (schema.planRequest repo pr environment).Stored planResp h) :
    Pinned (cfg me.deployment) me.deployment h (applyLock repo pr schema planResp.planId) := by
  obtain ⟨⟨plan, hplan, hy⟩, -⟩ := hplan
  obtain ⟨hrepo, hpr, hdb, htype⟩ := hy.target
  refine .inr (.inr ⟨plan, hplan, ?_, hdb, htype, me, rfl, ?_⟩)
  · rw [hrepo, hpr]
    rfl
  · rw [hy.gate, hy.environment]
    exact hprom

theorem acts_handleApplyCommand (hidle : Idle me h) : Method.Acts (evolution cfg me) (fun _ _ => True)
      (handleApplyCommand (cfg me.deployment) me repo pr result) h := by
  refine .andThen carries_commandSchema fun schema t ht _ henv => ?_
  refine .andThen (keeps_enforceActorAuthorization t) fun _ t₁ h₁ _ _ => ?_
  refine .andThen (keeps_reconcileForApply t₁) fun _ t₂ h₂ _ _ => ?_
  refine .andThen (keeps_enforceReviewGate t₂) fun _ t₃ h₃ _ _ => ?_
  refine .andThen (keeps_enforcePassingChecks t₃) fun _ t₄ h₄ _ _ => ?_
  refine .andThen (carries_checkPriorEnvironments henv) fun _ t₅ h₅ _ hprom => ?_
  refine .andThen (keeps_yieldLock t₅) fun _ t₆ h₆ _ _ => ?_
  refine .andThen (carries_executePlanWithTransientRetry _) fun r t₇ h₇ _ hr => ?_
  have hidle₇ := (((((((hidle.later ht).later h₁).later h₂).later h₃).later h₄).later h₅).later h₆).later h₇
  cases r with
  | error e => exact .throw _
  | ok planResp =>
    refine .ite (fun _ => .throw _) fun _ => ?_
    refine .ite (fun _ => .throw _) fun _ => ?_
    have hprom₇ := hprom.mono (h₆.1.trans h₇.1).notes
    have hlock := pinned_applyLock hprom₇ (hr planResp rfl)
    refine .andThen (carries_locksAcquire hlock) fun acquired t₈ h₈ _ _ => ?_
    cases acquired with
    | error e => exact .throw _
    | ok _ =>
      refine .andThen (carries_leaveEntry rfl trivial) fun _ t₉ h₉ _ hheld => ?_
      refine .ite (fun _ => ?_) fun _ => ?_
      · exact acts_autoConfirmApply ((hidle₇.later h₈).later h₉)
          (hprom₇.mono (h₈.1.trans h₉.1).notes) ⟨_, hheld, rfl, rfl, rfl⟩
      · exact .of_carries
          (Keeps.bind (.discard keeps_verifyHeadOrRelease) (fun _ => keeps_recordApplyPlan) t₉)

end

/-! ## Confirmation -/

theorem isRollbackPending_append (id : String) : isRollbackPending (rollbackPendingPlanPrefix ++ id) = true := by
  unfold isRollbackPending
  rw [String.toList_append, List.isPrefixOf_iff_prefix]
  exact List.prefix_append _ _

theorem isRollbackPending_planIdentifier (k : Nat) : isRollbackPending (planIdentifier k) = false := by
  unfold isRollbackPending planIdentifier
  rw [String.toList_append]
  rfl

theorem planIdentifier_ne_empty (k : Nat) : planIdentifier k ≠ "" := by
  intro he
  have hlist := congrArg String.toList he
  unfold planIdentifier at hlist
  rw [String.toList_append] at hlist
  cases hlist

theorem rollbackPlanIDFromLock_eq {lock : Lock} {id planId : String}
    (hid : lock.pendingPlanId = rollbackPendingPlanPrefix ++ id)
    (hp : rollbackPlanIDFromLock lock = some planId) : planId = id := by
  unfold rollbackPlanIDFromLock at hp
  rw [hid, isRollbackPending_append, if_pos rfl] at hp
  dsimp only at hp
  split at hp
  · cases hp
  · cases hp
    rw [String.toList_append, List.drop_left, String.ofList_toList]

section
variable {environment : String}

theorem carries_confirmLock : Carried cfg me
      (fun l t => Pinned (cfg me.deployment) me.deployment t l ∧ isRollbackPending l.pendingPlanId = false ∧
        l.owner = lockOwner repo pr ∧ l.databaseName = schema.database ∧ l.databaseType = schema.type)
      (confirmLock repo pr schema environment) h := by
  refine (carries_locksGet _ _).lasting.andThen fun existing t _ _ hex => ?_
  cases existing with
  | none => exact .throw _
  | some l =>
    refine .ite (fun _ => .throw _) fun howner => ?_
    refine .ite (fun _ => .throw _) fun hroll => ?_
    refine .pure fun u hu hs => ?_
    obtain ⟨hpin, hdb, htype⟩ := hex u hu hs l rfl
    exact ⟨hpin, Bool.eq_false_iff.2 hroll, not_not.1 howner, hdb, htype⟩

theorem carries_confirmationPlanForLock (hpin : Pinned (cfg me.deployment) me.deployment h lock)
    (hroll : isRollbackPending lock.pendingPlanId = false) : Carried cfg me
      (fun r t => lock.pendingPlanId = "" ∧ r = none ∨
        ∃ plan, r = some plan ∧ Confirmable (cfg me.deployment) me.deployment t lock plan)
      (confirmationPlanForLock lock) h := by
  refine .ite (fun hnone => .pure fun _ _ _ => .inl ⟨hnone, rfl⟩) fun hne => ?_
  refine carries_readStore fun t u ht _ hu _ => .inr ?_
  rcases hpin with hnone | ⟨plan, hid, -⟩ | ⟨plan, hc⟩
  · exact absurd hnone hne
  · rw [hid, isRollbackPending_append] at hroll
    cases hroll
  · exact ⟨plan, (hc.later ht).stored, (hc.later ht).later hu⟩

theorem acts_handleApplyConfirmCommand (hidle : Idle me h) : Method.Acts (evolution cfg me) (fun _ _ => True)
      (handleApplyConfirmCommand conf me repo pr result) h := by
  refine .andThen (keeps_commandSchema h) fun schema t ht _ _ => ?_
  refine .andThen (keeps_enforceActorAuthorization t) fun _ t₁ h₁ _ _ => ?_
  refine .andThen (keeps_enforceReviewGate t₁) fun _ t₂ h₂ _ _ => ?_
  refine .andThen (keeps_fetchPullRequestNoCache repo pr t₂) fun fresh t₃ h₃ _ _ => ?_
  cases fresh with
  | error e => exact .throw _
  | ok fresh =>
    refine .ite (fun _ => .of_carries (keeps_releaseAndReply t₃)) fun _ => ?_
    refine .andThen (keeps_enforcePassingChecks t₃) fun _ t₄ h₄ _ _ => ?_
    refine .andThen carries_confirmLock fun lock t₅ h₅ _ hlock => ?_
    obtain ⟨hpin, hroll, howner, hdb, htype⟩ := hlock
    refine .andThen (carries_leaveEntry rfl trivial) fun _ t₆ h₆ _ hheld => ?_
    refine .andThen (carries_confirmationPlanForLock (hpin.later h₆.1) hroll) fun pending t₇ h₇ _ hp => ?_
    refine .andThen (carries_leaveEntry rfl hp) fun _ t₈ h₈ _ hconf => ?_
    refine .ite (fun _ => ?_) fun _ => .of_carries (keeps_releaseAndReply t₈)
    have hidle₅ := (((((hidle.later ht).later h₁).later h₂).later h₃).later h₄).later h₅
    refine acts_executeApply (((hidle₅.later h₆).later h₇).later h₈) (fun he => by cases he)
      ⟨lock, h₈.1.mem_log (h₇.1.mem_log hheld), howner, hdb, htype⟩ fun u plan planResp hu hre hy => ?_
    obtain ⟨hrepo, hpr, hplandb, hplantype⟩ := hy.target
    have henv : plan.environment = result.environment := hy.environment
    refine ⟨?_, ?_, hdb.trans hplandb.symm, htype.trans hplantype.symm, planResp, hre, hy.changes⟩
    · rw [henv]
      exact hu.mem_log hconf
    · rw [howner, hrepo, hpr]

end

/-! ## Rollback -/

section
variable {apply : PRApply} {acquired : Bool} {environment : String}

theorem keeps_rejectRollback {α : Type} {reply : Reply} :
    Keeps cfg me (rejectRollback repo pr apply acquired reply : Handling α) :=
  .ite keeps_releaseAndReply (.throw _)

theorem keeps_takeRollbackLock : Keeps cfg me (takeRollbackLock repo pr apply) := by
  refine .bind (.readStore _) fun existing => ?_
  cases existing with
  | some existing => exact .ite (.throw _) (.pure _)
  | none =>
    refine .bind (fun h => carries_locksAcquire (.inl rfl)) fun acquired => ?_
    cases acquired with
    | error e => exact .throw _
    | ok _ => exact .pure _

theorem carries_pinRollbackPlan {planId : String} (hplan : h.inst.plan planId = some plan)
    (hid : ∃ k, planId = planIdentifier k) (hdb : plan.database = apply.database)
    (htype : plan.databaseType = apply.databaseType) (henv : plan.environment = apply.environment) :
    Carried cfg me (fun _ _ => True) (pinRollbackPlan repo pr apply acquired planId) h := by
  refine .andThen (carries_leaveEntry rfl trivial) fun _ t ht _ hpinned => ?_
  have hpin : Pinned (cfg me.deployment) me.deployment t
      (rollbackLock repo pr apply (rollbackPendingPlanID planId)) := by
    obtain ⟨k, rfl⟩ := hid
    have hident := Instance.plan_identifier hplan
    refine .inr (.inl ⟨plan, ?_, ?_, ?_⟩)
    · rw [hident]
      show rollbackPendingPlanID (planIdentifier k) = _
      unfold rollbackPendingPlanID
      rw [if_neg (planIdentifier_ne_empty k)]
    · rw [hident]
      exact ht.1.plans _ _ hplan
    · rw [hident, hdb, htype, henv]
      exact hpinned
  refine (carries_locksAcquire hpin).andThen fun acquired' u _ _ _ => ?_
  cases acquired' with
  | error e => exact keeps_rejectRollback u
  | ok _ => exact .done

theorem keeps_rollbackApply : Keeps cfg me (rollbackApply repo pr result apply) := by
  refine .bind keeps_enforceActorAuthorization fun _ => .bind (.readStore _) fun source => ?_
  cases source with
  | error e => exact .throw _
  | ok _ =>
    refine .bind keeps_takeRollbackLock fun acquired => .bind (.readStore _) fun source => ?_
    cases source with
    | error e => exact keeps_rejectRollback
    | ok schemaFiles =>
      intro h
      refine (carries_executePlan _).andThen fun r t _ _ hr => ?_
      cases r with
      | error e => exact keeps_rejectRollback t
      | ok planResp =>
        refine .ite (fun _ => keeps_rejectRollback t) fun _ => ?_
        obtain ⟨⟨plan, hplan, hy⟩, hid⟩ := hr planResp rfl
        have hgate := GateRequest.mk.inj hy.gate
        exact carries_pinRollbackPlan hplan hid hgate.2.2.1 hgate.2.2.2.1 hy.environment

theorem keeps_handleRollbackCommand : Keeps cfg me (handleRollbackCommand conf repo pr result) := by
  refine .ite (.throw _) (.bind (.readStore _) fun apply => ?_)
  cases apply with
  | none => exact .throw _
  | some apply => exact .ite (.throw _) keeps_rollbackApply

/-- What `rollback-confirm` has found: a lock of its pull request with the plan that is pinned on it. -/
structure RollbackFound (repo : String) (pr : Nat) (environment : String) (t : Hub) (lock : Lock)
    (plan : StoredPlan) : Prop where
  pinned : RollbackPinned t.inst plan
  owner : lock.owner = lockOwner repo pr
  database : plan.database = lock.databaseName
  databaseType : plan.databaseType = lock.databaseType
  repository : plan.repository = repo
  pullRequest : plan.pullRequest = pr
  environment : plan.environment = environment

theorem RollbackFound.later {t u : Hub} (hf : RollbackFound repo pr environment t lock plan)
    (hl : t.Later u) : RollbackFound repo pr environment u lock plan :=
  { hf with pinned := hf.pinned.later hl }

theorem carries_rollbackConfirmPlan {locks : List Lock} {matched : Option (Lock × StoredPlan)}
    (hlocks : ∀ l ∈ locks, Pinned (cfg me.deployment) me.deployment h l)
    (hmatched : ∀ l p, matched = some (l, p) → RollbackFound repo pr environment h l p) : Carried cfg me
      (fun r t => ∀ l p, r = .ok (some (l, p)) → RollbackFound repo pr environment t l p)
      (rollbackConfirmPlan repo pr environment locks matched) h := by
  induction locks generalizing matched h with
  | nil =>
    refine .pure fun t ht _ l p hr => ?_
    cases hr
    exact (hmatched l p rfl).later ht.1
  | cons lock rest ih =>
    have hrest : ∀ t, h.Later t → ∀ l ∈ rest, Pinned (cfg me.deployment) me.deployment t l :=
      fun t ht l hl => (hlocks l (.tail _ hl)).later ht
    refine .ite (fun _ => ih (hrest h (.refl h)) hmatched) fun hroll => ?_
    refine .ite (fun _ => .pure fun _ _ _ _ _ hr => by cases hr) fun howner => ?_
    cases hid : rollbackPlanIDFromLock lock with
    | none => exact ih (hrest h (.refl h)) hmatched
    | some planId =>
      refine (carries_plansGet planId).andThen fun found t ht hs hfound => ?_
      have hmatched' : ∀ l p, matched = some (l, p) → RollbackFound repo pr environment t l p :=
        fun l p hm => (hmatched l p hm).later ht.1
      cases found with
      | none => exact .pure fun _ _ _ _ _ hr => by cases hr
      | some plan =>
        refine .ite (fun _ => ih (hrest t ht.1) hmatched') fun henv => ?_
        refine .ite (fun _ => .pure fun _ _ _ _ _ hr => by cases hr) fun hmatch => ?_
        refine .ite (fun _ => .pure fun _ _ _ _ _ hr => by cases hr) fun _ => ?_
        refine ih (hrest t ht.1) fun l p hm => ?_
        cases hm
        simp only [rollbackPlanMatches, Bool.not_eq_true', Bool.not_eq_false, Bool.and_eq_true,
          decide_eq_true_eq] at hmatch
        refine ⟨?_, not_not.1 howner, hmatch.1.2, hmatch.2, hmatch.1.1.1, hmatch.1.1.2, not_not.1 henv⟩
        -- the plan is the one that is pinned, not one of an apply
        rcases (hlocks lock (.head _)).later ht.1 with hnone | ⟨pin, hpin, hpinned⟩ | ⟨pin, hc⟩
        · rw [hnone] at hroll
          exact absurd rfl hroll
        · have hplanId := rollbackPlanIDFromLock_eq hpin hid
          have hplan := hfound plan rfl
          rw [hplanId, hpinned.1] at hplan
          cases hplan
          exact hpinned
        · obtain ⟨k, -, hk⟩ := hs.numbered pin (List.mem_of_find?_eq_some hc.stored)
          rw [← Instance.plan_identifier hc.stored, hk, isRollbackPending_planIdentifier] at hroll
          exact absurd rfl hroll

theorem acts_executeRollback (hidle : Idle me h) (hfound : RollbackFound repo pr result.environment h lock plan)
    (hheld : Entry.held me lock ∈ h.inst.log) (htaken : Entry.takenUp me plan ∈ h.inst.log) :
    Method.Acts (evolution cfg me) (fun _ _ => True) (executeRollback conf me repo pr result plan) h := by
  refine .andThen (keeps_enforceActorAuthorization h) fun _ t ht _ _ => ?_
  refine .ite (fun _ => ?_) fun _ => ?_
  · refine .of_carries (Keeps.bind (keeps_locksRelease _ _ _) (fun released => ?_) t)
    cases released with
    | error e | ok _ => exact .throw _
  refine (acts_serviceExecuteApply (P := fun p => p = plan) (hidle.later ht)
    fun u p hu hp _ => ?_).sequence fun applied v _ happ => ?_
  · have hstored := (hfound.later (ht.1.trans hu)).pinned.1
    rw [hp] at hstored
    cases hstored
    refine ⟨⟨rfl, rfl, hp, ⟨lock, hu.mem_log (ht.1.mem_log hheld), ?_, hfound.database.symm,
      hfound.databaseType.symm⟩, hu.mem_log (ht.1.mem_log htaken)⟩, rfl⟩
    rw [hfound.owner, hfound.repository, hfound.pullRequest]
  cases applied with
  | error e => exact .throw _
  | ok apply =>
    obtain ⟨hbegun, p, id, lockId, rfl, rfl⟩ := happ apply rfl
    have hkey : (p.newApply id lockId true).key =
        (repo, pr, result.environment, p.databaseType, p.database) := by
      unfold PRApply.key StoredPlan.newApply
      rw [hfound.repository, hfound.pullRequest, hfound.environment]
    refine (acts_updateCheckRecordForApplyStart hbegun hkey).sequence fun failed _ _ _ => ?_
    cases failed with
    | none => exact .done
    | some e => exact .throw _

theorem acts_handleRollbackConfirmCommand (hidle : Idle me h) : Method.Acts (evolution cfg me) (fun _ _ => True)
      (handleRollbackConfirmCommand conf me repo pr result) h := by
  refine .andThen (carries_locksGetByPR repo pr) fun locks t ht _ hlocks => ?_
  refine .andThen (carries_rollbackConfirmPlan hlocks fun _ _ hm => by cases hm)
    fun found u hu _ hfound => ?_
  rcases found with e | _ | ⟨lock, plan⟩
  · exact .throw _
  · exact .throw _
  · have hf := hfound lock plan rfl
    refine .andThen (carries_leaveEntry rfl trivial) fun _ v hv _ hheld => ?_
    have htaken : (Entry.takenUp me plan).Backed cfg me.deployment v := (hf.later hv.1).pinned
    refine .andThen (carries_leaveEntry rfl htaken) fun _ w hw _ htaken => ?_
    have hidle' := (((hidle.later ht).later hu).later hv).later hw
    exact acts_executeRollback hidle' (hf.later (hv.1.trans hw.1)) (hw.1.mem_log hheld) htaken

end

/-! ## Unlock and closing -/

section
variable {force : Bool}

theorem keeps_locksForUnlock {database : String} : Keeps cfg me (locksForUnlock repo pr force database) :=
  .ite (.bind (.readStore _) fun _ => .ite (.pure _) (.pure _)) (.bind (.readStore _) fun _ => .pure _)

theorem keeps_noActiveApply : Keeps cfg me (noActiveApply lock) := by
  refine .bind (.readStore _) fun applies => ?_
  split
  · exact .throw _
  · exact .pure _

theorem keeps_updateCheckRunAfterUnlock : Keeps cfg me (updateCheckRunAfterUnlock conf repo pr lock) := by
  refine .bind (keeps_fetchPullRequestNoCache repo pr) fun head => ?_
  cases head with
  | error e => exact .pure _
  | ok headSHA =>
    refine .discard fun h => (carries_createCheckRun ?_).mono fun _ _ _ _ _ => trivial
    exact .of_ne (by decide)

theorem keeps_releaseForUnlock : Keeps cfg me (releaseForUnlock force lock) :=
  .ite (.bind (keeps_locksForceRelease _ _) fun _ => .pure _)
    (.bind (keeps_locksRelease _ _ _) fun _ => .pure _)

theorem keeps_unlockOne : Keeps cfg me (unlockOne conf repo pr force lock) :=
  .bind keeps_releaseForUnlock fun _ => .ite keeps_updateCheckRunAfterUnlock (.pure _)

theorem keeps_unlockDatabase : Keeps cfg me (unlockDatabase repo pr result) := by
  refine .ite (.bind (.readStore _) fun database => ?_) (.pure _)
  cases database with
  | error e => exact .throw _
  | ok database => exact .pure _

theorem keeps_handleUnlockCommand : Keeps cfg me (handleUnlockCommand conf repo pr result) := by
  refine .bind keeps_unlockDatabase fun database => .bind keeps_locksForUnlock fun locks => ?_
  cases locks with
  | error e => exact .throw _
  | ok locks =>
    refine .ite (.throw _) (.bind (.forM fun _ => keeps_enforceActorAuthorization) fun _ => ?_)
    exact .bind (.forM fun _ => keeps_noActiveApply) fun _ => .forM fun _ => keeps_unlockOne

theorem keeps_handlePRClosed : Keeps cfg me (handlePRClosed repo pr) := by
  refine .bind (.readStore _) fun applies => .bind (.readStore _) fun locks => .bind (.forM fun lock => ?_) fun _ => ?_
  · exact .ite (.pure _) (.discard (keeps_locksRelease _ _ _))
  · exact .ite (keeps_checksDelete repo pr) (.pure _)

end

/-! ## Events -/

section
variable {event : Event}

theorem acts_handleComment {action : CommandAction} (hidle : Idle me h) :
    Method.Acts (evolution cfg me) (fun _ _ => True)
      (handleComment (cfg me.deployment) me action repo pr result) h := by
  refine .ite (fun _ => .throw _) fun _ => ?_
  refine .ite (fun _ => .throw _) fun _ => ?_
  cases action with
  | plan =>
    refine .ite (fun _ => ?_) fun _ => ?_
    · exact .of_carries (keeps_handleMultiEnvPlan h)
    · exact .of_carries (keeps_handlePlanCommand h)
  | apply => exact acts_handleApplyCommand hidle
  | applyConfirm => exact acts_handleApplyConfirmCommand hidle
  | rollback => exact .of_carries (keeps_handleRollbackCommand h)
  | rollbackConfirm => exact acts_handleRollbackConfirmCommand hidle
  | unlock => exact .of_carries (keeps_handleUnlockCommand h)

theorem keeps_handleApplyEnded {applyId : Nat} {observed : Bool} :
    Keeps cfg me (handleApplyEnded conf applyId observed) := by
  intro h
  have hread : Carried cfg me (fun r t => ∀ a, r = some a → t.inst.Told a)
      (readStore (·.apply applyId)) h :=
    carries_readStore fun _ _ _ hs hu _ a ha => hs.told (List.mem_of_find?_eq_some ha) hu
  refine hread.andThen fun apply t _ _ htold => ?_
  cases apply with
  | none => exact .done
  | some apply =>
    refine .ite (fun _ => .done) fun hterm => ?_
    have hterm' : apply.state.isTerminal = true := by simpa using hterm
    refine .ite (fun _ => ?_) fun _ => ?_
    · exact carries_onTerminalHook hterm' (htold apply rfl)
    · exact carries_refreshChecksForTerminalApply hterm' (htold apply rfl)

theorem acts_program (hidle : Idle me h) :
    Method.Acts (evolution cfg me) (fun _ _ => True) (event.program (cfg me.deployment) me) h := by
  cases event with
  | comment => exact acts_handleComment hidle
  | autoPlan => exact .of_carries (keeps_handleMultiEnvPlan h)
  | cleanup => exact .of_carries (keeps_cleanupStaleChecks h)
  | noManagedChanges => exact .of_carries (keeps_postPassingAggregates h)
  | discoveryFailed => exact .of_carries (keeps_postFailingAggregatesWithBlock h)
  | closed => exact .of_carries (keeps_handlePRClosed h)
  | applyEnded => exact .of_carries (keeps_handleApplyEnded h)

end

end SchemaBot.Webhook
