import SchemaBot.Webhook.Statements

/-!
# The check records move as they should

The functions that write check records and publish aggregates, each with the rule that its statements give.
-/

namespace SchemaBot.Webhook

open Concurrent

variable {cfg : Nat → ServerConfig} {me : Handle} {h : Hub} {conf : ServerConfig} {cached : Option String}
  {repo headSHA : String} {pr : Nat} {c : Check} {check : String × String} {conclusion : Conclusion}
  {environment : Option String} {rows : List Check} {status : CheckStatus}

/-! ## Aggregates -/

theorem computeAggregate_settled (rows : List Check) :
    (computeAggregate rows).2 = .inProgress ∧ (computeAggregate rows).1 = .none ∨
      (computeAggregate rows).2 = .completed ∧ ((computeAggregate rows).1 = .success ∨
        (computeAggregate rows).1 = .failure ∨ (computeAggregate rows).1 = .actionRequired) := by
  unfold computeAggregate
  split
  · exact .inl ⟨rfl, rfl⟩
  split
  · exact .inr ⟨rfl, .inr (.inl rfl)⟩
  split
  · exact .inr ⟨rfl, .inr (.inr rfl)⟩
  · exact .inr ⟨rfl, .inl rfl⟩

theorem computeAggregate_success (hs : (computeAggregate rows).1 = .success)
    (hc : c ∈ rows) (hset : c.Settled) : c.status = .completed ∧ c.conclusion = .success := by
  unfold computeAggregate at hs
  split at hs
  · cases hs
  split at hs
  · cases hs
  split at hs
  · cases hs
  · next h₁ h₂ h₃ =>
    simp only [List.any_eq_true, decide_eq_true_eq, not_exists, not_and] at h₁ h₂ h₃
    rcases hset with ⟨hrun, -⟩ | ⟨hdone, hsucc | hfail | haction⟩
    · exact absurd hrun (h₁ c hc)
    · exact ⟨hdone, hsucc⟩
    · exact absurd hfail (h₂ c hc)
    · exact absurd haction (h₃ c hc)

theorem aggregateBasis_of_success (hgood : ∀ c ∈ rows, c.Good h)
    (hcur : Current h.notes) (hrows : ∀ c ∈ rows, c.headSHA = headSHA)
    (hs : (computeAggregate rows).1 = .success) : aggregateBasis headSHA rows = headSHA := by
  refine if_pos (List.all_eq_true.2 fun c hc => decide_eq_true ?_)
  have hsucc := (computeAggregate_success hs hc (hgood c hc).settled).2
  exact ((hgood c hc).fresh hcur hsucc).trans (hrows c hc)

theorem keeps_verifyHead : Keeps cfg me (verifyHeadSHAStillCurrentForPR cached repo pr headSHA) := by
  refine .ite (.pure _) (.bind (keeps_fetchPullRequest cached repo pr) fun r => ?_)
  cases r with
  | error _ | ok _ => exact .pure _

theorem carries_publishCheckRun {existing : Option Check} {name basis : String} {made : Made}
    (he : ∀ e, existing = some e → e.Good h ∧ e.repository = repo)
    (hp : MayPublish h repo headSHA conclusion basis made) :
    Carried cfg me (fun r t => ∀ id, r = some id → t.github.Holds id repo headSHA)
      (publishCheckRun conf repo headSHA existing name status conclusion basis made) h := by
  cases existing with
  | none => exact carries_createCheckRun hp
  | some e =>
    obtain ⟨hgood, hrepo⟩ := he e rfl
    refine .ite (fun hsame => ?_) fun _ => carries_createCheckRun hp
    have hheld := (hgood.linked hsame.1).2
    rw [hrepo, hsame.2] at hheld
    exact carries_updateCheckRun hheld hp

theorem good_aggregateRow {environment basis : String} {id : Nat}
    {hasChanges : Bool} {blockingReason errorMessage : String} (hheld : h.github.Holds id repo headSHA)
    (hset : status = .inProgress ∧ conclusion = .none ∨ status = .completed ∧
      (conclusion = .success ∨ conclusion = .failure ∨ conclusion = .actionRequired))
    (hb : Current h.notes → conclusion = .success → basis = headSHA) :
    ({ aggregateRow repo pr headSHA environment id status conclusion basis with
        hasChanges := hasChanges, blockingReason := blockingReason, errorMessage := errorMessage }
      : Check).Good h where
  linked _ := ⟨rfl, hheld⟩
  settled := hset
  fresh := hb
  owned hne := absurd rfl hne
  done hne := absurd rfl hne
  running ha := by cases ha

theorem carries_aggregateGet (environment : String) : Carried cfg me
      (fun r t => ∀ e, r = some e → e.Good t ∧ e.repository = repo)
      (checksGet repo pr environment aggregateSentinel aggregateSentinel) h := by
  refine (carries_checksGet _ _ _ _ _).mono fun r t _ _ hr e he => ⟨(hr e he).1, ?_⟩
  have hkey := Check.isFor_iff.1 (hr e he).2
  simp only [Check.key, Prod.mk.injEq] at hkey
  exact hkey.1

def ReadFor (h : Hub) (repo : String) (environment : Option String) (rows : List Check) : Prop :=
  ∃ pr stored, Note.read repo pr stored ∈ h.notes ∧ ∀ c, c ∈ rows ↔ c ∈ stored ∧ c.Covered environment

theorem ReadFor.later {t : Hub}
    (hr : ReadFor h repo environment rows) (hl : h.Later t) : ReadFor t repo environment rows := by
  obtain ⟨pr, stored, hread, hrows⟩ := hr
  exact ⟨pr, stored, hl.notes _ hread, hrows⟩

theorem mayPublish_aggregate (hgood : ∀ c ∈ rows, c.Good h)
    (hread : ReadFor h repo environment rows) (hnote : Note.gathered headSHA rows ∈ h.notes) :
    MayPublish h repo headSHA (computeAggregate rows).1 (aggregateBasis headSHA rows)
      (.aggregate environment rows) where
  fresh hcur hs := by
    -- the note says whether the rows carry the commit of the aggregate
    have hcurrent := hcur _ hnote
    refine aggregateBasis_of_success hgood hcur (fun c hc => ?_) hs
    exact of_decide_eq_true (List.all_eq_true.1 hcurrent c hc)
  computed hs r hrepo hmade := by
    obtain ⟨pr, stored, hnoted, hrows⟩ := hread
    unfold CheckRun.Computed
    rw [hmade]
    exact ⟨pr, stored, hrepo ▸ hnoted, hrows, fun c hc => computeAggregate_success hs hc (hgood c hc).settled⟩

theorem carries_upsertAggregateCheckRun {dbChecks : List Check} {checkName environment : String}
    (hrows : ∀ c ∈ dbChecks, c.Good h) (hread : ReadFor h repo (aggregateScope conf environment) dbChecks) :
    Carried cfg me (fun _ _ => True)
      (upsertAggregateCheckRun conf repo pr headSHA dbChecks checkName environment) h := by
  refine (carries_noteGathered headSHA dbChecks).andThen fun _ t ht _ hnote => ?_
  have hp := mayPublish_aggregate (fun c hc => (hrows c hc).later ht.1) (hread.later ht.1) hnote
  refine (carries_aggregateGet environment).andThen fun existing u hu _ hex => ?_
  refine (carries_publishCheckRun hex (hp.later hu.1)).andThen fun id v hv _ hid => ?_
  cases id with
  | none => exact .done
  | some id =>
    have hset := computeAggregate_settled dbChecks
    exact carries_checksUpsert
      (good_aggregateRow (hid id rfl) hset ((hp.later hu.1).later hv.1).fresh) rfl rfl

theorem keeps_updateAggregateCheck : Keeps cfg me (updateAggregateCheck conf cached repo pr headSHA) := by
  refine .ite (.bind keeps_verifyHead fun current => .ite ?_ (.pure _)) (.pure _)
  intro h
  refine (carries_checksGetByPR repo pr).andThen fun rows t _ _ hrows => ?_
  have hdb : ∀ c ∈ rows.filter (!·.isAggregate), c.Good t := fun c hc =>
    hrows.1 c (List.mem_of_mem_filter hc)
  have hmem : ∀ c, c ∈ rows.filter (!·.isAggregate) ↔ c ∈ rows ∧ c.isAggregate = false := fun c => by
    rw [List.mem_filter, Bool.not_eq_true']
  refine .ite (fun _ => .done) fun _ => ?_
  refine .ite (fun hall => ?_) fun hscoped => ?_
  · refine carries_upsertAggregateCheckRun hdb ⟨pr, rows, hrows.2, fun c => (hmem c).trans ?_⟩
    rw [aggregateScope, if_pos hall]
    exact and_congr_right fun _ => ⟨fun hagg => ⟨hagg, nofun⟩, And.left⟩
  refine (Method.Carries.forM (Q := fun _ _ => True) fun environment _ u hu _ => ?_).mono
    fun _ _ _ _ _ => trivial
  refine .ite (fun _ => .done) fun hrest => ?_
  refine carries_upsertAggregateCheckRun (fun c hc => (hdb c (List.mem_of_mem_filter hc)).later hu.1) ?_
  refine ⟨pr, rows, hu.1.notes _ hrows.2, fun c => ?_⟩
  rw [List.mem_filter, hmem, aggregateScope, if_neg hscoped, decide_eq_true_eq, and_assoc]
  unfold Check.Covered
  simp only [Option.some.injEq, forall_eq']

theorem hasBlockingCheck_eq_false {environment : String}
    (hblock : hasBlockingCheckForEnvironment rows environment = false) (hc : c ∈ rows)
    (hdb : c.isAggregate = false) (henv : environment = aggregateSentinel ∨ c.environment = environment)
    (hset : c.Settled) : c.status = .completed ∧ c.conclusion = .success ∧ c.applyId = 0 := by
  have hfree := List.any_eq_false.1 hblock c hc
  simp only [Check.blocksPassingAggregate, Check.hasStartedApply, hdb, Bool.and_eq_true, Bool.or_eq_true,
    decide_eq_true_eq, Bool.not_false, true_and, not_and, not_or, not_not] at hfree
  obtain ⟨⟨⟨hrun, happly⟩, hfail⟩, haction⟩ := hfree henv
  rcases hset with ⟨hrun', -⟩ | ⟨hdone, hsucc | hfail' | haction'⟩
  · exact absurd hrun' hrun
  · exact ⟨hdone, hsucc, happly⟩
  · exact absurd hfail' hfail
  · exact absurd haction' haction

theorem covered_aggregateChecks (hcheck : check ∈ aggregateChecks conf repo)
    (hc : c.Covered (aggregateScope conf check.2)) : check.2 = aggregateSentinel ∨ c.environment = check.2 := by
  unfold aggregateChecks at hcheck
  split at hcheck
  · rw [List.mem_singleton.1 hcheck]
    exact .inl rfl
  · next hscoped => exact .inr (hc.2 check.2 (if_neg hscoped))

theorem carries_postPassingAggregate {storedChecks : List Check}
    (hcheck : check ∈ aggregateChecks conf repo) (hgood : ∀ c ∈ storedChecks, c.Good h)
    (hread : Note.read repo pr storedChecks ∈ h.notes) : Carried cfg me (fun _ _ => True)
      (postPassingAggregate conf repo pr headSHA storedChecks check) h := by
  refine .ite (fun _ => .done) fun hblock => ?_
  have hp : MayPublish h repo headSHA .success headSHA
      (.passing (aggregateScope conf check.2) storedChecks) := by
    refine ⟨fun _ _ => rfl, fun _ r hrepo hmade => ?_⟩
    unfold CheckRun.Computed
    rw [hmade]
    refine ⟨pr, hrepo ▸ hread, fun c hc hcov => ?_⟩
    exact hasBlockingCheck_eq_false (Bool.eq_false_iff.2 hblock) hc hcov.1
      (covered_aggregateChecks hcheck hcov) (hgood c hc).settled
  refine (carries_aggregateGet check.2).andThen fun existing t ht _ hex => ?_
  refine .ite (fun _ => .done) fun _ => ?_
  refine (carries_publishCheckRun hex (hp.later ht.1)).andThen fun id u _ _ hid => ?_
  cases id with
  | none => exact .done
  | some id =>
    exact carries_checksUpsert (good_aggregateRow (hid id rfl) (.inr ⟨rfl, .inl rfl⟩) fun _ _ => rfl) rfl rfl

theorem keeps_postPassingAggregates : Keeps cfg me (postPassingAggregates conf cached repo pr headSHA) := by
  refine .ite (.bind keeps_verifyHead fun current => .ite ?_ (.pure _)) (.pure _)
  intro h
  refine (carries_checksGetByPR repo pr).andThen fun rows t _ _ hrows => ?_
  refine (Method.Carries.forM (Q := fun _ _ => True) fun check hcheck u hu _ => ?_).mono
    fun _ _ _ _ _ => trivial
  exact carries_postPassingAggregate hcheck (fun c hc => (hrows.1 c hc).later hu.1) (hu.1.notes _ hrows.2)

theorem keeps_postFailingAggregate {message blockingReason : String} :
    Keeps cfg me (postFailingAggregate conf repo pr headSHA message blockingReason check) := by
  intro h
  have hp : MayPublish h repo headSHA .failure headSHA .other := .of_ne (by decide)
  refine (carries_createCheckRun hp).andThen fun id t _ _ hid => ?_
  cases id with
  | none => exact .done
  | some id =>
    exact carries_checksUpsert
      (good_aggregateRow (hid id rfl) (.inr ⟨rfl, .inr (.inl rfl)⟩) fun _ _ => rfl) rfl rfl

theorem keeps_postFailingAggregatesWithBlock {errors : List (String × String)} {blockingReason : String} :
    Keeps cfg me (postFailingAggregatesWithBlock conf cached repo pr headSHA errors blockingReason) := by
  refine .ite (.bind keeps_verifyHead fun current => .ite ?_ (.pure _)) (.pure _)
  exact .forM fun _ => keeps_postFailingAggregate

/-! ## Records of plans -/

section
variable {schema : SchemaRequest} {planResp : PlanResponse} {environment : String}

theorem PlanResponse.conclusion_cases (r : PlanResponse) :
    r.conclusion = .success ∨ r.conclusion = .failure ∨ r.conclusion = .actionRequired := by
  unfold PlanResponse.conclusion
  split
  · exact .inr (.inl rfl)
  split
  · exact .inr (.inr rfl)
  · exact .inl rfl

theorem PlanResponse.unchanged_of_success {r : PlanResponse} (hr : r.conclusion = .success) :
    decide (r.flatTables ≠ []) = false := by
  unfold PlanResponse.conclusion at hr
  split at hr
  · cases hr
  split at hr
  · cases hr
  · next hnone => exact decide_eq_false hnone

theorem carries_upsertPlanCheckRecord : Carried cfg me (fun r t => ∀ c, r.2 = some c → PlanRow t c)
      (upsertPlanCheckRecord cached repo pr schema planResp environment) h := by
  refine .ite (fun _ => .pure fun _ _ _ _ => nofun) fun _ => ?_
  refine (keeps_fetchPullRequest cached repo pr h).andThen fun current t _ _ _ => ?_
  cases current with
  | error _ => exact .pure fun _ _ _ _ => nofun
  | ok current =>
    refine .ite (fun _ => .pure fun _ _ _ _ => nofun) fun _ => ?_
    have hgood : Check.Good t
        { repository := repo, pullRequest := pr, headSHA := schema.headSHA, environment := environment
          databaseType := schema.type, databaseName := schema.database
          hasChanges := planResp.flatTables ≠ [], status := .completed
          conclusion := planResp.conclusion, basis := schema.headSHA } :=
      ⟨fun hne => absurd rfl hne, .inr ⟨rfl, planResp.conclusion_cases⟩, fun _ _ => rfl,
        fun hne => absurd rfl hne, fun hne => absurd rfl hne, fun _ hrun => by cases hrun⟩
    have hrow : PlanRow t _ := ⟨hgood, rfl, rfl, PlanResponse.unchanged_of_success⟩
    refine (carries_checksUpsertPlanResult hrow).andThen fun _ u hu _ _ => ?_
    refine .pure fun v hv _ c hc => ?_
    cases hc
    exact (hrow.later hu.1).later hv.1

theorem keeps_storePlanCheckRecord :
    Keeps cfg me (storePlanCheckRecord cached repo pr schema planResp environment) := fun _ =>
  carries_upsertPlanCheckRecord.andThen fun _ _ _ _ _ => Method.Carries.done

theorem keeps_storeManualPlanCheckRecord :
    Keeps cfg me (storeManualPlanCheckRecord cached repo pr schema planResp environment) := by
  intro h
  refine carries_upsertPlanCheckRecord.andThen fun r t _ _ hr => ?_
  obtain ⟨headSHA, _ | check⟩ := r
  · exact .done
  · refine (carries_checksRecoverApplyOwned (hr check rfl)).discard.andThen fun _ _ _ _ _ => ?_
    exact .done

end

/-! ## Records of applies -/

section
variable {schema : SchemaRequest} {environment : String} {apply : PRApply}

theorem acts_updateCheckRecordForApplyStart {a : PRApply} (hb : Begun me a h)
    (hkey : a.key = (repo, pr, environment, schema.type, schema.database)) :
    Method.Acts (evolution cfg me) (fun _ _ => True)
      (updateCheckRecordForApplyStart conf cached repo pr me schema environment a.id) h := by
  refine .andThen (carries_checksGet _ _ _ _ _) fun existing t ht _ hex => ?_
  have hbt := hb.later ht
  cases existing with
  | some existing =>
    obtain ⟨hgood, hfor⟩ := hex existing rfl
    have hof : a.isOf existing = true := PRApply.isOf_iff.2 ((Check.isFor_iff.1 hfor).trans hkey.symm)
    refine (acts_checksUpsertStart hbt hof hgood.linked).sequence fun _ u _ _ => ?_
    exact .of_carries (Keeps.bind keeps_updateAggregateCheck (fun _ => .pure _) u)
  | none =>
    refine .andThen (keeps_fetchPullRequest cached repo pr t) fun current u hu _ _ => ?_
    cases current with
    | error e => exact .done
    | ok current =>
      have hof : a.isOf { repository := repo, pullRequest := pr, headSHA := current
                          environment := environment, databaseType := schema.type
                          databaseName := schema.database } = true := PRApply.isOf_iff.2 hkey.symm
      refine (acts_checksUpsertStart (hbt.later hu) hof fun hne => absurd rfl hne).sequence fun _ v _ _ => ?_
      exact .of_carries (Keeps.bind keeps_updateAggregateCheck (fun _ => .pure _) v)

theorem carries_updateCheckRecordForApplyResult (hterm : apply.state.isTerminal = true) (htold : h.inst.Told apply)
    (hobs : apply.rollback = true → apply.state = .completed → Entry.observed apply ∈ h.inst.log) :
    Carried cfg me (fun _ _ => True)
      (updateCheckRecordForApplyResult apply.repository apply.pullRequest apply) h := by
  refine (carries_checksGetForResult hterm htold).andThen fun existing t ht _ hex => ?_
  cases existing with
  | none => exact .done
  | some check =>
    obtain ⟨hgood, hof⟩ := hex check rfl
    refine .ite (fun _ => .done) fun hstop => ?_
    refine (carries_noteFinished apply check).andThen fun _ u hu _ hnote => ?_
    have hfin : apply.isFinished = true := by
      rw [PRApply.isFinished, hterm, Bool.true_and, decide_eq_true hstop]
    have hback : (Entry.recorded apply).Backed cfg me.deployment u :=
      ⟨⟨hfin, (htold.later ht.1).later hu.1⟩, fun hr hc => hu.1.mem_log (ht.1.mem_log (hobs hr hc))⟩
    refine (carries_leaveEntry rfl hback).andThen fun _ v hv _ hrec => ?_
    have hgoodv := (hgood.later hu.1).later hv.1
    refine (carries_checksCompleteForApply hgoodv hof hrec (hv.1.notes _ hnote)).andThen fun _ _ _ _ _ => ?_
    exact .done

theorem carries_setCheckActionRequired (htold : h.inst.Told apply)
    (hroll : apply.rollback = true ∧ apply.state = .completed) : Carried cfg me (fun _ _ => True)
      (setCheckActionRequired conf apply.repository apply.pullRequest apply) h := by
  have hterm : apply.state.isTerminal = true := by
    rw [hroll.2]
    rfl
  refine (carries_checksGetForResult hterm htold).andThen fun existing t ht _ hex => ?_
  cases existing with
  | none => exact .done
  | some check =>
    obtain ⟨hgood, hof⟩ := hex check rfl
    refine (carries_checksMarkActionRequiredForApply hgood hof (htold.later ht.1) hroll).andThen
      fun marked u _ _ _ => ?_
    exact Keeps.ite (.bind keeps_updateAggregateCheck fun _ => .pure _) (.pure _) u

theorem keeps_refreshAggregateForApply : Keeps cfg me (refreshAggregateForApply conf repo pr apply) := by
  refine .bind (.readStore _) fun existing => ?_
  cases existing with
  | none => exact .pure _
  | some check => exact keeps_updateAggregateCheck

theorem carries_refreshChecksForTerminalApply (hterm : apply.state.isTerminal = true)
    (htold : h.inst.Told apply) : Carried cfg me (fun _ _ => True)
      (refreshChecksForTerminalApply conf apply.repository apply.pullRequest apply) h := by
  refine .ite (fun hroll => (carries_setCheckActionRequired htold hroll).discard) fun hroll => ?_
  refine (carries_updateCheckRecordForApplyResult hterm htold fun hr hc => absurd ⟨hr, hc⟩ hroll).andThen
    fun r t _ _ _ => ?_
  rcases r with e | _ | _
  · exact .done
  · exact .done
  · exact keeps_refreshAggregateForApply t

theorem carries_onTerminalHook (hterm : apply.state.isTerminal = true) (htold : h.inst.Told apply) :
    Carried cfg me (fun _ _ => True)
      (onTerminalHook conf apply.repository apply.pullRequest apply) h := by
  have hback : (Entry.observed apply).Backed cfg me.deployment h := trivial
  refine (carries_leaveEntry rfl hback).andThen fun _ u hu _ hobs => ?_
  refine (carries_updateCheckRecordForApplyResult hterm (htold.later hu.1) fun _ _ => hobs).andThen
    fun r t ht _ _ => ?_
  rcases r with e | _ | _
  · exact .done
  · exact .done
  · refine .ite (fun hroll => ?_) fun _ => keeps_refreshAggregateForApply t
    exact (carries_setCheckActionRequired ((htold.later hu.1).later ht.1) hroll).discard

theorem carries_reconcileChecks {applies : List PRApply} {checks : List Check} {reconciled : Bool}
    (happlies : ∀ a ∈ applies, a.repository = repo ∧ a.pullRequest = pr ∧ h.inst.Told a) :
    Carried cfg me (fun _ _ => True)
      (reconcileChecks conf repo pr applies checks reconciled) h := by
  induction checks generalizing reconciled h with
  | nil => exact .done
  | cons check rest ih =>
    have hlater : ∀ t, h.Later t → ∀ a ∈ applies, a.repository = repo ∧ a.pullRequest = pr ∧
        t.inst.Told a := fun t ht a ha =>
      ⟨(happlies a ha).1, (happlies a ha).2.1, (happlies a ha).2.2.later ht⟩
    refine .ite (fun _ => ih happlies) fun _ => ?_
    cases hlatest : latestApplyFor applies check with
    | none => exact ih happlies
    | some apply =>
      obtain ⟨rfl, rfl, htold⟩ := happlies apply (Table.firstBy_mem hlatest)
      refine .ite (fun _ => ih happlies) fun hterm => ?_
      refine .ite (fun hroll => ?_) fun hroll => ?_
      · exact (carries_setCheckActionRequired htold hroll).andThen fun _ t ht _ _ => ih (hlater t ht.1)
      · have hterm' : apply.state.isTerminal = true := by simpa using hterm
        refine (carries_updateCheckRecordForApplyResult hterm' htold
          fun hr hc => absurd ⟨hr, hc⟩ hroll).andThen fun r t ht _ _ => ?_
        cases r with
        | error e => exact .done
        | ok updated => exact ih (hlater t ht.1)

theorem keeps_reconcileStaleChecks : Keeps cfg me (reconcileStaleChecks conf cached repo pr) := by
  intro h
  refine (carries_checksGetByPR repo pr).andThen fun checks t _ _ _ => ?_
  have happlies : Carried cfg me
      (fun applies u => ∀ a ∈ applies, a.repository = repo ∧ a.pullRequest = pr ∧ u.inst.Told a)
      (appliesGetByPR repo pr) t := by
    refine carries_readStore fun u v _ hs hv _ a ha => ?_
    obtain ⟨hmem, hof⟩ := List.mem_filter.1 ha
    simp only [Bool.and_eq_true, decide_eq_true_eq] at hof
    exact ⟨hof.1, hof.2, hs.told hmem hv⟩
  refine happlies.andThen fun applies u _ _ hu => ?_
  refine (carries_reconcileChecks hu).andThen fun r v _ _ _ => ?_
  rcases r with e | _ | _
  · exact .done
  · exact .done
  · refine Keeps.bind (keeps_fetchPullRequest cached repo pr) (fun current => ?_) v
    cases current with
    | error e => exact .pure _
    | ok current =>
      dsimp only
      split
      · exact .bind keeps_updateAggregateCheck fun _ => .pure _
      · exact .pure _

end

/-! ## Rows of databases that have left the pull request -/

section
variable {check : Check} {affected : List String}

theorem Check.Good.checkRunId_eq_zero (hc : check.Good h) (ha : check.isAggregate = false) :
    check.checkRunId = 0 := by
  by_contra hne
  rw [(hc.linked hne).1] at ha
  cases ha

theorem Check.Good.applyId_ne_zero (hc : check.Good h) (ha : check.isAggregate = false)
    (hstarted : check.hasStartedApply = true) : check.applyId ≠ 0 := by
  simp only [Check.hasStartedApply, Bool.or_eq_true, decide_eq_true_eq] at hstarted
  rcases hstarted with hrun | hid
  · exact hc.running ha hrun
  · exact hid

theorem carries_markStalePlanOnlyCheckStateSuccessful (hc : check.Good h) (ha : check.isAggregate = false) :
    Carried cfg me (fun _ _ => True)
      (markStalePlanOnlyCheckStateSuccessful headSHA check) h := by
  refine .andThen (carries_checksMarkStalePlanSuccessful ⟨?_, rfl, rfl, fun _ => rfl⟩) fun r _ _ _ _ => ?_
  · exact ⟨fun hne => absurd (hc.checkRunId_eq_zero ha) hne, .inr ⟨rfl, .inl rfl⟩, fun _ _ => rfl,
      fun hne => absurd rfl hne, fun hne => absurd rfl hne, fun _ hrun => by cases hrun⟩
  cases r with
  | ok marked | error e => exact .done

theorem carries_cleanupChecks {checks : List Check} {cleaned : Bool} (hrows : ∀ c ∈ checks, c.Good h) :
    Carried cfg me (fun _ _ => True) (cleanupChecks headSHA affected checks cleaned) h := by
  induction checks generalizing h cleaned with
  | nil => exact .done
  | cons check rest ih =>
    have hrest : ∀ t, h.Later t → ∀ c ∈ rest, c.Good t := fun t ht c hc => (hrows c (.tail _ hc)).later ht
    refine .ite (fun _ => ih (hrest h (.refl h))) fun hkeep => ?_
    have ha : check.isAggregate = false := Bool.eq_false_iff.2 fun ha => hkeep (.inl ha)
    refine .ite (fun hstarted => ?_) fun _ => ?_
    · have hgood : check.Good h := hrows check (.head _)
      have hblock : Carried cfg me (fun _ _ => True)
          (blockStaleStartedApplyCheckState headSHA check) h :=
        (carries_checksUpsertBlock hgood ha (hgood.applyId_ne_zero ha hstarted) headSHA).andThen fun _ _ _ _ _ =>
          Method.Carries.done
      exact hblock.andThen fun _ t ht _ _ => ih (hrest t ht.1)
    · exact (carries_markStalePlanOnlyCheckStateSuccessful (hrows check (.head _)) ha).andThen
        fun _ t ht _ _ => ih (hrest t ht.1)

theorem keeps_cleanupStaleChecks : Keeps cfg me (cleanupStaleChecks conf repo pr headSHA affected) := by
  refine .bind keeps_verifyHead fun current => .ite ?_ (.pure _)
  intro h
  refine (carries_checksGetByPR repo pr).andThen fun rows t _ _ hrows => ?_
  refine (carries_cleanupChecks hrows.1).andThen fun cleaned u _ _ _ => ?_
  exact Keeps.ite keeps_updateAggregateCheck (.pure _) u

end

end SchemaBot.Webhook
