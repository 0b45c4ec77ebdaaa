import SchemaBot.Webhook.Journal

/-!
# When the row of an apply becomes successful

The row of `checks` that an apply has started on belongs to it until it is completed, released or taken over. Two
claims about its conclusion.
-/

namespace SchemaBot.Webhook

open Concurrent History

variable {cfg : Nat → ServerConfig} {i : Nat} {h : Hub} {b : Books} {c c' : Check} {a apply : PRApply}

theorem Hub.Sound.follows (hs : h.Sound cfg i) (htold : h.inst.Told apply) (ha : a ∈ h.inst.applies)
    (hid : a.id = apply.id) : a.Follows apply := by
  obtain ⟨a', ha', hf⟩ := htold.1
  rwa [hs.applyIds.eq ha ha' (hid.trans hf.id_eq.symm)]

theorem Hub.Sound.completed_of_success (hs : h.Sound cfg i) (hc : c ∈ h.inst.checks)
    (ha : a ∈ h.inst.applies) (hid : a.id = c.applyId) (hsucc : c.conclusion = .success) :
    a.state = .completed ∧ ∃ b, Entry.recorded b ∈ h.inst.log ∧ b.state = .completed ∧ a.Follows b := by
  have hne : c.applyId ≠ 0 := by
    have hpos := hs.applyIdsPos a ha
    omega
  have hstatus : c.status = .completed := by
    rcases (hs.checks c hc).settled with ⟨-, hnone⟩ | ⟨hdone, -⟩
    · exact absurd (hnone.symm.trans hsucc) (by decide)
    · exact hdone
  obtain ⟨b, hb, hbid, hbc⟩ := (hs.checks c hc).done hne hstatus hsucc
  have hf : a.Follows b := hs.follows (hs.entries _ hb).1.2 ha (hid.trans hbid.symm)
  exact ⟨hf.completed hbc, b, hb, hbc, hf⟩

/-! ## Success without an end -/

structure Released (log log' : List Entry) (c c' : Check) : Prop where
  entry : ∃ check, log' = log ++ [.recovered check]
  commit : c'.headSHA = c.headSHA
  unowned : c'.applyId = 0
  noChanges : c'.hasChanges = false

theorem Written.released {w : RowWrite} {entries : List Entry} {check : Check} (hw : Written h w entries)
    (hs : h.Sound cfg i) (hdb : c.isAggregate = false) (hrun : c.status = .inProgress)
    (ha : a ∈ h.inst.applies) (hid : a.id = c.applyId) (hact : a.state ≠ .completed)
    (hrow : w.row = some check) (hm : h.inst.matched w c = true) (hsucc : (w.result check).conclusion = .success) :
    Released h.inst.log (h.inst.log ++ entries) c (w.result check) := by
  have hpos := hs.applyIdsPos a ha
  have hkey : ∀ {check : Check}, check.sameKey c = true → c.isAggregate = check.isAggregate :=
    fun hk => Check.isAggregate_congr (Check.sameKey_iff.1 hk)
  cases hw with
  | aggregate hgood hagg =>
    rw [hkey hm, hagg] at hdb
    cases hdb
  | insertPlan => cases hm
  | updatePlan =>
    simp only [Instance.matched, Check.inProgressApply, hrun, Bool.and_eq_true, decide_true, Bool.true_and,
      Bool.not_eq_true', decide_eq_false_iff_not, not_not] at hm
    omega
  | markStale =>
    simp only [Instance.matched, hrun, Bool.and_eq_true] at hm
    exact absurd hm.1.2 (by decide)
  | recover hp hnoop =>
    cases hrow
    simp only [Instance.matched, Bool.and_eq_true, decide_eq_true_eq] at hm
    simp only [Check.successfulNoOpPlanResult, Bool.and_eq_true, Bool.not_eq_true'] at hnoop
    exact ⟨⟨_, rfl⟩, hm.2.symm, rfl, hnoop.2⟩
  | complete hgood hof hrec =>
    cases hrow
    simp only [Instance.matched, Bool.and_eq_true, decide_eq_true_eq] at hm
    have hf := hs.follows (hs.entries _ hrec).1.2 ha (hid.trans hm.1.2)
    exact absurd (hf.completed (PRApply.completed_of_success hsucc)) hact
  | requireAction =>
    cases hrow
    cases hsucc
  | delete => cases hrow
  | block headSHA =>
    cases hrow
    exact absurd hsucc (Check.blockRemoved_conclusion headSHA)

theorem Ledger.released (hl : Ledger cfg i h b) (hs : h.Sound cfg i) (hc : c ∈ h.inst.checks)
    (hdb : c.isAggregate = false) (hrun : c.status = .inProgress) (ha : a ∈ h.inst.applies)
    (hid : a.id = c.applyId) (hact : a.state ≠ .completed) (hc' : c' ∈ b.checks) (hk : c'.key = c.key)
    (hsucc : c'.conclusion = .success) : Released h.inst.log b.log c c' := by
  have hstay : c' ∈ h.inst.checks → Released h.inst.log b.log c c' := by
    intro hold
    rw [Instance.eq_of_key hs.keys hold hc hk] at hsucc
    exact absurd (hs.completed_of_success hc ha hid hsucc).1 hact
  cases hl with
  | rows w entries hw =>
    rcases Instance.written_over hs.keys hc hc' hk with ⟨rfl, -⟩ | ⟨check, hrow, rfl, hm⟩
    · exact hstay hc
    · exact hw.released hs hdb hrun ha hid hact hrow hm hsucc
  | start me origin a' check ha' hof hid' hstatus hconcl =>
    rcases Instance.written_over hs.keys hc hc' hk with ⟨rfl, -⟩ | ⟨check', hrow, rfl, hm⟩
    · exact hstay hc
    · cases hrow
      exact absurd (hconcl.symm.trans hsucc) (by decide)
  | _ => exact hstay hc'

def Instance.Runs (s : Instance) (c : Check) : Prop :=
  ∃ a ∈ s.applies, a.id = c.applyId ∧ a.state.isTerminal = false

instance {s : Instance} {c : Check} : Decidable (s.Runs c) :=
  inferInstanceAs (Decidable (∃ a ∈ s.applies, a.id = c.applyId ∧ a.state.isTerminal = false))

/-- A row that belongs to an apply that has not ended is not successful, and where it is in progress, no step
makes it so, but that of a plan without changes that releases it. -/
theorem owned_success (cfg : Nat → ServerConfig) (actions : List Action) (act : Action) (i : Nat) (c : Check)
    (hc : c ∈ ((World.after cfg actions).instances i).checks)
    (hruns : ((World.after cfg actions).instances i).Runs c) :
    c.conclusion ≠ .success ∧ (c.isAggregate = false → c.status = .inProgress →
      ∀ c' ∈ (((World.after cfg actions).step cfg act).instances i).checks, c'.key = c.key →
        c'.conclusion = .success →
        Released (logAfter cfg actions i) (((World.after cfg actions).step cfg act).instances i).log c c') := by
  have hw : (World.after cfg actions).Sound cfg := World.sound_after actions
  obtain ⟨a, ha, hid, hterm⟩ := hruns
  have hact : a.state ≠ .completed := fun hdone => by
    rw [hdone] at hterm
    cases hterm
  refine ⟨fun hsucc => hact ((hw.hubs i).completed_of_success hc ha hid hsucc).1, fun hdb hrun c' hc' hk hs => ?_⟩
  exact (hw.ledger act i).released (hw.hubs i) hc hdb hrun ha hid hact hc' hk hs

def runningRow : Check := (Sample.row "staging" "A").startApply 1

theorem owned_success_startedRun : runningRow ∈ ((World.after Sample.config Sample.startedRun).instances 0).checks ∧
      ((World.after Sample.config Sample.startedRun).instances 0).Runs runningRow ∧
      runningRow.conclusion ≠ .success := by
  have hc : runningRow ∈ ((World.after Sample.config Sample.startedRun).instances 0).checks := by decide +kernel
  have hruns : ((World.after Sample.config Sample.startedRun).instances 0).Runs runningRow := by decide +kernel
  exact ⟨hc, hruns, (owned_success Sample.config Sample.startedRun (.advance 0) 0 runningRow hc hruns).1⟩

/-- While the apply runs, `plan` finds nothing to change any more. -/
def recoveredRun : List Action :=
  Sample.startedRun ++ [Sample.plans fun _ => [], Sample.comment .plan { environment := "staging" }] ++
    Sample.steps 1 10

/-- The row of an apply that has not ended becomes successful. -/
theorem recovered_success : runningRow ∈ ((World.after Sample.config recoveredRun).instances 0).checks ∧
      ((World.after Sample.config recoveredRun).instances 0).Runs runningRow ∧
      { Sample.row "staging" "A" with conclusion := .success } ∈
        (((World.after Sample.config recoveredRun).step Sample.config (.advance 1)).instances 0).checks ∧
      (((World.after Sample.config recoveredRun).step Sample.config (.advance 1)).instances 0).Runs runningRow := by
  decide +kernel

/-! ## Rollbacks -/

def PRApply.isRolledBack (a : PRApply) : Bool := a.rollback && a.state = .completed

def Entry.observesRollback : Entry → Bool
  | .observed a => a.isRolledBack
  | _ => false

def Unobserved (log : List Entry) : Prop := ∀ e ∈ log, e.observesRollback = false

instance {log : List Entry} : Decidable (Unobserved log) :=
  inferInstanceAs (Decidable (∀ e ∈ log, e.observesRollback = false))

theorem PRApply.isRolledBack_iff : a.isRolledBack = true ↔ a.rollback = true ∧ a.state = .completed := by
  unfold PRApply.isRolledBack
  rw [Bool.and_eq_true, decide_eq_true_eq]

theorem Unobserved.recorded (hu : Unobserved h.inst.log) (hs : h.Sound cfg i)
    (hrec : Entry.recorded a ∈ h.inst.log) : a.isRolledBack = false := by
  refine Bool.eq_false_iff.2 fun hroll => ?_
  obtain ⟨hrollback, hdone⟩ := PRApply.isRolledBack_iff.1 hroll
  have hobs := hu _ ((hs.entries _ hrec).2 hrollback hdone)
  exact absurd hroll (Bool.eq_false_iff.1 hobs)

theorem Unobserved.conclusion_ne (hu : Unobserved h.inst.log) (hs : h.Sound cfg i) (hc : c ∈ h.inst.checks)
    (ha : a ∈ h.inst.applies) (hid : a.id = c.applyId) (hroll : a.isRolledBack = true) :
    c.conclusion ≠ .success := by
  intro hsucc
  obtain ⟨-, r, hrec, hdone, hf⟩ := hs.completed_of_success hc ha hid hsucc
  have hrollback : a.rollback = r.rollback := by rw [hf.same]
  have hyes : r.isRolledBack = true :=
    PRApply.isRolledBack_iff.2 ⟨hrollback ▸ (PRApply.isRolledBack_iff.1 hroll).1, hdone⟩
  rw [hu.recorded hs hrec] at hyes
  cases hyes

theorem Unobserved.requires_action (hu : Unobserved h.inst.log) (hs : h.Sound cfg i) (hl : Ledger cfg i h b)
    (hlog : b.log = h.inst.log ++ [.delivered a true]) (hroll : a.isRolledBack = true) (hc' : c' ∈ b.checks)
    (hk : c'.key = a.key) : c'.status = .completed ∧ c'.conclusion = .actionRequired := by
  rcases hl.delivered hlog with ⟨w, hw, hrows⟩ | ⟨-, hfalse, -⟩
  · rw [hrows] at hc'
    obtain ⟨o, ho, hm, hok, -⟩ := hw.changed_row (List.mem_singleton_self _)
    rcases Instance.written_over hs.keys ho hc' (hk.trans hok.symm) with ⟨-, hno⟩ | ⟨check, hrow, rfl, -⟩
    · rw [hm] at hno
      cases hno
    · generalize hentries : [Entry.delivered a true] = entries at hw
      cases hw with
      | complete hgood hof hrec =>
        injection hentries with hdel
        injection hdel with ha
        rw [ha, hu.recorded hs hrec] at hroll
        cases hroll
      | requireAction =>
        cases hrow
        exact ⟨rfl, rfl⟩
      | _ => cases hentries
  · cases hfalse

/-- Where no observer tells of the end of a rollback, the row of one that has completed is not successful, and
its result makes the row need action. -/
theorem rollback_needs_action (cfg : Nat → ServerConfig) (actions : List Action) (act : Action) (i : Nat)
    (hu : Unobserved (logAfter cfg actions i)) :
    (∀ a ∈ ((World.after cfg actions).instances i).applies, a.isRolledBack = true →
      ∀ c ∈ ((World.after cfg actions).instances i).checks, c.applyId = a.id → c.conclusion ≠ .success) ∧
      ∀ a, a.isRolledBack = true →
        (((World.after cfg actions).step cfg act).instances i).log =
          logAfter cfg actions i ++ [.delivered a true] →
        ∀ c ∈ (((World.after cfg actions).step cfg act).instances i).checks, c.key = a.key →
          c.status = .completed ∧ c.conclusion = .actionRequired := by
  have hw : (World.after cfg actions).Sound cfg := World.sound_after actions
  refine ⟨fun a ha hroll c hc hid => hu.conclusion_ne (hw.hubs i) hc ha hid.symm hroll,
    fun a hroll hlog c hc hk => ?_⟩
  exact hu.requires_action (hw.hubs i) (hw.ledger act i) hlog hroll hc hk

def rollbackRow : Check := ({ Sample.row "staging" "A" with basis := "" } : Check).startApply 2

def refreshedRun : List Action :=
  Sample.rolledBackRun ++ [.deliver 0 (.applyEnded 2 false)] ++ Sample.steps 2 2

theorem rollback_needs_action_refreshedRun : Unobserved (logAfter Sample.config refreshedRun 0) ∧
      { (Sample.plan "plan-1" "staging" "").newApply 2 1 true with state := .completed } ∈
        ((World.after Sample.config refreshedRun).instances 0).applies ∧
      rollbackRow ∈ ((World.after Sample.config refreshedRun).instances 0).checks ∧
      rollbackRow.conclusion ≠ .success := by
  have hu : Unobserved (logAfter Sample.config refreshedRun 0) := by decide +kernel
  have ha : { (Sample.plan "plan-1" "staging" "").newApply 2 1 true with state := .completed } ∈
      ((World.after Sample.config refreshedRun).instances 0).applies := by decide +kernel
  have hc : rollbackRow ∈ ((World.after Sample.config refreshedRun).instances 0).checks := by decide +kernel
  have hne := (rollback_needs_action Sample.config refreshedRun (.advance 2) 0 hu).1 _ ha rfl rollbackRow hc rfl
  exact ⟨hu, ha, hc, hne⟩

def observedRun : List Action :=
  Sample.rolledBackRun ++ [.deliver 0 (.applyEnded 2 true)] ++ Sample.steps 2 6

/-- The row of a rollback that has completed is successful. -/
theorem rollback_success : { (Sample.plan "plan-1" "staging" "").newApply 2 1 true with state := .completed } ∈
        ((World.after Sample.config observedRun).instances 0).applies ∧
      { Sample.row "staging" "A" with applyId := 2, conclusion := .success, basis := "" } ∈
        ((World.after Sample.config observedRun).instances 0).checks := by
  decide +kernel

/-! ## Aggregates -/

/-- A check run of SchemaBot that is a success was computed from rows that were read and are all successful; a
passing aggregate from rows that have no apply. -/
theorem published_success (cfg : Nat → ServerConfig) (actions : List Action) (r : CheckRun)
    (hr : r ∈ (World.after cfg actions).github.runs) (hsucc : r.conclusion = .success) :
    r.Computed (World.after cfg actions).notes :=
  ((World.sound_after actions).hubs 0).computed r hr hsucc

def endedCheckRun : CheckRun :=
  { id := 1, repository := "app", headSHA := "A", name := "SchemaBot", app := "schemabot", status := .completed
    conclusion := .success, basis := "A"
    made := .aggregate none [{ Sample.row "staging" "A" with applyId := 1, conclusion := .success }] }

theorem published_success_endedRun : endedCheckRun ∈ (World.after Sample.config Sample.endedRun).github.runs ∧
      endedCheckRun.Computed (World.after Sample.config Sample.endedRun).notes := by
  have hr : endedCheckRun ∈ (World.after Sample.config Sample.endedRun).github.runs := by decide +kernel
  exact ⟨hr, published_success Sample.config Sample.endedRun endedCheckRun hr rfl⟩

/-- The rows of a plan without changes are read; before the aggregate is published, `plan` finds a change for
staging and publishes it. -/
def overwrittenRun : List Action :=
  [Sample.push "A", Sample.plans fun _ => [], .deliver 0 (.autoPlan "app" 1 "users")] ++ Sample.steps 0 13 ++
  [Sample.plans fun _ => [Sample.tableChange], Sample.comment .plan { environment := "staging" }] ++
  Sample.steps 1 20

/-- A success is published from the row of an apply, and one from older rows replaces an aggregate that needs
action, while the row of staging still does. -/
theorem published_out_of_order : endedCheckRun ∈ (World.after Sample.config Sample.endedRun).github.runs ∧
      (World.after Sample.config overwrittenRun).github.runs.map (·.conclusion) = [.actionRequired] ∧
      (World.after Sample.config (overwrittenRun ++ Sample.steps 0 4)).github.runs.map (·.conclusion) =
        [.success] ∧
      { Sample.row "staging" "A" with hasChanges := true, conclusion := .actionRequired } ∈
        ((World.after Sample.config (overwrittenRun ++ Sample.steps 0 4)).instances 0).checks := by
  decide +kernel

end SchemaBot.Webhook
