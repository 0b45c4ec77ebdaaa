import SchemaBot.Webhook.Journal

/-!
# What a confirmation executes

A command that stores an apply has held the lock of the database before (`created_held`), but nothing keeps
the lock from being released, or taken by somebody else, until the apply is stored.
-/

namespace SchemaBot.Webhook

open Concurrent History

/-! ## Locks -/

/-- `apply -y` takes the lock; an `unlock` releases it, and somebody else takes it. -/
def stolenRun : List Action :=
  [Sample.push "A", Sample.plans fun _ => [Sample.tableChange],
    Sample.comment .apply { environment := "staging", autoConfirm := true }] ++ Sample.steps 0 20 ++
  [Sample.comment .unlock {}] ++ Sample.steps 1 30 ++
  [.change 0 (.apiLock { databaseName := "users", databaseType := "mysql", owner := "cli:bob" })] ++
  Sample.steps 0 9

def PlanResponse.Matches (r : PlanResponse) (plan : StoredPlan) : Prop :=
  match protoChangesToNamespaces r.changes [] with
  | .ok namespaces => namespaces.Perm plan.content.namespaces
  | .error _ => False

instance {r : PlanResponse} {plan : StoredPlan} : Decidable (r.Matches plan) := by
  unfold PlanResponse.Matches
  split <;> infer_instance

/-- What two entries about confirmations should agree in: the command is for the environment of the pending
plan, one command confirms one plan, and the plan that the command makes again has not changed. -/
def Entry.Agrees : Entry → Entry → Prop
  | .confirming me environment _ (some plan), .confirming me' _ _ (some plan') =>
    plan.environment = environment ∧ (plan.planIdentifier = plan'.planIdentifier → me = me')
  | .confirming me _ _ (some plan), .replanned me' planResp => me = me' → planResp.Matches plan
  | _, _ => True

instance (e e' : Entry) : Decidable (e.Agrees e') := by
  unfold Entry.Agrees
  split <;> infer_instance

def Faithful (log : List Entry) : Prop := ∀ e ∈ log, ∀ e' ∈ log, e.Agrees e'

instance {log : List Entry} : Decidable (Faithful log) :=
  inferInstanceAs (Decidable (∀ e ∈ log, ∀ e' ∈ log, e.Agrees e'))

def Entry.confirms (planId : String) : Entry → Bool
  | .created _ (.applyConfirm _ (some plan)) _ => plan.planIdentifier = planId
  | _ => false

theorem Entry.exists_of_confirms {planId : String} {e : Entry} (he : e.confirms planId = true) :
    ∃ me lock plan a, e = .created me (.applyConfirm lock (some plan)) a ∧ plan.planIdentifier = planId := by
  unfold Entry.confirms at he
  split at he
  · exact ⟨_, _, _, _, rfl, of_decide_eq_true he⟩
  · cases he

section
variable {cfg : Nat → ServerConfig} {i : Nat} {h : Hub} {log pre : List Entry} {me : Handle} {lock : Lock}
  {pending : Option StoredPlan} {a : PRApply}

structure Executes (s : Instance) (plan : StoredPlan) (a : PRApply) : Prop where
  scope : plan.scope = a.scope
  changes : ∃ stored, s.plan a.planIdentifier = some stored ∧
    stored.content.namespaces.Perm plan.content.namespaces

theorem Hub.Sound.executes (hs : h.Sound cfg i) (hf : Faithful h.inst.log)
    (hcr : Entry.created me (.applyConfirm lock pending) a ∈ h.inst.log) (hne : lock.pendingPlanId ≠ "") :
    ∃ plan, pending = some plan ∧ plan.planIdentifier = lock.pendingPlanId ∧ Executes h.inst plan a := by
  obtain ⟨-, stored, rollback, ha, hc⟩ := hs.entries _ hcr
  obtain ⟨hconf, -, hdb, hty, planResp, hre, hns⟩ := hc.backed
  rcases hs.entries _ hconf with ⟨hnone, -⟩ | ⟨plan, rfl, hconfirm⟩
  · exact absurd hnone hne
  refine ⟨plan, rfl, Instance.plan_identifier hconfirm.stored, ?_, stored, ?_, ?_⟩
  · have henv : plan.environment = stored.environment := (hf _ hconf _ hconf).1
    rw [ha]
    unfold StoredPlan.scope
    rw [hconfirm.database, hconfirm.databaseType, henv, hdb, hty]
    rfl
  · rw [ha]
    exact hc.stored
  · have hmatch : planResp.Matches plan := hf _ hconf _ hre rfl
    unfold PlanResponse.Matches at hmatch
    rw [hns] at hmatch
    exact hmatch

theorem Faithful.confirms_once (hf : Faithful log) (hj : Recorded Entry.Due log) (planId : String) :
    log.countP (·.confirms planId) ≤ 1 := by
  refine hj.countP_le_one fun pre e x hp hdue he hx => Bool.eq_false_iff.2 fun hxc => ?_
  obtain ⟨me, lock, plan, a, rfl, hplan⟩ := Entry.exists_of_confirms he
  obtain ⟨me', lock', plan', a', rfl, hplan'⟩ := Entry.exists_of_confirms hxc
  have hpre : Recorded Entry.Due pre := hj.beginning ((List.prefix_append _ _).trans hp)
  obtain ⟨pre', hpre'⟩ := exists_beginning hx
  have hconf' := (hpre.last hpre').2.2.2
  have hsub : ∀ y ∈ pre, y ∈ log := fun y hy => hp.subset (List.mem_append_left _ hy)
  have hsub' : ∀ y ∈ pre', y ∈ pre := fun y hy => hpre'.subset (List.mem_append_left _ hy)
  -- the two commands have confirmed one plan, so they are one, and it stores one apply
  have hme : me = me' :=
    (hf _ (hsub _ hdue.2.2.2) _ (hsub _ (hsub' _ hconf'))).2 (hplan.trans hplan'.symm)
  subst hme
  exact hdue.2.1 _ hx rfl

end

/-- `apply` for staging: its plan waits on the lock. -/
def pendingRun : List Action :=
  [Sample.push "A", Sample.plans fun _ => [Sample.tableChange],
    Sample.comment .apply { environment := "staging" }] ++ Sample.steps 0 21

def confirmedRun : List Action :=
  pendingRun ++ [Sample.comment .applyConfirm { environment := "staging" }] ++ Sample.steps 1 25

def otherChange : SchemaChange :=
  { namespaceName := "users", tableChanges := [{ tableName := "t", ddl := "ALTER TABLE t DROP c" }] }

def reconfirmedRun : List Action :=
  pendingRun ++ [Sample.plans fun _ => [otherChange], Sample.comment .applyConfirm { environment := "staging" }] ++
  Sample.steps 1 18 ++ [.change 0 (.applyState 1 .completed),
    Sample.comment .applyConfirm { environment := "production" }] ++ Sample.steps 2 18

def Entry.pins (planId : String) : Entry → Bool
  | .pinned id _ _ _ => id = planId
  | _ => false

def Entry.completes (scope : String × String × String) : Entry → Bool
  | .turned b => b.state = .completed && b.scope = scope
  | _ => false

def Untouched (planId : String) (scope : String × String × String) (log : List Entry) : Prop :=
  Recorded (fun pre e => e.completes scope = true → ∀ x ∈ pre, x.pins planId = false) log

instance {planId : String} {scope : String × String × String} {log : List Entry} :
    Decidable (Untouched planId scope log) :=
  inferInstanceAs (Decidable (Recorded _ log))

def Entry.loads : Entry → Option (Handle × StoredPlan)
  | .takenUp me plan => some (me, plan)
  | _ => none

def Entry.rollsBack : Entry → Option (Handle × PRApply)
  | .created me .rollbackConfirm a => some (me, a)
  | _ => none

/-- How the entries about rollbacks should follow one another: a pinned plan is loaded once, and only where
nothing has completed since it was pinned, and nothing completes until the command has stored its apply. -/
def Entry.Unspent (log : List Entry) : Entry → Prop
  | .takenUp _ plan =>
    (∀ e ∈ log, ∀ p ∈ e.loads, p.2.planIdentifier ≠ plan.planIdentifier) ∧
      Untouched plan.planIdentifier plan.scope log
  | .turned b => b.state = .completed → ∀ e ∈ log, ∀ p ∈ e.loads, p.2.scope = b.scope →
      ∃ x ∈ log, ∃ q ∈ x.rollsBack, q.1 = p.1
  | _ => True

instance (log : List Entry) (e : Entry) : Decidable (e.Unspent log) := by
  unfold Entry.Unspent
  split <;> infer_instance

def Entry.rollsBackPlan (planId : String) (e : Entry) : Bool := e.rollsBack.any (·.2.planIdentifier = planId)

theorem Entry.exists_of_rollsBackPlan {planId : String} {e : Entry} (he : e.rollsBackPlan planId = true) :
    ∃ me a, e = .created me .rollbackConfirm a ∧ a.planIdentifier = planId := by
  unfold Entry.rollsBackPlan Entry.rollsBack at he
  split at he
  · exact ⟨_, _, rfl, by simpa using he⟩
  · cases he

section
variable {log pre pre' : List Entry} {me me' : Handle} {a a' : PRApply}

theorem loaded_once (hu : Recorded Entry.Unspent log) {plan plan' : StoredPlan}
    (h : Entry.takenUp me plan ∈ log) (h' : Entry.takenUp me' plan' ∈ log)
    (hid : plan.planIdentifier = plan'.planIdentifier) : me = me' := by
  rcases before_or_after h h' with heq | ⟨pre, hpre, hmem⟩ | ⟨pre, hpre, hmem⟩
  · injection heq
  · exact absurd hid ((hu.last hpre).1 _ hmem (me, plan) rfl)
  · exact absurd hid.symm ((hu.last hpre).1 _ hmem (me', plan') rfl)

theorem rollsBack_once (hu : Recorded Entry.Unspent log) (hj : Recorded Entry.Due log) (planId : String) :
    log.countP (·.rollsBackPlan planId) ≤ 1 := by
  refine hj.countP_le_one fun pre e x hp hdue he hx => Bool.eq_false_iff.2 fun hxr => ?_
  obtain ⟨me, a, rfl, hid⟩ := Entry.exists_of_rollsBackPlan he
  obtain ⟨me', a', rfl, hid'⟩ := Entry.exists_of_rollsBackPlan hxr
  have hbefore : pre <+: log := (List.prefix_append _ _).trans hp
  obtain ⟨pre', hpre'⟩ := exists_beginning hx
  obtain ⟨plan, hload, hplan, -⟩ := hdue.2.2.2
  obtain ⟨plan', hload', hplan', -⟩ := ((hj.beginning hbefore).last hpre').2.2.2
  have hload'' : Entry.takenUp me' plan' ∈ pre := hpre'.subset (List.mem_append_left _ hload')
  have hme : me = me' :=
    loaded_once (hu.beginning hbefore) hload hload'' (by rw [hplan, hplan', hid, hid'])
  subst hme
  exact hdue.2.1 _ hx rfl

theorem untouched_of_rollsBack (hu : Recorded Entry.Unspent log) (hj : Recorded Entry.Due log)
    (hp : pre ++ [Entry.created me .rollbackConfirm a] <+: log) : Untouched a.planIdentifier a.scope pre := by
  obtain ⟨-, hidle, -, plan, hload, hid, hscope⟩ := hj.last hp
  have hu' : Recorded Entry.Unspent pre := hu.beginning ((List.prefix_append _ _).trans hp)
  obtain ⟨pre', hpre'⟩ := exists_beginning hload
  have huntouched := (hu'.last hpre').2
  rw [hid, hscope] at huntouched
  refine recorded_iff.2 fun mid e hmid he => ?_
  rcases beginning_cases hmid hpre' with heq | hbefore | hafter
  · rw [heq] at he
    cases he
  · -- the plan was loaded before: the command has stored its apply by then, and does so once
    cases e with
    | turned b =>
      obtain ⟨hcompleted, hb⟩ := Bool.and_eq_true_iff.1 he
      have hscope' : plan.scope = b.scope := hscope.trans (of_decide_eq_true hb).symm
      obtain ⟨x, hx, q, hq, hme⟩ :=
        hu'.last hmid (of_decide_eq_true hcompleted) _ hbefore (me, plan) rfl hscope'
      have hdeed : x.deedOf = some me := by
        unfold Entry.rollsBack at hq
        split at hq
        · cases hq
          exact congrArg some hme
        · cases hq
      exact absurd hdeed (hidle x (hmid.subset (List.mem_append_left _ hx)))
    | _ => cases he
  · exact huntouched.last hafter he

end

def overtakenRun : List Action :=
  Sample.pinnedRun ++ [.change 0 (.apiApply (Sample.plan "plan-9" "staging" "A") false),
    .change 0 (.applyState 2 .completed), Sample.comment .rollbackConfirm { environment := "staging" }] ++
  Sample.steps 1 8

def repeatedRun : List Action :=
  overtakenRun ++ Sample.steps 1 9 ++ [.change 0 (.applyState 3 .completed),
    Sample.comment .rollbackConfirm { environment := "staging" }] ++ Sample.steps 2 9

end SchemaBot.Webhook
