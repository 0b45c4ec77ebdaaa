import SchemaBot.Webhook.Journal

/-!
# What the promotion gate decides

Two questions about whole runs. Which applies has the gate let pass (`created_gated`).
-/

namespace SchemaBot.Webhook

open Concurrent History

/-! ## Owners -/

theorem sharp_not_mem_repr (n : Nat) : '#' ∉ n.repr.toList := by
  rw [Nat.repr_eq_ofList_toDigits, String.toList_ofList]
  intro hmem
  have hdigit := Nat.isDigit_of_mem_toDigits (by decide) (by decide) hmem
  exact absurd hdigit (by decide)

theorem eq_of_append_sharp {xs xs' ys ys' : List Char} (hy : '#' ∉ ys) (hy' : '#' ∉ ys')
    (heq : xs ++ '#' :: ys = xs' ++ '#' :: ys') : xs = xs' ∧ ys = ys' := by
  rcases List.append_eq_append_iff.1 heq with ⟨c, hc, hrest⟩ | ⟨c, hc, hrest⟩
  · cases c with
    | nil =>
      simp only [List.append_nil, List.nil_append, List.cons.injEq, true_and] at hc hrest
      exact ⟨hc.symm, hrest⟩
    | cons x c =>
      rw [List.cons_append, List.cons.injEq] at hrest
      exact absurd (hrest.2 ▸ List.mem_append_right c (List.mem_cons_self ..)) hy
  · cases c with
    | nil =>
      simp only [List.append_nil, List.nil_append, List.cons.injEq, true_and] at hc hrest
      exact ⟨hc, hrest.symm⟩
    | cons x c =>
      rw [List.cons_append, List.cons.injEq] at hrest
      exact absurd (hrest.2 ▸ List.mem_append_right c (List.mem_cons_self ..)) hy'

theorem lockOwner_inj {repo repo' : String} {pr pr' : Nat} (ho : lockOwner repo pr = lockOwner repo' pr') :
    repo = repo' ∧ pr = pr' := by
  have hlist := congrArg String.toList ho
  simp only [lockOwner, String.toList_append, List.append_assoc] at hlist
  obtain ⟨hrepo, hpr⟩ := eq_of_append_sharp (sharp_not_mem_repr pr) (sharp_not_mem_repr pr') hlist
  exact ⟨String.toList_inj.1 hrepo, repr_inj (String.toList_inj.1 hpr)⟩

/-! ## Steps that store an apply -/

section
variable {cfg : Nat → ServerConfig} {w : World} {act : Action} {i : Nat} {me : Handle} {origin : Origin}
  {apply : PRApply}

theorem mem_log_of_quiet {log entries : List Entry} {e : Entry} (hq : ∀ x ∈ entries, x.deedOf = none)
    (he : e ∈ log ++ entries) (hdeed : e.deedOf = some me) : e ∈ log := by
  rcases List.mem_append.1 he with hold | hnow
  · exact hold
  · rw [hq e hnow] at hdeed
    cases hdeed

theorem Ledger.creates {h : Hub} {b : Books} (hl : Ledger cfg i h b)
    (hmem : Entry.created me origin apply ∈ b.log) : Entry.created me origin apply ∈ h.inst.log ∨
      ∃ plan lockId rollback, apply = plan.newApply h.inst.nextApply lockId rollback ∧
        Creates cfg i h me origin plan rollback := by
  cases hl with
  | same => exact .inl hmem
  | remark e hr =>
    have hnone : ∀ x ∈ [e], x.deedOf = none := fun x hx => by
      rw [List.mem_singleton.1 hx]
      exact Entry.deedOf_of_isRemark hr
    exact .inl (mem_log_of_quiet hnone hmem rfl)
  | rows w entries hw => exact .inl (mem_log_of_quiet hw.quiet hmem rfl)
  | create me' origin' plan lockId rollback hc =>
    rcases List.mem_append.1 hmem with hold | hnow
    · exact .inl hold
    · have heq := List.mem_singleton.1 hnow
      injection heq with hme horigin happly
      subst hme horigin happly
      exact .inr ⟨plan, lockId, rollback, rfl, hc⟩
  | _ => exact .inl ((List.mem_append.1 hmem).resolve_right fun hnow => by cases List.mem_singleton.1 hnow)

theorem World.Sound.creates (hw : w.Sound cfg) (he : w.Enters cfg act i (.created me origin apply)) :
    ∃ plan lockId rollback, apply = plan.newApply (w.instances i).nextApply lockId rollback ∧
      Creates cfg i (w.hub i) me origin plan rollback :=
  ((hw.ledger act i).creates he.2).resolve_left he.1

end

/-! ## Which applies have passed the gate -/

/-- What the gate has decided for an apply: for `apply` in the same handling, for `apply-confirm` in an
earlier one, for the plan that the lock has pinned. -/
def Origin.Gated (cfg : ServerConfig) (i : Nat) (notes : List Note) (me : Handle) (apply : PRApply) : Origin → Prop
  | .apply => Promoted cfg notes me apply.gateRequest apply.environment
  | .applyConfirm lock pending => lock.pendingPlanId ≠ "" → ∃ plan, pending = some plan ∧
      plan.planIdentifier = lock.pendingPlanId ∧
      plan.gateRequest = { apply.gateRequest with headSHA := plan.headSHA } ∧
      ∃ earlier : Handle, earlier.deployment = i ∧ Promoted cfg notes earlier plan.gateRequest plan.environment
  | .rollbackConfirm => True

theorem Confirmable.gateRequest_eq {conf : ServerConfig} {i : Nat} {h : Hub} {lock : Lock}
    {plan plan' : StoredPlan} (hc : Confirmable conf i h lock plan')
    (ho : lock.owner = lockOwner plan.repository plan.pullRequest) (hd : lock.databaseName = plan.database)
    (ht : lock.databaseType = plan.databaseType) :
    plan'.gateRequest = { plan.gateRequest with headSHA := plan'.headSHA } := by
  obtain ⟨hrepo, hpr⟩ := lockOwner_inj (hc.owner.symm.trans ho)
  unfold StoredPlan.gateRequest
  rw [hrepo, hpr, hc.database, hd, hc.databaseType, ht]

def plannedRun : List Action :=
  [Sample.push "A", Sample.plans fun env => if env = "staging" then [] else [Sample.tableChange],
    .deliver 0 (.autoPlan "app" 1 "users")] ++ Sample.steps 0 17

/-- `apply` for production at the commit that staging was planned for. -/
def promotedRun : List Action :=
  plannedRun ++ [Sample.comment .apply { environment := "production", autoConfirm := true }] ++
    Sample.steps 1 32

def Note.gateOf : Note → Option Handle
  | .passed handling _ _ _ => some handling
  | _ => none

theorem Promoted.exists_note {cfg : ServerConfig} {notes : List Note} {handling : Handle}
    {request : GateRequest} {environment priorEnv : String} {environments : List String}
    (h : Promoted cfg notes handling request environment)
    (henv : cfg.databaseEnvironments request.database = .ok environments)
    (hprior : priorEnv ∈ priorEnvironments cfg environment environments) :
    ∃ n ∈ notes, n.gateOf = some handling := by
  obtain ⟨environments', henv', hall⟩ := h
  rw [henv] at henv'
  cases henv'
  obtain ⟨evidence, hmem, -⟩ := hall priorEnv hprior
  exact ⟨_, hmem, rfl⟩

/-- `apply` for staging, whose plan is then confirmed for production. -/
def crossedRun : List Action :=
  [Sample.push "A", Sample.plans fun _ => [Sample.tableChange],
    Sample.comment .apply { environment := "staging" }] ++ Sample.steps 0 21 ++
  [Sample.comment .applyConfirm { environment := "production" }] ++ Sample.steps 1 17

/-- A push after the plans; nothing is planned again before the `apply` for production. -/
def staleRun : List Action :=
  plannedRun ++ [Sample.push "B", Sample.comment .apply { environment := "production", autoConfirm := true }] ++
    Sample.steps 1 33

end SchemaBot.Webhook
