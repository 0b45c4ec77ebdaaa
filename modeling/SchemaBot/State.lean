import Mathlib.Data.List.Perm.Basic

/-!
# Apply and task states, and the projection of children onto their parent

The state vocabulary of `pkg/state`.
-/

namespace SchemaBot

/-- `state.Apply`, which `state.ApplyOperation` repeats. -/
inductive ApplyState
  | pending | running | runningDegraded | paused | resuming
  | waitingForDeploy | waitingForCutover | recovering | recoveringCutover | cuttingOver
  | revertWindow | completed | failed | failedRetryable | stopped | cancelled | reverted
  | preparingBranch | applyingBranchChanges | validatingBranch | creatingDeployRequest
  | validatingDeployRequest
  deriving DecidableEq

/-- `state.Task`. -/
inductive TaskState
  | pending | running | checksumming | waitingForDeploy | waitingForCutover | recovering
  | cuttingOver | revertWindow | completed | failed | failedRetryable | stopped | reverted
  | cancelled
  deriving DecidableEq

namespace ApplyState

/-- `NormalizeState` on the stored constants: the retired spelling reads as `recovering`. -/
def normalize : ApplyState → ApplyState
  | .recoveringCutover => .recovering
  | s => s

def text : ApplyState → String
  | .pending => "pending"
  | .running => "running"
  | .runningDegraded => "running_degraded"
  | .paused => "paused"
  | .resuming => "resuming"
  | .waitingForDeploy => "waiting_for_deploy"
  | .waitingForCutover => "waiting_for_cutover"
  | .recovering => "recovering"
  | .recoveringCutover => "recovering_cutover"
  | .cuttingOver => "cutting_over"
  | .revertWindow => "revert_window"
  | .completed => "completed"
  | .failed => "failed"
  | .failedRetryable => "failed_retryable"
  | .stopped => "stopped"
  | .cancelled => "cancelled"
  | .reverted => "reverted"
  | .preparingBranch => "preparing_branch"
  | .applyingBranchChanges => "applying_branch_changes"
  | .validatingBranch => "validating_branch"
  | .creatingDeployRequest => "creating_deploy_request"
  | .validatingDeployRequest => "validating_deploy_request"

/-- `IsRunningApplyState`. -/
def isRunning : ApplyState → Bool
  | .running | .runningDegraded => true
  | _ => false

/-- `IsTerminalApplyState`. `failed_retryable` is not terminal, `stopped` is. -/
def isTerminal : ApplyState → Bool
  | .completed | .failed | .stopped | .cancelled | .reverted => true
  | _ => false

/-- `normalizeApplyState`, the reading of a child's state in `DeriveApplyState`. The states it does
not list, the resuming and branch set-up ones, count as pending. -/
def forDerivation : ApplyState → ApplyState
  | .recoveringCutover => .recovering
  | .resuming | .preparingBranch | .applyingBranchChanges | .creatingDeployRequest => .pending
  | s => s

end ApplyState

namespace TaskState

/-- `IsTerminalTaskState`: a stopped task may resume, so it is not terminal. -/
def isTerminal : TaskState → Bool
  | .completed | .failed | .reverted | .cancelled => true
  | _ => false

/-- `IsInFlightTaskState`: the engine is at work on the task. -/
def isInFlight : TaskState → Bool
  | .running | .checksumming | .waitingForCutover | .cuttingOver | .waitingForDeploy | .recovering => true
  | _ => false

/-- A task's state in the apply vocabulary, as `normalizeApplyState` reads it. -/
def toApply : TaskState → ApplyState
  | .pending => .pending
  | .running | .checksumming => .running
  | .waitingForDeploy => .waitingForDeploy
  | .waitingForCutover => .waitingForCutover
  | .recovering => .recovering
  | .cuttingOver => .cuttingOver
  | .revertWindow => .revertWindow
  | .completed => .completed
  | .failed => .failed
  | .failedRetryable => .failedRetryable
  | .stopped => .stopped
  | .reverted => .reverted
  | .cancelled => .cancelled

end TaskState

/-! ## The priority projection -/

section
open ApplyState

/-- `DeriveApplyState`: the states are counted after `forDerivation`, and the first matching rule of
the priority list gives the parent's state. -/
def deriveApplyState (states : List ApplyState) : ApplyState :=
  let norm := states.map forDerivation
  let count := fun s => norm.count s
  let total := states.length
  if states = [] then .pending
  else if 0 < count .failed then .failed
  else if 0 < count .failedRetryable then .failedRetryable
  else if 0 < count .cancelled then .cancelled
  else if 0 < count .stopped then .stopped
  else if 0 < count .reverted then .reverted
  else if count .completed = total then .completed
  else if 0 < count .recovering then .recovering
  else if 0 < count .cuttingOver then .cuttingOver
  else if count .waitingForCutover + count .completed = total ∧ 0 < count .waitingForCutover then
    .waitingForCutover
  else if count .waitingForDeploy + count .completed = total ∧ 0 < count .waitingForDeploy then
    .waitingForDeploy
  else if 0 < count .revertWindow then .revertWindow
  else if 0 < count .running then .running
  else .pending

/-- `RolloutChild`: an operation's state and how its policy treats its own failure. -/
structure RolloutChild where
  state : ApplyState
  continueOnFailure : Bool
  pauseOnFailure : Bool
  deriving DecidableEq

/-- `hasLaterNonTerminal`, on the children after the failed one. -/
def hasLaterNonTerminal (later : List RolloutChild) : Bool := later.any fun c => !c.state.isTerminal

inductive FailureClass
  | hardFail | pausedHold | settled
  deriving DecidableEq

/-- The switch on a failed child's policy flags in `DeriveRolloutApplyState`. Both flags set is a
caller's mistake and fails closed. -/
def classifyFailure (c : RolloutChild) (later : List RolloutChild) : FailureClass :=
  match c.continueOnFailure, c.pauseOnFailure with
  | true, true => .hardFail
  | true, false => .settled
  | false, true => if hasLaterNonTerminal later then .pausedHold else .settled
  | false, false => .hardFail

def failureClasses : List RolloutChild → List FailureClass
  | [] => []
  | c :: later =>
    if c.state = .failed then classifyFailure c later :: failureClasses later
    else failureClasses later

/-- `DeriveRolloutApplyState`: a base projection other than failed stands; a failed base is failed,
paused, or held `running_degraded` by the policies of the failed children. -/
def deriveRolloutApplyState (children : List RolloutChild) : ApplyState :=
  let base := deriveApplyState (children.map (·.state))
  if children = [] then .pending
  else if base ≠ .failed then base
  else if .hardFail ∈ failureClasses children then .failed
  else if .pausedHold ∈ failureClasses children then .paused
  else if children.all (·.state.isTerminal) then .failed
  else .runningDegraded

end

/-! ## What the projections can return -/

section
variable {states : List ApplyState} {s : ApplyState} {children : List RolloutChild}

theorem ApplyState.forDerivation_eq_iff {s t : ApplyState}
    (ht : t ∈ [ApplyState.failed, .failedRetryable, .cancelled, .stopped, .reverted, .completed]) :
    s.forDerivation = t ↔ s = t := by
  revert ht
  cases s <;> cases t <;> simp [forDerivation]

theorem count_forDerivation_pos : 0 < (states.map ApplyState.forDerivation).count s ↔
      ∃ x ∈ states, x.forDerivation = s := by
  rw [List.count_pos_iff, List.mem_map]

theorem count_terminal_pos
    (hs : s ∈ [ApplyState.failed, .failedRetryable, .cancelled, .stopped, .reverted, .completed]) :
    0 < (states.map ApplyState.forDerivation).count s ↔ s ∈ states := by
  rw [count_forDerivation_pos]
  simp only [ApplyState.forDerivation_eq_iff hs, exists_eq_right]

theorem count_completed_eq_length : (states.map ApplyState.forDerivation).count .completed = states.length ↔
      ∀ x ∈ states, x = .completed := by
  have h := List.count_eq_length (a := ApplyState.completed)
    (l := states.map ApplyState.forDerivation)
  rw [List.length_map] at h
  rw [h]
  simp only [List.mem_map, forall_exists_index, and_imp, forall_apply_eq_imp_iff₂]
  refine forall₂_congr fun x _ => ?_
  rw [eq_comm, ApplyState.forDerivation_eq_iff (by simp)]

theorem deriveApplyState_eq_failed : deriveApplyState states = .failed ↔ .failed ∈ states := by
  unfold deriveApplyState
  simp only [ite_eq_iff, reduceCtorEq, and_false, false_or, or_false, and_true,
    count_terminal_pos (s := .failed) (by simp)]
  exact ⟨fun h => h.2, fun h => ⟨List.ne_nil_of_mem h, h⟩⟩

/-- The projection is terminal exactly when some child is failed, or none is failed or retryable and
some child is cancelled, stopped or reverted, or every child is completed. -/
theorem deriveApplyState_isTerminal (hne : states ≠ []) : (deriveApplyState states).isTerminal = true ↔
      .failed ∈ states ∨
      (.failedRetryable ∉ states ∧
        (.cancelled ∈ states ∨ .stopped ∈ states ∨ .reverted ∈ states ∨
          ∀ x ∈ states, x = .completed)) := by
  unfold deriveApplyState
  simp only [apply_ite ApplyState.isTerminal]
  simp only [ApplyState.isTerminal, ite_eq_iff, reduceCtorEq, and_false, or_false, and_true, or_self,
    count_terminal_pos (s := .failed) (by simp),
    count_terminal_pos (s := .failedRetryable) (by simp),
    count_terminal_pos (s := .cancelled) (by simp), count_terminal_pos (s := .stopped) (by simp),
    count_terminal_pos (s := .reverted) (by simp), count_completed_eq_length]
  tauto

theorem deriveApplyState_eq_completed (h : deriveApplyState states = .completed) :
    ∀ x ∈ states, x = .completed := by
  unfold deriveApplyState at h
  simp only [ite_eq_iff, reduceCtorEq, and_false, false_or, or_false, and_true] at h
  exact count_completed_eq_length.1 h.2.2.2.2.2.2

theorem deriveApplyState_eq_pending (h : deriveApplyState states = .pending) :
    (states = [] ∨ ∃ x ∈ states, x ≠ .completed) ∧ ∀ x ∈ states, x.forDerivation ∉
      [.failed, .failedRetryable, .cancelled, .stopped, .reverted, .recovering, .cuttingOver,
        .revertWindow, .running] := by
  unfold deriveApplyState at h
  simp only [ite_eq_iff, reduceCtorEq, and_false, false_or, and_true, count_completed_eq_length,
    count_forDerivation_pos] at h
  simp only [List.mem_cons, List.not_mem_nil]
  grind

theorem deriveApplyState_perm {others : List ApplyState} (h : others.Perm states) :
    deriveApplyState others = deriveApplyState states := by
  have hnil : others = [] ↔ states = [] := by
    rw [← List.length_eq_zero_iff, h.length_eq, List.length_eq_zero_iff]
  simp only [deriveApplyState, (h.map _).count_eq, h.length_eq, hnil]

theorem failureClasses_of_noPause (h : ∀ c ∈ children, c.state = .failed → c.pauseOnFailure = false) :
    failureClasses children = (children.filter (·.state = .failed)).map fun c =>
      if c.continueOnFailure then .settled else .hardFail := by
  induction children with
  | nil => rfl
  | cons c later ih =>
    obtain ⟨hc, hlater⟩ := List.forall_mem_cons.1 h
    rw [failureClasses, ih hlater]
    split
    · rename_i hfailed
      rw [List.filter_cons_of_pos (by simpa using hfailed), List.map_cons, classifyFailure, hc hfailed]
      cases c.continueOnFailure <;> rfl
    · rename_i hfailed
      rw [List.filter_cons_of_neg (by simpa using hfailed)]

/-- Only a failed base is read again by the policies. -/
theorem deriveApplyState_of_rollout (h : deriveRolloutApplyState children = s)
    (hs : s ∉ [.failed, .paused, .runningDegraded]) : deriveApplyState (children.map (·.state)) = s := by
  unfold deriveRolloutApplyState at h
  split at h
  · subst children
    exact h
  · grind

/-- A rollout without pauses is over: some child has failed, and its policy ends the rollout or every child is
terminal; or none has failed and none is to be retried, and some child was ended or all are completed. -/
def RolloutOver (children : List RolloutChild) : Prop :=
  (∃ c ∈ children, c.state = .failed ∧
    (c.continueOnFailure = false ∨ ∀ c' ∈ children, c'.state.isTerminal = true)) ∨
  (∀ c ∈ children, c.state ≠ .failed ∧ c.state ≠ .failedRetryable) ∧
    ((∃ c ∈ children, c.state ∈ [.cancelled, .stopped, .reverted]) ∨ ∀ c ∈ children, c.state = .completed)

theorem deriveRolloutApplyState_isTerminal (hne : children ≠ [])
    (hpause : ∀ c ∈ children, c.pauseOnFailure = false) :
    (deriveRolloutApplyState children).isTerminal = true ↔ RolloutOver children := by
  have hclasses := failureClasses_of_noPause fun c hc _ => hpause c hc
  have hover := @deriveApplyState_isTerminal (children.map (·.state)) (by simpa using hne)
  have hfailed := @deriveApplyState_eq_failed (children.map (·.state))
  simp only [List.mem_map, forall_exists_index, and_imp] at hover hfailed
  unfold deriveRolloutApplyState RolloutOver
  simp only [hne, hclasses, List.mem_map, List.mem_filter, List.all_eq_true, decide_eq_true_eq, if_false,
    List.mem_cons, List.not_mem_nil, or_false]
  by_cases hf : ∃ c ∈ children, c.state = .failed
  · grind [ApplyState.isTerminal]
  · grind

/-- A rollout is completed only if its children are, and pending only if not all of them are and none has a state with
a rule of its own that does not ask for all. Failures that let the rollout go on fail it once every child is terminal;
until then it is degraded. Without pauses the order of the children does not matter. -/
theorem rollout_verdicts (children : List RolloutChild) :
    (deriveRolloutApplyState children = .completed → ∀ c ∈ children, c.state = .completed) ∧
    (deriveRolloutApplyState children = .pending →
      (children = [] ∨ ∃ c ∈ children, c.state ≠ .completed) ∧ ∀ c ∈ children, c.state.forDerivation ∉
        [.failed, .failedRetryable, .cancelled, .stopped, .reverted, .recovering, .cuttingOver,
          .revertWindow, .running]) ∧
    (deriveApplyState (children.map (·.state)) = .failed →
      (∀ c ∈ children, c.state = .failed → c.continueOnFailure = true ∧ c.pauseOnFailure = false) →
      deriveRolloutApplyState children =
        if ∀ c ∈ children, c.state.isTerminal = true then .failed else .runningDegraded) ∧
    ((∀ c ∈ children, c.pauseOnFailure = false) → ∀ others : List RolloutChild, others.Perm children →
      deriveRolloutApplyState others = deriveRolloutApplyState children) := by
  refine ⟨fun h c hc => ?_, fun h => ?_, fun h hcontinue => ?_, fun hpause others hperm => ?_⟩
  · exact deriveApplyState_eq_completed (deriveApplyState_of_rollout h (by decide)) _ (List.mem_map_of_mem hc)
  · simpa using deriveApplyState_eq_pending (deriveApplyState_of_rollout h (by decide))
  · have hclasses := failureClasses_of_noPause fun c hc hf => (hcontinue c hc hf).2
    have hne : children ≠ [] := by
      rintro rfl
      cases h
    simp only [deriveRolloutApplyState]
    grind
  · have hnil : others = [] ↔ children = [] := by
      rw [← List.length_eq_zero_iff, hperm.length_eq, List.length_eq_zero_iff]
    have hclasses (k : FailureClass) : k ∈ failureClasses others ↔ k ∈ failureClasses children := by
      rw [failureClasses_of_noPause fun c hc _ => hpause c (hperm.mem_iff.1 hc),
        failureClasses_of_noPause fun c hc _ => hpause c hc]
      exact ((hperm.filter _).map _).mem_iff
    simp only [deriveRolloutApplyState, deriveApplyState_perm (hperm.map _), hnil, hclasses, hperm.all_eq]

/-- A rollout whose first child has completed is pending while the next one waits. -/
theorem started_rollout_pending :
    deriveRolloutApplyState [⟨.completed, false, false⟩, ⟨.pending, false, false⟩] = .pending := by
  decide

end

end SchemaBot
