import SchemaBot.Lib.Reports
import SchemaBot.Operator.World

/-!
# Handing a claimed operation to its drive

`driveClaimedMultiOperation` of `pkg/api/operator.go`, from the claim of an operation of a rollout to the point
where its engine is asked.
-/

namespace SchemaBot

open Concurrent

/-! ## The start of a drive -/

def markOperationFromApplyState (ctx : Ctx) (op : ApplyOperation) (apply : Apply) : StoreMethod Bool :=
  persistOperationState ctx op.id apply.state apply.errorMessage

def reconcileClaimedOperationFromTerminalParent (ctx : Ctx) (op : ApplyOperation) (parent : Apply) :
    StoreMethod Unit := do
  let marked ← markOperationFromApplyState ctx op parent
  if marked then discard (updateApplyStateFromOperations ctx parent false) else pure ()

inductive Handoff
  | driven (apply : Apply)
  | reconciled
  | refused
  deriving DecidableEq

/-- `driveClaimedMultiOperation` once the parent is loaded, up to `resumeClaimedApplyWithOptions`. -/
def startDrive (op : ApplyOperation) : Option Apply → StoreMethod Handoff
  | none => pure .refused
  | some apply =>
    if apply.state.isTerminal then do
      reconcileClaimedOperationFromTerminalParent op.lease.ctx op apply
      pure .reconciled
    -- a row without a routing key
    else if op.deployment = "" then pure .refused
    else do
      let _ ← updateApplyStateFromOperations op.lease.ctx apply true
      pure (.driven apply)

/-- `driveClaimedMultiOperation`, up to `resumeClaimedApplyWithOptions`. -/
def driveClaimedMultiOperation (op : ApplyOperation) : StoreMethod Handoff := do
  let parent ← Method.read (·.getApply op.applyId)
  startDrive op parent

/-! ## The row of the claim -/

def Store.holdsResuming (s : Store) (op : ApplyOperation) : Bool :=
  s.operations.any fun r =>
    r.id = op.id && r.applyId = op.applyId && r.leaseToken = op.leaseToken && r.state = .resuming

def Store.Sparing (op : ApplyOperation) (s t : Store) : Prop := s.Other t ∧ t.holdsResuming op = true

section
variable {s t : Store} {row op : ApplyOperation} {owner : String} {locked : Nat → Bool}

theorem Store.holdsResuming_iff : s.holdsResuming op = true ↔ ∃ r ∈ s.operations, r.id = op.id ∧
    r.applyId = op.applyId ∧ r.leaseToken = op.leaseToken ∧ r.state = .resuming := by
  simp [holdsResuming, and_assoc]

theorem Store.moveClaim_some {allowed : Store → Bool} {assign : Store → ApplyOperation → ApplyOperation}
    (h : s.moveClaim row owner allowed assign = (t, some op)) :
    op = claimedOperation owner s row ∧ (∃ r ∈ s.operations, r.id = row.id ∧ r.state = row.state ∧
      allowed s = true) ∧
    t.operations = Table.update (fun r => r.id = row.id && r.state = row.state && allowed s)
      (fun r => assign s (leaseOperation owner s r)) s.operations := by
  unfold moveClaim at h
  dsimp only at h
  split at h
  · cases h
  · next hrows =>
    cases h
    obtain ⟨r, hr, hp⟩ := Table.exists_of_affected_ne_zero hrows
    exact ⟨rfl, ⟨r, hr, by simpa [and_assoc] using hp⟩, rfl⟩

theorem Store.state_of_persistOperationClaim (h : s.persistOperationClaim row owner = (t, some op)) :
    op.state = row.state := by
  unfold persistOperationClaim at h
  split at h
  · rw [(moveClaim_some h).1]; rfl
  · rw [(moveClaim_some h).1]; rfl
  · cases h; rfl
  · cases h; rfl

section
variable {s₁ : Store} (hs : s.WF)
  (h : Method.call (findNextApplyOperation owner locked) s = (s₁, .ok (some op)))
include hs h

theorem Store.holdsResuming_of_claim (hstopped : op.state = .stopped) : s₁.holdsResuming op = true := by
  rcases call_claimOperation (·.claimableOperation) (·.persistOperationClaim) locked owner
    "operator owner is required to claim apply_operation" s with ⟨-, hn⟩ | ⟨row, hrow, -, he⟩
  · exact absurd (congrArg Prod.snd h) (hn op)
  · have hpersist : s.persistOperationClaim row owner = (s₁, some op) := by
      obtain ⟨hstore, hres⟩ := Prod.mk.inj (he.symm.trans h)
      exact Prod.ext hstore (Except.ok.inj hres)
    have hst : row.state = .stopped := (state_of_persistOperationClaim hpersist).symm.trans hstopped
    simp only [persistOperationClaim, hst] at hpersist
    obtain ⟨rfl, ⟨r, hr, hid, hrst, -⟩, hops⟩ := moveClaim_some hpersist
    have heq : r = row := hs.operationIds.eq hr hrow hid
    subst heq
    rw [holdsResuming_iff, hops]
    refine ⟨_, Table.mem_update.2 ⟨r, hr, rfl⟩, ?_⟩
    simp [claimedOperation, leaseOperation]

theorem lease_valid_of_claim (happly : 0 < op.applyId) : op.lease.valid = true := by
  obtain ⟨row, hrow, -, hlease, -⟩ := result_claimOperation hs
    (fun op => s.claims_persistOperationClaim) (congrArg Prod.snd h)
  have hid : 0 < op.lease.operationId := by
    rw [hlease]
    exact hs.operationIds_pos row hrow
  have htoken : op.lease.token ≠ 0 := by
    rw [hlease]
    exact Nat.ne_of_gt hs.nextToken_pos
  have hpos : 0 < op.lease.applyId := happly
  simp [OperationLease.valid, hid, htoken, hpos]

theorem next_of_sparing (hothers : Relation.ReflTransGen (Store.Sparing op) s₁ t) : s.Next t := by
  have hclaimed := (Call.findNextApplyOperation owner locked).safe.next hs
  rw [Call.method, Method.call_discard, h] at hclaimed
  exact hclaimed.trans (Store.next_of_other hclaimed.wf
    (Relation.ReflTransGen.mono (fun _ _ hab => hab.1) _ _ hothers))

end

end

/-! ## A start that does not fail -/

section
variable {op : ApplyOperation} {apply : Apply}

theorem Store.listByApply_ne_nil {s : Store} (h : s.holdsResuming op = true) : s.listByApply op.applyId ≠ [] := by
  obtain ⟨r, hr, -, happly, -⟩ := holdsResuming_iff.1 h
  exact List.ne_nil_of_mem (mem_listByApply.2 ⟨hr, happly⟩)

theorem projectApply_ok {now : Nat} {ops : List ApplyOperation} {reopen : Bool} (hops : ops ≠ [])
    (hopen : apply.state.isTerminal = false) : ∃ p, projectApply now apply ops reopen = .ok p := by
  unfold projectApply
  rw [if_neg hops, if_neg (by simp [hopen])]
  split
  · exact ⟨_, rfl⟩
  · exact ⟨_, rfl⟩

theorem delivers_updateDerivedState (hvalid : op.lease.valid = true)
    (expected newState : ApplyState) (errorMessage : String) (startedAt completedAt : Option Nat) :
    Method.Delivers (fun s : Store => s.holdsResuming op = true) (fun _ => True)
      (updateDerivedState op.lease.ctx op.applyId expected newState errorMessage startedAt
        completedAt) := by
  have hguard : derivedStateGuardForContext op.lease.ctx op.applyId = .ok (.operation op.lease) := by
    have happly : op.lease.applyId = op.applyId := rfl
    simp [derivedStateGuardForContext, OperationLease.ctx, hvalid, happly]
  refine .bind (.lift (Q := fun guard => guard = .operation op.lease) hguard rfl) fun guard hg => ?_
  refine .bind (.write (Q := fun _ => True) fun s hs => ⟨hs, trivial⟩) fun rows _ => ?_
  split
  · exact .pure trivial
  · refine .bind (Q := fun _ => True) ?_ fun _ _ => ?_
    · rw [hg]
      -- the row that is held is what the check looks for
      refine .bind (.read (Q := fun owned => owned = true) fun s hs => ?_) fun owned hown => ?_
      · obtain ⟨r, hr, hid, happly, htok, -⟩ := Store.holdsResuming_iff.1 hs
        exact List.any_eq_true.2 ⟨r, hr, by simp [ApplyOperation.lease, hid, happly, htok]⟩
      · rw [if_pos hown]
        exact .pure trivial
    · split
      · exact .pure trivial
      · exact .read fun _ _ => trivial

theorem delivers_updateApplyStateFromOperations (hvalid : op.lease.valid = true)
    (hid : apply.id = op.applyId) (hopen : apply.state.isTerminal = false) (reopen : Bool) :
    Method.Delivers (fun s : Store => s.holdsResuming op = true) (fun _ => True)
      (updateApplyStateFromOperations op.lease.ctx apply reopen) := by
  unfold updateApplyStateFromOperations writeProjection
  rw [hid]
  refine .bind (.read (Q := (· ≠ [])) fun s hs => Store.listByApply_ne_nil hs) fun ops hops => ?_
  refine .bind (.read (Q := fun _ => True) fun _ _ => trivial) fun now _ => ?_
  have hproj : ∃ p, projectApply now apply ops reopen = .ok p := projectApply_ok hops hopen
  obtain ⟨projected, hp⟩ := hproj
  refine .bind (.lift (Q := fun _ => True) hp trivial) fun projected _ => ?_
  cases projected with
  | none => exact .pure trivial
  | some p => exact delivers_updateDerivedState hvalid ..

theorem delivers_startDrive (hvalid : op.lease.valid = true) (hid : apply.id = op.applyId)
    (hopen : apply.state.isTerminal = false) (hdep : op.deployment ≠ "") :
    Method.Delivers (fun s : Store => s.holdsResuming op = true) (· = .driven apply)
      (startDrive op (some apply)) := by
  simp only [startDrive, hopen, hdep]
  exact .bind (delivers_updateApplyStateFromOperations hvalid hid hopen true) fun _ _ => .pure rfl

end

def drivable (op : ApplyOperation) : Option Apply → Bool
  | none => false
  | some apply => !apply.state.isTerminal && op.deployment ≠ ""

theorem drivable_of_runs {op : ApplyOperation} {parent : Option Apply} {rely : Store → Store → Prop}
    {t t' : Store} {tr : List (Store × Store)} {apply : Apply}
    (h : Prog.Runs rely (startDrive op parent).run t tr (.ok (.driven apply)) t') : drivable op parent = true := by
  cases parent with
  | none => cases (Prog.runs_ret h).2
  | some a =>
    simp only [startDrive] at h
    split at h
    · -- the parent is terminal: whatever the reconciliation does, nothing is driven
      obtain ⟨r, u, tr₁, tr₂, -, hr, -⟩ := Prog.runs_bind h
      cases r with
      | ok _ | error _ => cases (Prog.runs_ret hr).2
    · next hopen =>
      split at h
      · cases (Prog.runs_ret h).2
      · next hdep => simp [drivable, hopen, hdep]

/-- From the claim of a stopped operation until its engine is asked, the row stays with its holder. The
operation is handed to its drive exactly when the parent was open when it was loaded and the operation
has a deployment. -/
theorem resumed_operation_driven_iff {s s₁ t t' : Store} {owner : String} {locked : Nat → Bool}
    {op : ApplyOperation} {tr : List (Store × Store)} {r : Except StoreError Handoff} (hs : s.Reachable)
    (hclaim : Method.call (findNextApplyOperation owner locked) s = (s₁, .ok (some op)))
    (hstopped : op.state = .stopped) (hothers : Relation.ReflTransGen (Store.Sparing op) s₁ t)
    (hrun : Prog.Runs (Store.Sparing op) (startDrive op (t.getApply op.applyId)).run t tr r t') :
    ((∃ apply, r = .ok (.driven apply)) ∧ t'.holdsResuming op = true) ↔
      drivable op (t.getApply op.applyId) = true := by
  have hwf := hs.wf
  have hheld : t.holdsResuming op = true := by
    cases hothers with
    | refl => exact Store.holdsResuming_of_claim hwf hclaim hstopped
    | tail _ hlast => exact hlast.2
  refine ⟨fun h => ?_, fun h => ?_⟩
  · obtain ⟨⟨apply, rfl⟩, -⟩ := h
    exact drivable_of_runs hrun
  · obtain ⟨apply, hget⟩ : ∃ apply, t.getApply op.applyId = some apply := by
      cases hget : t.getApply op.applyId with
      | none => rw [hget] at h; cases h
      | some apply => exact ⟨apply, rfl⟩
    rw [hget] at h hrun
    simp only [drivable, Bool.and_eq_true, Bool.not_eq_true', decide_eq_true_eq] at h
    obtain ⟨hmem, hid⟩ := Store.getApply_some hget
    have hvalid : op.lease.valid = true := by
      refine lease_valid_of_claim hwf hclaim ?_
      rw [← hid]
      exact (next_of_sparing hwf hclaim hothers).wf.applyIds_pos apply hmem
    obtain ⟨⟨_, rfl, rfl⟩, hend⟩ := (delivers_startDrive hvalid hid h.1 h.2).runs
      (fun _ _ _ hab => hab.2) hrun hheld
    exact ⟨⟨apply, rfl⟩, hend⟩

/-- The first operation of a rollout has been stopped, its apply says `parent`, and a start request is
pending. -/
def stoppedRollout (parent : ApplyState) : Store :=
  Transition.run Store.after {}
    [sampleRollout .rolling .halt, .findNextApplyOperation "operator-1" fun _ => false,
      .updateState { operationLease := some ⟨1, 1, 1⟩ } 1 .stopped,
      .updateDerivedState { operationLease := some ⟨1, 1, 1⟩ } 1 .pending parent "" (some 0) none,
      .requestPending 1 .start "user" ""]

def resumedOperation : ApplyOperation :=
  { id := 1, applyId := 1, deployment := "eu", cutoverPolicy := .rolling, onFailure := .halt
    state := .stopped, startedAt := some 0, leaseOwner := "operator-2", leaseToken := 2
    leaseAcquiredAt := some 0 }

def resumedStore (parent : ApplyState) : Store :=
  (Method.call (findNextApplyOperation "operator-2" fun _ => false) (stoppedRollout parent)).1

theorem claim_stoppedRollout {parent : ApplyState} (h : parent = .running ∨ parent = .stopped) :
    Method.call (findNextApplyOperation "operator-2" fun _ => false) (stoppedRollout parent) =
      (resumedStore parent, .ok (some resumedOperation)) := by
  refine Prod.ext rfl ?_
  rcases h with rfl | rfl <;> decide

/-- The parent was running: the operation goes to its drive. -/
theorem resumed_operation_driven_running :
    ∃ tr r t', Prog.Runs (Store.Sparing resumedOperation) (startDrive resumedOperation
        ((resumedStore .running).getApply 1)).run (resumedStore .running) tr r t' ∧
      (∃ apply, r = .ok (.driven apply)) ∧ t'.holdsResuming resumedOperation = true := by
  obtain ⟨tr, hrun⟩ := Prog.runs_exec (Store.Sparing resumedOperation)
    (startDrive resumedOperation ((resumedStore .running).getApply 1)).run (resumedStore .running)
  refine ⟨tr, _, _, hrun, ?_⟩
  exact (resumed_operation_driven_iff (Store.wf_empty.others_run _) (claim_stoppedRollout (.inl rfl))
    rfl .refl hrun).2 (by decide)

/-- The parent had been stopped with its operation. The claim says resuming, and the drive that should
follow writes stopped. -/
theorem resumed_operation_stopped_again :
    Method.call (findNextApplyOperation "operator-2" fun _ => false) (stoppedRollout .stopped) =
        (resumedStore .stopped, .ok (some resumedOperation)) ∧
      (stoppedRollout .stopped).hasSibling resumedOperation = true ∧
      (resumedStore .stopped).operations.map (·.state) = [.resuming, .pending] ∧
      (Method.call (driveClaimedMultiOperation resumedOperation) (resumedStore .stopped)).2 =
        .ok .reconciled ∧
      (Method.call (driveClaimedMultiOperation resumedOperation) (resumedStore .stopped)).1.operations.map
        (·.state) = [.stopped, .pending] :=
  ⟨claim_stoppedRollout (.inr rfl), by decide, by decide, by decide, by decide⟩

end SchemaBot
