import SchemaBot.Operator.Rolling

/-!
# The handlers of stop and start requests

`executeStopForApply` and `executeStartForApply` (`pkg/api/control_handlers.go`), statement by statement.
-/

namespace SchemaBot

open Concurrent

/-! ## Requests and responses -/

/-- `encoding/json` on the metadata of a request, which is two counts. -/
structure MetadataCodec where
  marshal : ControlOperation → Nat → Nat → String
  unmarshal : ControlOperation → String → Except StoreError (Nat × Nat)

/-- `StopResponse` and `StartResponse`: `count` is the number of tasks that will be stopped, or
started. -/
structure ControlResponse where
  accepted : Bool := false
  errorMessage : String := ""
  count : Nat := 0
  skippedCount : Nat := 0
  deriving DecidableEq

/-- `ControlStatusAlreadyRequested` and `startResponseStatusQueued`; a stop that is new has no status. -/
inductive ResponseStatus
  | none | alreadyRequested | queued
  deriving DecidableEq

/-- `controlConflictf`. -/
def controlConflict (message : String) : StoreError := ⟨message, .controlConflict⟩

section
variable (codec : MetadataCodec)

/-- `decodeControlRequestMetadata`: no metadata reads as zero counts. -/
def decodeControlRequestMetadata (cr : ControlRequest) : Except StoreError (Nat × Nat) :=
  if cr.metadata = "" then .ok (0, 0) else codec.unmarshal cr.operation cr.metadata

/-- `stopResponseFromControlRequest` and `startResponseFromControlRequest`. -/
def responseFromControlRequest (cr : ControlRequest) : Except StoreError ControlResponse := do
  let (count, skippedCount) ← decodeControlRequestMetadata codec cr
  match cr.status with
  | .pending | .completed => .ok { accepted := true, count, skippedCount }
  | .failed => .ok { errorMessage := cr.errorMessage, count, skippedCount }

def pendingControlResponseIfPresent (applyId : Nat) (operation : ControlOperation) :
    StoreMethod (Option ControlResponse) := do
  let row ← Method.read fun s => s.getPending applyId operation
  match row with
  | none => pure none
  | some cr => do
    let resp ← Method.lift (responseFromControlRequest codec cr)
    pure (some resp)

/-- The part that `queueStopForApplyOwner` and `persistStartRequestForOperator` share: the request is
recorded, and a request that was pending answers for the new one. -/
def createControlRequest (applyId : Nat) (operation : ControlOperation) (caller : String)
    (count skippedCount : Nat) (fresh : ResponseStatus) : StoreMethod (ControlResponse × ResponseStatus) := do
  let (cr, alreadyPending) ← requestPending applyId operation caller
    (codec.marshal operation count skippedCount)
  if alreadyPending then do
    let resp ← Method.lift (responseFromControlRequest codec cr)
    pure (resp, .alreadyRequested)
  else pure ({ accepted := true, count, skippedCount }, fresh)

end

/-! ## Stop -/

def stopRequestCompletedByApplyState (st : ApplyState) : Bool :=
  st = .stopped || st = .cancelled || st.isTerminal

/-- `stopRequestCounts`: the tasks that are not terminal, and those that are. -/
def stopRequestCounts (tasks : List Task) : Nat × Nat :=
  (tasks.countP fun t => !t.state.isTerminal, tasks.countP fun t => t.state.isTerminal)

def queueStopForApplyOwner (codec : MetadataCodec) (apply : Apply) (caller : String) :
    StoreMethod (ControlResponse × ResponseStatus) := do
  match ← pendingControlResponseIfPresent codec apply.id .stop with
  | some resp => pure (resp, .alreadyRequested)
  | none =>
    if apply.state.isTerminal then
      throw (controlConflict
        ("schema change is already terminal (current state: " ++ apply.state.text ++ ")"))
    else do
      let tasks ← Method.read fun s => s.getByApplyID apply.id
      let counts := stopRequestCounts tasks
      if counts.1 = 0 ∧ counts.2 = 0 then
        throw (controlConflict ("no active schema change for apply " ++ apply.applyIdentifier))
      else createControlRequest codec apply.id .stop caller counts.1 counts.2 .none

def completeImmediateStopRequestIfStopped (applyId : Nat) : StoreMethod Bool := do
  match ← Method.read fun s => s.getApply applyId with
  | none => throw ⟨"load apply after immediate stop", .applyNotFound⟩
  | some stored =>
    if stopRequestCompletedByApplyState stored.state then do
      completePending {} applyId .stop
      pure true
    else pure false

/-- `tryImmediateStopAfterQueue`, where `stopAccepted` says that there is a client and that it accepted
the stop. Its errors are logged. -/
def tryImmediateStopAfterQueue (applyId : Nat) (stopAccepted : Bool) : StoreMethod Unit := do
  let ops ← Method.read fun s => s.listByApply applyId
  if 1 < ops.length then pure ()
  else if stopAccepted then discard (completeImmediateStopRequestIfStopped applyId)
  else pure ()

def executeStopForApply (codec : MetadataCodec) (apply : Apply) (caller : String)
    (stopAccepted : Bool) : StoreMethod ControlResponse := do
  let (resp, status) ← queueStopForApplyOwner codec apply caller
  if resp.accepted ∧ status ≠ .alreadyRequested then do
    Method.attempt (tryImmediateStopAfterQueue apply.id stopAccepted)
    pure resp
  else pure resp

/-! ## Start -/

abbrev RemoteProgress := Except StoreError (ApplyState × List TaskState)

def startNotAllowedForState (st : ApplyState) : StoreError :=
  controlConflict <| match st with
    | .pending => "schema change is pending and no start request is queued"
    | .running | .runningDegraded =>
      "schema change is still running; stop it before starting it again"
    | .waitingForCutover => "schema change is waiting for cutover; use cutover instead of start"
    | .cuttingOver => "schema change is cutting over; start is not allowed"
    | .revertWindow => "schema change is in revert window; use revert or skip-revert instead of start"
    | .failedRetryable => "schema change is waiting for operator retry; start is not allowed"
    | .failed => "schema change failed and cannot be started"
    | .completed => "schema change already completed and cannot be started"
    | .cancelled =>
      "schema change was cancelled and cannot be started; open a new schema change to apply it again"
    | .reverted => "schema change was reverted and cannot be started"
    | .preparingBranch | .applyingBranchChanges | .validatingBranch | .creatingDeployRequest
    | .validatingDeployRequest =>
      "schema change is in setup state " ++ st.text ++ "; start is not allowed"
    | _ => "schema change is not stopped (current state: " ++ st.text ++ ")"

def validateStartRequestState (apply : Apply) : Except StoreError Unit :=
  if apply.state ∉ [.waitingForDeploy, .pending, .running, .runningDegraded, .stopped] then
    .error (startNotAllowedForState apply.state)
  else if (apply.options.getD {}).deferDeploy ∧ apply.state ≠ .waitingForDeploy then
    .error (controlConflict
      ("schema change is not ready for deploy (current state: " ++ apply.state.text ++ ")"))
  else .ok ()

/-- `completeResolvedStopBeforeStart`, with the apply as the handler goes on with it. The decision is made
on the apply in memory, and the stop that is completed is the one that is pending by then. -/
def completeResolvedStopBeforeStart (remote : Option RemoteProgress) (apply : Apply) : StoreMethod Apply := do
  match ← Method.read fun s => s.getPending apply.id .stop with
  | none => pure apply
  | some _ =>
    if stopRequestCompletedByApplyState apply.state then do
      completePending {} apply.id .stop
      pure apply
    else match remote with
      | none => pure apply
      | some progress =>
        if apply.externalId = "" then pure apply
        else do
          let (remoteState, _) ← Method.lift progress
          if remoteState ≠ .stopped then pure apply
          else do
            let now ← Method.read (·.now)
            let apply := { apply with state := .stopped, completedAt := some now, updatedAt := now }
            update {} apply
            completePending {} apply.id .stop
            pure apply

def rejectControlIfStopPending (opName : String) (applyId : Nat) : StoreMethod Unit := do
  match ← Method.read fun s => s.getPending applyId .stop with
  | none => pure ()
  | some _ =>
    throw (controlConflict ("schema change has a pending stop request; " ++ opName ++
      " is blocked until stop is processed"))

def ensureStoredApplyStoppedForStartClaim (apply : Apply) : StoreMethod Unit :=
  if apply.state.isRunning then do
    let now ← Method.read (·.now)
    update {} { apply with state := .stopped, completedAt := none, updatedAt := now }
  else pure ()

def startRequestCounts (states : List TaskState) : Nat × Nat :=
  (states.countP (· = .stopped), states.countP (·.isTerminal))

def storedApplyMayHaveStoppedTasksForStart (st : ApplyState) : Bool := st = .stopped || st.isRunning

section
variable (codec : MetadataCodec) (apply : Apply) (caller : String)

def queueStoppedApplyForOperator : StoreMethod (ControlResponse × ResponseStatus) :=
  if !storedApplyMayHaveStoppedTasksForStart apply.state then
    throw (startNotAllowedForState apply.state)
  else do
    let tasks ← Method.read fun s => s.getByApplyID apply.id
    let (started, skipped) := startRequestCounts (tasks.map (·.state))
    if started = 0 then
      if apply.state = .stopped then
        throw (controlConflict ("no stopped tasks for apply " ++ apply.applyIdentifier))
      else throw (startNotAllowedForState apply.state)
    else do
      ensureStoredApplyStoppedForStartClaim apply
      createControlRequest codec apply.id .start caller started skipped .queued

def queueRemoteStoppedApplyForOperator (progress : RemoteProgress) :
    StoreMethod (ControlResponse × ResponseStatus) :=
  if !storedApplyMayHaveStoppedTasksForStart apply.state then
    throw (startNotAllowedForState apply.state)
  else do
    let (remoteState, tables) ← Method.lift progress
    if remoteState ≠ .stopped then
      throw (controlConflict ("schema change is not stopped (remote state: " ++ remoteState.text ++
        ", current state: " ++ apply.state.text ++ ")"))
    else do
      let (started, skipped) := startRequestCounts tables
      ensureStoredApplyStoppedForStartClaim apply
      createControlRequest codec apply.id .start caller (if started = 0 then 1 else started) skipped
        .queued

/-- The switch of `executeStartForApply` on the state of the apply. -/
def startByState (remote : Option RemoteProgress) : StoreMethod (ControlResponse × ResponseStatus) :=
  if apply.state = .waitingForDeploy then
    createControlRequest codec apply.id .start caller 1 0 .queued
  else if apply.state = .pending ∨ storedApplyMayHaveStoppedTasksForStart apply.state then do
    match ← pendingControlResponseIfPresent codec apply.id .start with
    | some resp => pure (resp, .alreadyRequested)
    | none =>
      if apply.state = .pending then throw (startNotAllowedForState apply.state)
      else match remote with
        | some progress =>
          if apply.externalId ≠ "" then queueRemoteStoppedApplyForOperator codec apply caller progress
          else queueStoppedApplyForOperator codec apply caller
        | none => queueStoppedApplyForOperator codec apply caller
  else throw (startNotAllowedForState apply.state)

def executeStartForApply (remote : Option RemoteProgress) : StoreMethod (ControlResponse × ResponseStatus) := do
  Method.lift (validateStartRequestState apply)
  let apply ← completeResolvedStopBeforeStart remote apply
  rejectControlIfStopPending "start" apply.id
  startByState codec apply caller remote

end

/-- `completePendingStopIfApplyResolved` (`pkg/api/operator.go`), the last step of a reconciliation. -/
def completePendingStopIfApplyResolved (ctx : Ctx) (applyId : Nat) : StoreMethod Unit := do
  match ← Method.read fun s => s.getApply applyId with
  | none => throw ⟨"reload apply before completing pending stop", .applyNotFound⟩
  | some apply =>
    if !apply.state.isTerminal then pure ()
    else match ← Method.read fun s => s.getPending apply.id .stop with
      | none => pure ()
      | some _ => completePending ctx apply.id .stop

/-! ## Which stops are accepted -/

section
variable {s : Store} {applyId : Nat} {operation : ControlOperation}

theorem Store.getPending_eq_none (h : s.hasPending applyId operation = false) :
    s.getPending applyId operation = none := by
  rw [getPending, List.find?_eq_none]
  exact fun cr hcr => List.any_eq_false.1 h cr hcr

theorem call_requestPending (requestedBy metadata : String) (h : s.hasPending applyId operation = false) :
    ∃ t cr, Method.call (requestPending applyId operation requestedBy metadata) s =
      (t, .ok (cr, false)) ∧ t.hasPending applyId operation = true := by
  rw [requestPending, Method.call_write]
  split
  · next cr hf =>
    have hkey := List.find?_some hf
    have hmem := List.mem_of_find?_eq_some hf
    have hst : cr.status ≠ .pending := by
      have := List.any_eq_false.1 h cr hmem
      simpa [hkey] using this
    rw [if_neg hst]
    refine ⟨_, _, rfl, List.any_eq_true.2 ⟨_, Table.mem_update.2 ⟨cr, hmem, rfl⟩, ?_⟩⟩
    simp [hkey]
  · refine ⟨_, _, rfl, List.any_eq_true.2 ⟨_, List.mem_append_right _ (.head _), ?_⟩⟩
    simp

theorem stopRequestCounts_eq_zero {tasks : List Task} :
    (stopRequestCounts tasks).1 = 0 ∧ (stopRequestCounts tasks).2 = 0 ↔ tasks = [] := by
  have h := List.length_eq_countP_add_countP (fun t : Task => t.state.isTerminal) (l := tasks)
  simp only [stopRequestCounts, Bool.not_eq_true, Bool.decide_eq_false] at h ⊢
  rw [← List.length_eq_zero_iff]
  omega

theorem Store.getByApplyID_ne_nil :
    s.getByApplyID applyId ≠ [] ↔ ∃ k ∈ s.tasks, k.applyId = applyId ∧ k.shard = "" := by
  simp [getByApplyID]

/-- A stop of an apply that is not terminal, with no stop pending, is accepted and recorded exactly when
the apply has a task that belongs to no shard. -/
theorem stop_accepted_iff (codec : MetadataCodec) (caller : String) {apply : Apply}
    (hterminal : apply.state.isTerminal = false) (hpending : s.hasPending apply.id .stop = false) :
    (∃ resp status t, Method.call (queueStopForApplyOwner codec apply caller) s =
        (t, .ok (resp, status)) ∧ resp.accepted = true ∧ t.hasPending apply.id .stop = true) ↔
      ∃ k ∈ s.tasks, k.applyId = apply.id ∧ k.shard = "" := by
  have hqueue : Method.call (queueStopForApplyOwner codec apply caller) s =
      if s.getByApplyID apply.id = [] then
        (s, .error (controlConflict ("no active schema change for apply " ++ apply.applyIdentifier)))
      else Method.call (createControlRequest codec apply.id .stop caller
        (stopRequestCounts (s.getByApplyID apply.id)).1
        (stopRequestCounts (s.getByApplyID apply.id)).2 .none) s := by
    have hnone : Method.call (pendingControlResponseIfPresent codec apply.id .stop) s = (s, .ok none) := by
      rw [pendingControlResponseIfPresent, Method.call_bind_ok (Method.call_read _ _),
        Store.getPending_eq_none hpending]
      rfl
    rw [queueStopForApplyOwner, Method.call_bind_ok hnone, if_neg (by rw [hterminal]; decide),
      Method.call_bind_ok (Method.call_read _ _)]
    by_cases hnil : s.getByApplyID apply.id = []
    · rw [if_pos hnil, if_pos (stopRequestCounts_eq_zero.2 hnil)]
      rfl
    · rw [if_neg hnil, if_neg (mt stopRequestCounts_eq_zero.1 hnil)]
  rw [hqueue, ← Store.getByApplyID_ne_nil]
  by_cases hnil : s.getByApplyID apply.id = []
  · simp [hnil]
  · rw [if_neg hnil]
    obtain ⟨t, cr, hreq, hrec⟩ := call_requestPending caller (codec.marshal .stop
      (stopRequestCounts (s.getByApplyID apply.id)).1
      (stopRequestCounts (s.getByApplyID apply.id)).2) hpending
    rw [createControlRequest, Method.call_bind_ok hreq]
    exact ⟨fun _ => hnil, fun _ => ⟨_, _, t, rfl, rfl, hrec⟩⟩

end

def sampleCodec : MetadataCodec :=
  { marshal := fun _ count skippedCount => toString count ++ "," ++ toString skippedCount
    unmarshal := fun _ _ => .ok (0, 0) }

/-- The stop of an apply with one task. -/
theorem stop_accepted_iff_table :
    ∃ resp status t, Method.call (queueStopForApplyOwner sampleCodec { sampleApply with id := 1 } "user")
        (({} : Store).after sampleCreate) = (t, .ok (resp, status)) ∧ resp.accepted = true ∧
      t.hasPending 1 .stop = true :=
  (stop_accepted_iff sampleCodec "user" (by decide) (by decide)).2 (by decide)

/-- A sharded apply whose operations are all pending: its stop is refused, since all its tasks are of a
shard. -/
theorem sharded_apply_refuses_stop :
    (({} : Store).after (.createWithGroupedOperations sampleApply (sampleGroups coveredPlan))).applies.map
        (fun a => (a.id, a.applyIdentifier, a.state)) = [(1, "apply-1", .pending)] ∧
      (({} : Store).after (.createWithGroupedOperations sampleApply
        (sampleGroups coveredPlan))).operations.map (fun o => (o.applyId, o.state)) =
        [(1, .pending), (1, .pending), (1, .pending), (1, .pending)] ∧
      (({} : Store).after (.createWithGroupedOperations sampleApply
        (sampleGroups coveredPlan))).hasPending 1 .stop = false ∧
      Method.call (queueStopForApplyOwner sampleCodec { sampleApply with id := 1 } "user")
          (({} : Store).after (.createWithGroupedOperations sampleApply (sampleGroups coveredPlan))) =
        (({} : Store).after (.createWithGroupedOperations sampleApply (sampleGroups coveredPlan)),
          .error (controlConflict "no active schema change for apply apply-1")) := by
  decide

end SchemaBot
