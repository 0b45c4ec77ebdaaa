import SchemaBot.Webhook.Promotion

/-!
# The commands of a pull request

The handlers of `plan`, `apply`, `apply-confirm`, `rollback`, `rollback-confirm` and `unlock` (`pkg/webhook`), each
as the program of one delivery.
-/

namespace SchemaBot.Webhook

open Concurrent

/-! ## Plans and applies of the service -/

/-- `storePlanResponse`: the plan of a request, or why it cannot be stored. -/
def storePlanResponse (req : PlanRequest) (planned : Planned) : Handling (Except ServiceError PlanResponse) :=
  match protoChangesToNamespaces planned.response.changes [] with
  | .error e => pure (.error ⟨"convert plan namespaces: " ++ e, false⟩)
  | .ok namespaces => do
    let planId ← plansCreate
      { planIdentifier := "", database := req.database, databaseType := req.type
        deployment := planned.deployment, target := planned.target, repository := req.repository
        pullRequest := req.pullRequest, environment := req.environment, headSHA := req.headSHA
        content := { namespaces := namespaces, shards := planned.shards } }
    pure (.ok { planned.response with planId := planId })

def executePlan (req : PlanRequest) : Handling (Except ServiceError PlanResponse) := do
  match ← ask (·.plan req) with
  | .error e => pure (.error e)
  | .ok planned => storePlanResponse req planned

/-- `executePlanWithTransientRetry`: a transient error is tried once more. -/
def executePlanWithTransientRetry (req : PlanRequest) : Handling (Except ServiceError PlanResponse) := do
  match ← executePlan req with
  | .ok resp => pure (.ok resp)
  | .error e => if e.transient then executePlan req else pure (.error e)

def loadPlanForApply (planId environment : String) : Handling (Except String StoredPlan) := do
  match ← plansGet planId with
  | none => pure (.error ("plan not found: " ++ planId))
  | some plan =>
    if plan.environment ≠ environment then
      pure (.error ("plan " ++ planId ++ " was created for environment " ++ plan.environment ++ ", not " ++
        environment))
    else if plan.deployment = "" then
      pure (.error ("plan " ++ planId ++ " is missing server-side routing metadata field deployment; create a new plan and retry apply"))
    else if plan.target = "" then
      pure (.error ("plan " ++ planId ++ " is missing server-side routing metadata field target; create a new plan and retry apply"))
    else pure (.ok plan)

/-- `ExecuteApply`. -/
def serviceExecuteApply (handling : Handle) (origin : Origin) (planId environment : String) (rollback : Bool) :
    Handling (Except String PRApply) := do
  match ← loadPlanForApply planId environment with
  | .error e => pure (.error e)
  | .ok plan =>
    match ← ask (·.queue plan) with
    | .error e => pure (.error e)
    | .ok _ => do
      -- the row takes the lock that there is, whoever holds it
      let lock ← locksGet plan.database plan.databaseType
      let apply ← appliesCreate handling origin plan (lock.elim 0 (·.id)) rollback
      pure (.ok apply)

/-- `ExecuteRollbackPlanForApply`, with the files that it reads of the source plan. -/
def executeRollbackPlanForApply (apply : PRApply) (schemaFiles : List (String × String)) :
    Handling (Except ServiceError PlanResponse) :=
  executePlan
    { database := apply.database, environment := apply.environment, type := apply.databaseType
      schemaFiles := schemaFiles, repository := apply.repository, pullRequest := apply.pullRequest }

section
variable (cfg : ServerConfig) (handling : Handle) (repo : String) (pr : Nat)

/-! ## Discovery -/

def attachServerEnvironments (schema : SchemaRequest) (environment : String) : Except String SchemaRequest :=
  match cfg.databaseEnvironments schema.database with
  | .error e => .error ("resolve configured environments for database " ++ schema.database ++ ": " ++ e)
  | .ok environments =>
    if environment ≠ "" ∧ environment ∉ environments then
      .error ("database " ++ schema.database ++ " environment " ++ environment ++
        " is not configured on this server")
    else .ok { schema with environments := environments }

/-- `createManagedSchemaRequestFromPR` and `attachServerEnvironments`, at the cached head commit. -/
def schemaRequestFromPR (headSHA environment databaseName : String) : Handling (Except String SchemaRequest) := do
  match ← ask (·.discover repo pr headSHA environment databaseName) with
  | .error e => pure (.error e)
  | .ok schema => pure (attachServerEnvironments cfg { schema with headSHA := headSHA } environment)

def commandSchema (cached : Option String) (action : CommandAction) (environment databaseName : String) :
    Handling SchemaRequest := do
  match ← ask (·.noManagedSchemaChanges action repo pr) with
  | .error e => throw (.commandError action environment e)
  | .ok true => throw (.reconciliationRequired action)
  | .ok false =>
    match ← fetchPullRequest cached repo pr with
    | .error e => throw (.schemaRequestError action environment e)
    | .ok headSHA =>
      match ← schemaRequestFromPR cfg repo pr headSHA environment databaseName with
      | .error e => throw (.schemaRequestError action environment e)
      | .ok schema => pure schema

def SchemaRequest.planRequest (schema : SchemaRequest) (environment : String) : PlanRequest :=
  { database := schema.database, environment := environment, type := schema.type
    schemaFiles := schema.schemaFiles, schemaPath := schema.schemaPath, repository := repo
    pullRequest := pr, headSHA := schema.headSHA }

def SchemaRequest.gateRequest (schema : SchemaRequest) : GateRequest :=
  { repository := repo, pullRequest := pr, database := schema.database, databaseType := schema.type
    headSHA := schema.headSHA }

/-- `enforcePRCommandActorAuthorization`. -/
def enforceActorAuthorization (action : CommandAction) (requestedBy database : String) : Handling Unit := do
  if ← ask (·.authorized action repo pr requestedBy database) then pure ()
  else throw (.unauthorized action database)

def enforceReviewGate (action : CommandAction) (schema : SchemaRequest) (environment : String) : Handling Unit := do
  if ← ask (·.reviewed action repo pr schema) then pure ()
  else throw (.reviewRequired schema.database environment)

def enforcePassingChecks (headSHA environment : String) : Handling Unit := do
  if ← ask (·.checksPass repo pr headSHA environment) then pure ()
  else throw (.checksNotPassing environment)

/-! ## Plan -/

def planEnvironment (schema : SchemaRequest) (environment : String) (isAutoPlan : Bool) :
    Handling (Except String String) := do
  match ← executePlan (schema.planRequest repo pr environment) with
  | .error e => pure (.error e.message)
  | .ok planResp =>
    let headSHA ←
      if isAutoPlan then storePlanCheckRecord (some schema.headSHA) repo pr schema planResp environment
      else storeManualPlanCheckRecord (some schema.headSHA) repo pr schema planResp environment
    pure (.ok headSHA)

def handlePlanCommand (result : CommandResult) : Handling Unit := do
  match ← reconcileStaleChecks cfg none repo pr with
  | .error e => throw (.commandError .plan result.environment ("Failed to reconcile stale status checks: " ++ e))
  | .ok cached =>
    let schema ← commandSchema cfg repo pr cached .plan result.environment result.database
    match ← fetchPullRequestNoCache repo pr with
    | .error e => throw (.commandError .plan result.environment ("Failed to verify PR HEAD: " ++ e))
    | .ok fresh =>
      if schema.headSHA ≠ fresh then throw (.schemaStale .plan result.environment)
      else
        match ← planEnvironment repo pr schema result.environment false with
        | .error e =>
          postFailingAggregates cfg (some schema.headSHA) repo pr schema.headSHA [(result.environment, e)]
          throw (.commandError .plan result.environment e)
        | .ok headSHA =>
          if headSHA ≠ "" then updateAggregateCheck cfg (some schema.headSHA) repo pr headSHA

def assertSchemaStillCurrent (schema : SchemaRequest) (environment : String) : Handling Unit := do
  match ← fetchPullRequestNoCache repo pr with
  | .error e => throw (.commandError .plan "" ("Failed to verify PR HEAD: " ++ e))
  | .ok fresh => if schema.headSHA ≠ fresh then throw (.schemaStale .plan environment)

/-- The loop of `handleMultiEnvPlan` over the environments: the last head commit that was recorded, and the
errors. -/
def planEnvironments (cachedHead databaseName : String) (isAutoPlan : Bool) :
    List String → Bool → String → List (String × String) → Handling (String × List (String × String))
  | [], _, headSHA, errors => pure (headSHA, errors)
  | environment :: rest, checked, headSHA, errors => do
    match ← schemaRequestFromPR cfg repo pr cachedHead environment databaseName with
    | .error e =>
      planEnvironments cachedHead databaseName isAutoPlan rest checked headSHA (errors ++ [(environment, e)])
    | .ok schema =>
      -- the first schema request of a plan that a user asked for is checked against the current head
      if !checked && !isAutoPlan then assertSchemaStillCurrent repo pr schema environment
      match ← planEnvironment repo pr schema environment isAutoPlan with
      | .error e =>
        planEnvironments cachedHead databaseName isAutoPlan rest true headSHA (errors ++ [(environment, e)])
      | .ok sha =>
        planEnvironments cachedHead databaseName isAutoPlan rest true (if sha ≠ "" then sha else headSHA)
          errors

def noAllowedConfiguredEnvironmentsBlock : String × String :=
  ("no_allowed_configured_environments",
    "SchemaBot found schema changes, but no configured environment for this database is allowed for this SchemaBot deployment. Align server environment configuration with allowed_environments, then retry the check.")

def aggregateMessagesForAllEnvironments (message : String) : List (String × String) :=
  if cfg.allowedEnvironments.isEmpty then [(aggregateSentinel, message)]
  else cfg.allowedEnvironments.map fun environment => (environment, message)

/-- `handleMultiEnvPlan`, for the automatic plan of a push and for `plan` without an environment. -/
def handleMultiEnvPlan (databaseName : String) (isAutoPlan : Bool) : Handling Unit := do
  match ← reconcileStaleChecks cfg none repo pr with
  | .error e => throw (.commandError .plan "" ("Failed to reconcile stale status checks: " ++ e))
  | .ok cached =>
    match ← fetchPullRequest cached repo pr with
    | .error e => throw (.schemaRequestError .plan "" e)
    | .ok cachedHead =>
      match ← ask (·.findConfig repo pr cachedHead databaseName) with
      | .error e => throw (.schemaRequestError .plan "" e)
      | .ok database =>
        match cfg.databaseEnvironments database with
        | .error e =>
          if isAutoPlan then
            postFailingAggregates cfg (some cachedHead) repo pr cachedHead
              (aggregateMessagesForAllEnvironments cfg e)
          throw (.schemaRequestError .plan "" e)
        | .ok environments =>
          let environments := environments.filter cfg.isEnvironmentAllowed
          if environments.isEmpty then
            postFailingAggregatesWithBlock cfg (some cachedHead) repo pr cachedHead
              (aggregateMessagesForAllEnvironments cfg noAllowedConfiguredEnvironmentsBlock.2)
              noAllowedConfiguredEnvironmentsBlock.1
          else
            let (headSHA, errors) ←
              planEnvironments cfg repo pr cachedHead databaseName isAutoPlan environments false "" []
            if headSHA ≠ "" then updateAggregateCheck cfg (some cachedHead) repo pr headSHA
            else if errors ≠ [] then postFailingAggregates cfg (some cachedHead) repo pr cachedHead errors

/-! ## Apply -/

/-- `storedSet`: how often each statement is stored. -/
def storedSet (storedDDL : List String) : String → Nat :=
  storedDDL.foldl (fun set ddl => Function.update set ddl (set ddl + 1)) fun _ => 0

/-- The second loop of `ddlMatchesStoredPlan`, which takes the new statements out of the stored ones. -/
def takeStatements : List String → (String → Nat) → Bool
  | [], _ => true
  | ddl :: rest, set =>
    if set ddl = 0 then false else takeStatements rest (Function.update set ddl (set ddl - 1))

def ddlMatchesStoredPlan (planResp : PlanResponse) (stored : StoredPlan) : Bool :=
  let newDDL := planResp.flatTables.map (·.ddl)
  let storedDDL := stored.content.flatDDLChanges.map (·.ddl)
  if newDDL.length ≠ storedDDL.length then false else takeStatements newDDL (storedSet storedDDL)

def releaseAndReply {α : Type} (database dbType : String) (reply : Reply) : Handling α := do
  discard <| locksRelease database dbType (lockOwner repo pr)
  throw reply

section
variable (origin : Origin) (schema : SchemaRequest) (environment : String) (result : CommandResult) (storedPlan : Option StoredPlan)

/-- The rest of `executeApply`, with the new plan. -/
def executeReplanned (planResp : PlanResponse) : Handling Unit := do
  leaveEntry (.replanned handling planResp)
  if planResp.flatTables.isEmpty then
    releaseAndReply repo pr schema.database schema.type (.applyConfirmNoChanges schema.database environment)
  else if storedPlan.any (!ddlMatchesStoredPlan planResp ·) then
    throw (.planComment environment "Schema changes differ from auto-plan — review and confirm manually")
  else if planResp.unsafeChanges ≠ [] ∧ !result.allowUnsafe then throw (.unsafeChangesBlocked environment)
  else
    match ← serviceExecuteApply handling origin planResp.planId environment false with
    | .error e => throw (.commandError .apply environment ("Failed to execute apply: " ++ e))
    | .ok apply =>
      match ← updateCheckRecordForApplyStart cfg (some schema.headSHA) repo pr handling schema environment
          apply.id with
      | none => pure ()
      | some e =>
        throw (.commandError .apply environment
          ("Apply was accepted, but SchemaBot could not update the required status check: " ++ e))

/-- `executeApply`: plan again, and queue what was planned. -/
def executeApply : Handling Unit := do
  match ← executePlanWithTransientRetry (schema.planRequest repo pr environment) with
  | .error e => throw (.commandError .apply environment e.message)
  | .ok planResp => executeReplanned cfg handling repo pr origin schema environment result storedPlan planResp

section
variable (schema : SchemaRequest)

end

/-- What `apply` does with a lock it finds: another owner's blocks it, as does an apply of the pull request
that still runs; its own is released, to be taken again with the new plan. -/
def yieldLock (environment : String) : Handling Unit := do
  match ← locksGet schema.database schema.type with
  | none => pure ()
  | some existing =>
    if existing.owner ≠ lockOwner repo pr then
      throw (.applyBlockedByOtherPR schema.database environment existing.owner)
    else do
      let applies ← appliesGetByPR repo pr
      match applies.find? fun a => a.database = schema.database && !a.state.isTerminal with
      | some a => throw (.applyInProgress schema.database environment a.applyIdentifier)
      | none => discard <| locksRelease schema.database schema.type (lockOwner repo pr)

def recordApplyPlan (planResp : PlanResponse) (environment : String) : Handling Unit := do
  let headSHA ← storePlanCheckRecord (some schema.headSHA) repo pr schema planResp environment
  if headSHA ≠ "" then updateAggregateCheck cfg (some schema.headSHA) repo pr headSHA

def verifyHeadOrRelease (environment failure : String) : Handling String := do
  match ← fetchPullRequestNoCache repo pr with
  | .error e =>
    releaseAndReply repo pr schema.database schema.type (.commandError .apply environment (failure ++ e))
  | .ok fresh =>
    if schema.headSHA ≠ fresh then
      releaseAndReply repo pr schema.database schema.type (.schemaStale .apply environment)
    else pure fresh

/-- The rest of `apply -y`, with the lock taken. -/
def autoConfirmApply (planResp : PlanResponse) (environment : String) (result : CommandResult) : Handling Unit := do
  let fresh ← verifyHeadOrRelease repo pr schema environment
    "Failed to verify PR HEAD before auto-confirm: "
  if !(← ask (·.checksPass repo pr fresh environment)) then
    releaseAndReply repo pr schema.database schema.type (.checksNotPassing environment)
  else
    match ← plansGet planResp.planId with
    | none => do
      recordApplyPlan cfg repo pr schema planResp environment
      throw (.planComment environment "Could not verify plan — confirm manually")
    | some stored => do
      recordApplyPlan cfg repo pr schema planResp environment
      executeApply cfg handling repo pr .apply schema environment result (some stored)

def applyLock (planId : String) : Lock :=
  { databaseName := schema.database, databaseType := schema.type, owner := lockOwner repo pr
    repository := repo, pullRequest := pr, pendingPlanId := planId }

def reconcileForApply (environment : String) : Handling Unit := do
  match ← reconcileStaleChecks cfg (some schema.headSHA) repo pr with
  | .error e => throw (.commandError .apply environment ("Failed to reconcile stale status checks: " ++ e))
  | .ok _ => pure ()

/-- The rest of `handleApplyCommand`, with the plan. -/
def applyPlanned (environment : String) (result : CommandResult) (planResp : PlanResponse) : Handling Unit := do
  if planResp.flatTables.isEmpty then throw (.planComment environment "")
  else if planResp.unsafeChanges ≠ [] ∧ !result.allowUnsafe then throw (.unsafeChangesBlocked environment)
  else
    match ← locksAcquire (applyLock repo pr schema planResp.planId) with
    | .error _ => throw (.commandError .apply environment "Failed to acquire lock")
    | .ok _ => do
      leaveEntry (.held handling (applyLock repo pr schema planResp.planId))
      if result.autoConfirm then autoConfirmApply cfg handling repo pr schema planResp environment result
      else do
        discard <| verifyHeadOrRelease repo pr schema environment
          "Failed to verify PR HEAD before posting plan: "
        recordApplyPlan cfg repo pr schema planResp environment

end

section
variable (result : CommandResult) (apply : PRApply) (force : Bool) (lock : Lock)

def handleApplyCommand : Handling Unit := do
  let environment := result.environment
  let schema ← commandSchema cfg repo pr none .apply environment result.database
  enforceActorAuthorization repo pr .apply result.requestedBy schema.database
  reconcileForApply cfg repo pr schema environment
  enforceReviewGate repo pr .apply schema environment
  enforcePassingChecks repo pr schema.headSHA environment
  checkPriorEnvironments cfg handling (schema.gateRequest repo pr) environment (some schema.headSHA)
    schema.environments
  yieldLock repo pr schema environment
  match ← executePlanWithTransientRetry (schema.planRequest repo pr environment) with
  | .error e => throw (.commandError .apply environment e.message)
  | .ok planResp => applyPlanned cfg handling repo pr schema environment result planResp

/-! ## Confirmation -/

def rollbackPendingPlanPrefix : String := "rollback:"

/-- `strings.HasPrefix` of a pending plan. -/
def isRollbackPending (pendingPlanId : String) : Bool :=
  rollbackPendingPlanPrefix.toList.isPrefixOf pendingPlanId.toList

def confirmationPlanForLock : Handling (Option StoredPlan) :=
  if lock.pendingPlanId = "" then pure none else plansGet lock.pendingPlanId

/-- `assertPlanStillCurrent`: a plan without a commit, or no plan at all, is let pass. -/
def planStillCurrent (plan : Option StoredPlan) (freshHeadSHA : String) : Bool :=
  plan.all fun p => p.headSHA = "" || p.headSHA = freshHeadSHA

/-- The lock that `apply-confirm` needs: the pull request's own, not that of a rollback. -/
def confirmLock (schema : SchemaRequest) (environment : String) : Handling Lock := do
  match ← locksGet schema.database schema.type with
  | none => throw (.applyConfirmNoLock schema.database environment)
  | some existing =>
    if existing.owner ≠ lockOwner repo pr then
      throw (.applyBlockedByOtherPR schema.database environment existing.owner)
    else if isRollbackPending existing.pendingPlanId then
      throw (.commandError .applyConfirm environment
        "This lock belongs to a rollback plan. Use `schemabot rollback-confirm` to execute it, or `schemabot unlock` to cancel it.")
    else pure existing

def handleApplyConfirmCommand : Handling Unit := do
  let environment := result.environment
  let schema ← commandSchema cfg repo pr none .applyConfirm environment result.database
  enforceActorAuthorization repo pr .applyConfirm result.requestedBy schema.database
  enforceReviewGate repo pr .applyConfirm schema environment
  match ← fetchPullRequestNoCache repo pr with
  | .error e => throw (.commandError .applyConfirm environment ("Failed to fetch PR info: " ++ e))
  | .ok fresh =>
    if schema.headSHA ≠ fresh then
      releaseAndReply repo pr schema.database schema.type (.schemaStale .applyConfirm environment)
    else do
      enforcePassingChecks repo pr fresh environment
      let lock ← confirmLock repo pr schema environment
      leaveEntry (.held handling lock)
      let pending ← confirmationPlanForLock lock
      leaveEntry (.confirming handling environment lock pending)
      if planStillCurrent pending fresh then
        executeApply cfg handling repo pr (.applyConfirm lock pending) schema environment result none
      else releaseAndReply repo pr schema.database schema.type (.planStale environment)

/-! ## Rollback -/

def rollbackPendingPlanID (planId : String) : String :=
  if planId = "" then "" else rollbackPendingPlanPrefix ++ planId

def rollbackPlanIDFromLock : Option String :=
  if isRollbackPending lock.pendingPlanId then
    let planId := String.ofList (lock.pendingPlanId.toList.drop rollbackPendingPlanPrefix.toList.length)
    if planId = "" then none else some planId
  else none

/-- `rollbackPlanResponseHasChanges`. -/
def PlanResponse.rollbackHasChanges (r : PlanResponse) : Bool :=
  r.changes.any fun sc => !sc.tableChanges.isEmpty || sc.vschemaDiff ≠ "" || sc.vschemaChanged

def StoredPlan.hasChanges (p : StoredPlan) : Bool :=
  !p.content.flatDDLChanges.isEmpty || p.content.namespaces.any (·.2.vschema ≠ "")

/-- `releaseRollbackLockAfterRejectedPlan`, and the reply. -/
def rejectRollback {α : Type} (apply : PRApply) (acquired : Bool) (reply : Reply) : Handling α :=
  if acquired then releaseAndReply repo pr apply.database apply.databaseType reply else throw reply

def rollbackLock (pendingPlanId : String) : Lock :=
  { databaseName := apply.database, databaseType := apply.databaseType, owner := lockOwner repo pr
    repository := repo, pullRequest := pr, pendingPlanId := pendingPlanId }

def takeRollbackLock : Handling Bool := do
  match ← locksGet apply.database apply.databaseType with
  | some existing =>
    if existing.owner ≠ lockOwner repo pr then
      throw (.rollbackBlockedByLock apply.database apply.environment existing.owner)
    else pure false
  | none =>
    match ← locksAcquire (rollbackLock repo pr apply "") with
    | .error _ => throw (.commandError .rollback apply.environment "Failed to acquire lock")
    | .ok _ => pure true

/-- The end of `handleRollbackCommand`: the plan is pinned on the lock. -/
def pinRollbackPlan (acquired : Bool) (planId : String) : Handling Unit := do
  leaveEntry (.pinned planId apply.database apply.databaseType apply.environment)
  match ← locksAcquire (rollbackLock repo pr apply (rollbackPendingPlanID planId)) with
  | .error _ =>
    rejectRollback repo pr apply acquired
      (.commandError .rollback apply.environment "Failed to pin rollback plan on lock")
  | .ok _ => pure ()

/-- The rest of `handleRollbackCommand`, for the apply that is rolled back. -/
def rollbackApply : Handling Unit := do
  enforceActorAuthorization repo pr .rollback result.requestedBy apply.database
  match ← ask (·.rollbackSource apply result.environment repo pr) with
  | .error e => throw (.rollbackRejected result.applyId e)
  | .ok _ =>
    let acquired ← takeRollbackLock repo pr apply
    match ← ask (·.rollbackSource apply result.environment repo pr) with
    | .error e => rejectRollback repo pr apply acquired (.rollbackRejected result.applyId e)
    | .ok schemaFiles =>
      match ← executeRollbackPlanForApply apply schemaFiles with
      | .error e =>
        rejectRollback repo pr apply acquired (.commandError .rollback apply.environment e.message)
      | .ok planResp =>
        if !planResp.rollbackHasChanges then
          rejectRollback repo pr apply acquired
            (.rollbackNothingToDo apply.database apply.environment result.applyId)
        else pinRollbackPlan repo pr apply acquired planResp.planId

def handleRollbackCommand : Handling Unit := do
  if result.applyId = "" then throw .rollbackMissingApplyId
  else
    match ← appliesGetByIdentifier result.applyId with
    | none => throw (.rollbackApplyNotFound result.applyId)
    | some apply =>
      if !cfg.isEnvironmentAllowed apply.environment then throw .ignored
      else rollbackApply repo pr result apply

/-- `rollbackPlanCommandMismatch`. -/
def rollbackPlanMatches (plan : StoredPlan) (lock : Lock) : Bool :=
  plan.repository = repo && plan.pullRequest = pr && plan.database = lock.databaseName &&
    plan.databaseType = lock.databaseType

/-- The loop of `rollbackConfirmPlanForPR` over the locks of the pull request. -/
def rollbackConfirmPlan (environment : String) :
    List Lock → Option (Lock × StoredPlan) → Handling (Except String (Option (Lock × StoredPlan)))
  | [], matched => pure (.ok matched)
  | lock :: rest, matched =>
    if !isRollbackPending lock.pendingPlanId then rollbackConfirmPlan environment rest matched
    else if lock.owner ≠ lockOwner repo pr then
      pure (.error ("rollback lock for " ++ lock.databaseName ++ "/" ++ lock.databaseType ++ " belongs to " ++
        lock.owner ++ ", not " ++ lockOwner repo pr))
    else
      match rollbackPlanIDFromLock lock with
      | none => rollbackConfirmPlan environment rest matched
      | some planId => do
        match ← plansGet planId with
        | none => pure (.error ("rollback plan not found: " ++ planId))
        | some plan =>
          if plan.environment ≠ environment then rollbackConfirmPlan environment rest matched
          else if !rollbackPlanMatches repo pr plan lock then
            pure (.error ("rollback lock " ++ lock.databaseName ++ "/" ++ lock.databaseType ++
              " has mismatched pinned plan"))
          else if matched.isSome then
            pure (.error ("multiple rollback plans are pending for environment " ++ environment))
          else rollbackConfirmPlan environment rest (some (lock, plan))

/-- The rest of `handleRollbackConfirmCommand`, for the plan that its lock has pinned. -/
def executeRollback (plan : StoredPlan) : Handling Unit := do
  let environment := result.environment
  enforceActorAuthorization repo pr .rollbackConfirm result.requestedBy plan.database
  if !plan.hasChanges then
    match ← locksRelease plan.database plan.databaseType (lockOwner repo pr) with
    | .error _ => throw (.rollbackAlreadyRolledBack plan.database environment true)
    | .ok _ => throw (.rollbackAlreadyRolledBack plan.database environment false)
  else
    match ← serviceExecuteApply handling .rollbackConfirm plan.planIdentifier environment true with
    | .error e => throw (.commandError .rollbackConfirm environment ("Failed to execute rollback: " ++ e))
    | .ok apply =>
      match ← updateCheckRecordForApplyStart cfg none repo pr handling
          { database := plan.database, type := plan.databaseType, headSHA := "" } environment apply.id with
      | none => pure ()
      | some e =>
        throw (.commandError .rollbackConfirm environment
          ("Rollback was accepted, but SchemaBot could not update the required status check: " ++ e))

def handleRollbackConfirmCommand : Handling Unit := do
  let locks ← locksGetByPR repo pr
  match ← rollbackConfirmPlan repo pr result.environment locks none with
  | .error e => throw (.commandError .rollbackConfirm result.environment e)
  | .ok none => throw (.rollbackConfirmNoLock result.environment)
  | .ok (some (lock, plan)) => do
    leaveEntry (.held handling lock)
    leaveEntry (.takenUp handling plan)
    executeRollback cfg handling repo pr result plan

/-! ## Unlock -/

def locksForUnlock (database : String) : Handling (Except String (List Lock)) := do
  if force then
    let locks ← locksList
    let ofDatabase := locks.filter (·.databaseName = database)
    if ofDatabase.any fun l => l.pullRequest ≠ 0 && (l.repository ≠ repo || l.pullRequest ≠ pr) then
      pure (.error ("lock for " ++ database ++ " is held by another pull request"))
    else pure (.ok ofDatabase)
  else
    let locks ← locksGetByPR repo pr
    pure (.ok (if database = "" then locks else locks.filter (·.databaseName = database)))

def noActiveApply : Handling Unit := do
  let applies ← appliesGetByDatabase lock.databaseName lock.databaseType
  match applies.find? (!·.state.isTerminal) with
  | some a => throw (.cannotUnlock lock.databaseName a.environment a.applyIdentifier)
  | none => pure ()

def updateCheckRunAfterUnlock : Handling Unit := do
  match ← fetchPullRequestNoCache repo pr with
  | .error _ => pure ()
  | .ok headSHA =>
    discard <| createCheckRun cfg repo headSHA
      ("SchemaBot Apply: /" ++ lock.databaseType ++ "/" ++ lock.databaseName) .completed .neutral headSHA
      .other

/-- The release of one lock by `unlock`: whether it has worked. -/
def releaseForUnlock : Handling Bool :=
  if force then do
    locksForceRelease lock.databaseName lock.databaseType
    pure true
  else do
    let released ← locksRelease lock.databaseName lock.databaseType lock.owner
    pure released.toOption.isSome

/-- One round of `unlock`. -/
def unlockOne : Handling Unit := do
  if (← releaseForUnlock force lock) && lock.repository ≠ "" && lock.pullRequest ≠ 0 then
    updateCheckRunAfterUnlock cfg repo pr lock

/-- The database that `unlock` is for. -/
def unlockDatabase : Handling String :=
  if result.force ∧ result.database = "" then do
    match ← ask (·.unlockDatabase repo pr) with
    | .error e => throw (.commandError .unlock "" ("Failed to infer database for force unlock: " ++ e))
    | .ok database => pure database
  else pure result.database

/-- The release of the locks that `unlock` has found. -/
def unlockAll (locks : List Lock) : Handling Unit := do
  locks.forM fun lock => enforceActorAuthorization repo pr .unlock result.requestedBy lock.databaseName
  locks.forM noActiveApply
  locks.forM (unlockOne cfg repo pr result.force)

def handleUnlockCommand : Handling Unit := do
  let database ← unlockDatabase repo pr result
  match ← locksForUnlock repo pr result.force database with
  | .error e => throw (.commandError .unlock "" ("Failed to look up locks: " ++ e))
  | .ok locks => if locks.isEmpty then throw .noLocksFound else unlockAll cfg repo pr result locks

end

/-! ## A closed pull request -/

def handlePRClosed : Handling Unit := do
  let applies ← appliesGetByPR repo pr
  let inFlight := applies.filter (!·.state.isTerminal)
  let locks ← locksGetByPR repo pr
  locks.forM fun lock =>
    if inFlight.any fun a => a.database = lock.databaseName && a.databaseType = lock.databaseType then pure ()
    else discard <| locksRelease lock.databaseName lock.databaseType lock.owner
  if inFlight.isEmpty then checksDeleteByPRExcludingApplyOwned repo pr

end

end SchemaBot.Webhook
