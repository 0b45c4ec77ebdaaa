import SchemaBot.Webhook.Hub

/-!
# Check records and the aggregate checks

The table `checks` (`pkg/storage/mysqlstore/checks.go`) has a row per pull request, environment and database with
the outcome of the latest plan or apply, and a row per aggregate check run.
-/

namespace SchemaBot.Webhook

open Concurrent

/-! ## The store -/

namespace Check

def isFor (repo : String) (pr : Nat) (environment dbType database : String) (c : Check) : Bool :=
  c.repository = repo && c.pullRequest = pr && c.environment = environment && c.databaseType = dbType &&
    c.databaseName = database

def sameKey (check c : Check) : Bool :=
  c.isFor check.repository check.pullRequest check.environment check.databaseType check.databaseName

def assign (check : Check) (applyId : Nat) (basis : String) (c : Check) : Check :=
  { c with
    headSHA := check.headSHA, checkRunId := check.checkRunId, applyId := applyId
    hasChanges := check.hasChanges, status := check.status, conclusion := check.conclusion
    blockingReason := check.blockingReason, errorMessage := check.errorMessage, basis := basis }

/-- `checkStatusInProgress` with an apply: the row belongs to an apply that runs. -/
def inProgressApply (c : Check) : Bool := c.status = .inProgress && c.applyId ≠ 0

def sameColumns (c c' : Check) : Bool := { c with basis := c'.basis } = c'

end Check

/-- The statements that write rows of `checks`. -/
inductive RowWrite
  | upsert (check : Check)
  | insertPlan (check : Check)
  | updatePlan (check : Check)
  | recover (check : Check)
  | markStale (check : Check)
  | complete (check : Check) (apply : PRApply)
  | requireAction (check : Check) (apply : PRApply)
  | delete (repo : String) (pr : Nat)

namespace RowWrite

def row : RowWrite → Option Check
  | upsert check | insertPlan check | updatePlan check | recover check | markStale check
  | complete check _ | requireAction check _ => some check
  | delete _ _ => none

/-- `apply_id` as a statement sets it. -/
def applyId : RowWrite → Nat
  | upsert check => check.applyId
  | complete _ apply => apply.id
  | _ => 0

def basis : RowWrite → String
  | upsert check | insertPlan check | updatePlan check | recover check | markStale check
  | requireAction check _ => check.basis
  | complete _ apply => apply.headSHA
  | delete _ _ => ""

def assign (w : RowWrite) (c : Check) : Check :=
  match w.row with
  | some check => check.assign w.applyId w.basis c
  | none => c

end RowWrite

def PRApply.isOf (a : PRApply) (c : Check) : Bool :=
  c.isFor a.repository a.pullRequest a.environment a.databaseType a.database

def Instance.hasNewerApply (s : Instance) (c : Check) (id : Nat) : Bool :=
  s.applies.any fun a => a.isOf c && id < a.id

namespace Instance
variable (s : Instance)

/-- The `WHERE` of a statement that updates. -/
def matched : RowWrite → Check → Bool
  | .upsert check, c => check.sameKey c
  | .insertPlan _, _ => false
  | .updatePlan check, c => check.sameKey c && !c.inProgressApply
  | .recover check, c => check.sameKey c && c.inProgressApply && c.headSHA = check.headSHA
  | .markStale check, c => check.sameKey c && c.status ≠ .inProgress && c.applyId = 0
  | .complete check apply, c =>
    check.sameKey c && c.status = .inProgress && c.applyId = apply.id && !s.hasNewerApply c apply.id
  | .requireAction check apply, c => check.sameKey c && c.applyId = apply.id && !s.hasNewerApply c apply.id
  | .delete _ _, _ => false

def inserted : RowWrite → List Check
  | .upsert check => if s.checks.any check.sameKey then [] else [check]
  | .insertPlan check => if s.checks.any check.sameKey then [] else [{ check with applyId := 0 }]
  | _ => []

def kept : RowWrite → Check → Bool
  | .delete repo pr, c => !(c.repository = repo && c.pullRequest = pr && !c.inProgressApply)
  | _, _ => true

def writtenRows (w : RowWrite) : List Check :=
  Table.update (s.matched w) w.assign (s.checks.filter (kept w)) ++ s.inserted w

def changesRows (w : RowWrite) : Bool :=
  (s.checks.any fun c => s.matched w c && !c.sameColumns (w.assign c)) || !(s.inserted w).isEmpty

/-- The storage after a statement on `checks`, with entries in the log. -/
def writeChecks (w : RowWrite) (entries : List Entry) : Instance :=
  { s with checks := s.writtenRows w, log := s.log ++ entries }

/-- `Get`, in a state. -/
def check (repo : String) (pr : Nat) (environment dbType database : String) : Option Check :=
  s.checks.find? (·.isFor repo pr environment dbType database)

def stored (check : Check) : Option Check := s.checks.find? check.sameKey

end Instance

/-- A statement on `checks`, with whether it changed a row. -/
def writeRows (w : RowWrite) (entries : Instance → List Entry) : Handling Bool :=
  writeStore fun s => (s.writeChecks w (entries s), s.changesRows w)

section
variable (check : Check) (repo : String) (pr : Nat) (apply : PRApply)

/-- `Get`. -/
def checksGet (environment dbType database : String) : Handling (Option Check) :=
  readStore (·.check repo pr environment dbType database)

def Instance.checksOf (s : Instance) (repo : String) (pr : Nat) : List Check :=
  s.checks.filter fun c => c.repository = repo && c.pullRequest = pr

/-- `GetByPR`. -/
def checksGetByPR : Handling (List Check) :=
  Method.write fun h =>
    ({ h with notes := h.notes ++ [.read repo pr (h.inst.checksOf repo pr)] }, h.inst.checksOf repo pr)

/-- `Upsert`, one `INSERT … ON DUPLICATE KEY UPDATE`. -/
def checksUpsert : Handling Unit := discard <| writeRows (.upsert check) fun _ => []

/-- `UpsertPlanResult`: a plan leaves the row of an apply that runs alone. -/
def checksUpsertPlanResult : Handling Unit := do
  if ← writeRows (.insertPlan check) fun _ => [] then pure ()
  else discard <| writeRows (.updatePlan check) fun _ => []

def Check.successfulNoOpPlanResult (c : Check) : Bool :=
  c.status = .completed && c.conclusion = .success && !c.hasChanges

/-- `RecoverApplyOwnedCheckWithNoOpPlan`. -/
def checksRecoverApplyOwned : Handling Bool :=
  if check.successfulNoOpPlanResult then writeRows (.recover check) fun _ => [.recovered check]
  else pure false

def Check.isPlanOnlySuccessful (c : Check) : Bool :=
  c.status = .completed && c.conclusion = .success && c.applyId = 0 && !c.hasChanges

/-- `MarkStalePlanSuccessful`. -/
def checksMarkStalePlanSuccessful : Handling (Except String Bool) := do
  if ← writeRows (.markStale check) fun _ => [] then pure (.ok true)
  else
    match ← checksGet check.repository check.pullRequest check.environment check.databaseType
        check.databaseName with
    | none => pure (.error "stale plan check vanished after no-op update")
    | some current => pure (.ok current.isPlanOnlySuccessful)

/-- `CompleteForApply`. -/
def checksCompleteForApply : Handling Bool :=
  writeRows (.complete check apply) fun s => [.delivered apply (s.changesRows (.complete check apply))]

/-- `MarkActionRequiredForApply`. -/
def checksMarkActionRequiredForApply : Handling Bool :=
  writeRows (.requireAction check apply) fun s =>
    [.delivered apply (s.changesRows (.requireAction check apply))]

/-- `Get` of the row that the result of an apply is for. Where there is none, the result comes to nothing. -/
def checksGetForResult : Handling (Option Check) :=
  writeStore fun s =>
    match s.check repo pr apply.environment apply.databaseType apply.database with
    | some check => (s, some check)
    | none => (if apply.state = .stopped then s else s.enter [.delivered apply false], none)

/-- The `Upsert` of the start of an apply. -/
def checksUpsertStart (handling : Handle) (applyId : Nat) (check : Check) : Handling Unit :=
  discard <| writeRows (.upsert check) fun s => [.started handling applyId (s.apply applyId) (s.stored check)]

/-- The `Upsert` of a row that is blocked as it was read. -/
def checksUpsertBlock (check blocked : Check) : Handling Unit :=
  discard <| writeRows (.upsert blocked) fun s => [.blocked check (s.stored check)]

/-- `DeleteByPRExcludingApplyOwned`. -/
def checksDeleteByPRExcludingApplyOwned : Handling Unit :=
  discard <| writeRows (.delete repo pr) fun _ => []

end

/-! ## Aggregates -/

def aggregateSentinel : String := "_aggregate"

namespace Check

/-- `isAggregateCheck`. -/
def isAggregate (c : Check) : Bool := c.databaseType = aggregateSentinel && c.databaseName = aggregateSentinel

def hasStartedApply (c : Check) : Bool := c.status = .inProgress || c.applyId ≠ 0

def schemaRemovedAfterApplyBlock : String × String :=
  ("schema_removed_after_apply_started",
    "The current PR no longer contains a schema change whose apply has already started; reconciliation is required before this check can pass.")

def rollbackCompletedBlock : String × String :=
  ("rollback_completed",
    "Schema changes were rolled back in this environment; apply the PR schema changes again, or reconcile the PR and live schema before this check can pass.")

def blockedByRemovedSchemaAfterApply (c : Check) : Bool :=
  c.blockingReason = schemaRemovedAfterApplyBlock.1

def blocksPassingAggregate (c : Check) : Bool :=
  !c.isAggregate && (c.hasStartedApply || c.conclusion = .failure || c.conclusion = .actionRequired)

end Check

def hasBlockingCheckForEnvironment (checks : List Check) (environment : String) : Bool :=
  checks.any fun c =>
    (environment = aggregateSentinel || c.environment = environment) && c.blocksPassingAggregate

def computeAggregate (checks : List Check) : Conclusion × CheckStatus :=
  if checks.any (·.status = .inProgress) then (.none, .inProgress)
  else if checks.any (·.conclusion = .failure) then (.failure, .completed)
  else if checks.any (·.conclusion = .actionRequired) then (.actionRequired, .completed)
  else (.success, .completed)

def aggregateCheckNameForEnv (baseName environment : String) : String :=
  baseName ++ " (" ++ environment ++ ")"

section
variable (cfg : ServerConfig) (cached : Option String) (repo : String) (pr : Nat) (headSHA : String)

def verifyHeadSHAStillCurrentForPR : Handling Bool := do
  if headSHA = "" then pure false
  else
    match ← fetchPullRequest cached repo pr with
    | .error _ => pure false
    | .ok current => pure (current = headSHA)

section
variable (name : String) (status : CheckStatus) (conclusion : Conclusion) (basis : String) (made : Made)

/-- The check run of `CheckRunOptions`. -/
def newCheckRun : CheckRun :=
  { repository := repo, headSHA := headSHA, name := name, app := cfg.appSlug, status := status
    conclusion := conclusion, basis := basis, made := made }

/-- `CreateCheckRun`; `none` when GitHub fails. -/
def createCheckRun : Handling (Option Nat) :=
  Method.write fun h =>
    if h.inst.outside.unavailable.isSome then (h, none)
    else
      ({ h with github :=
          h.github.addRun (newCheckRun cfg repo headSHA name status conclusion basis made) },
        some h.github.nextRun)

end

/-- `UpdateCheckRun`; `none` when GitHub fails. -/
def updateCheckRun (id : Nat) (name : String) (status : CheckStatus) (conclusion : Conclusion)
    (basis : String) (made : Made) : Handling (Option Nat) :=
  Method.write fun h =>
    if h.inst.outside.unavailable.isSome then (h, none)
    else
      ({ h with github := h.github.setRun id fun r =>
          { r with
            name := name, status := status, conclusion := conclusion, basis := basis, made := made } },
        some id)

def aggregateScope (environment : String) : Option String :=
  if cfg.allowedEnvironments.isEmpty then none else some environment

def aggregateBasis (rows : List Check) : String := if rows.all (·.basis = headSHA) then headSHA else ""

def aggregateRow (environment : String) (checkRunId : Nat) (status : CheckStatus) (conclusion : Conclusion)
    (basis : String) : Check :=
  { repository := repo, pullRequest := pr, headSHA := headSHA, environment := environment
    databaseType := aggregateSentinel, databaseName := aggregateSentinel, checkRunId := checkRunId
    status := status, conclusion := conclusion, basis := basis }

def publishCheckRun (existing : Option Check) (name : String) (status : CheckStatus)
    (conclusion : Conclusion) (basis : String) (made : Made) : Handling (Option Nat) :=
  match existing with
  | some e =>
    if e.checkRunId ≠ 0 ∧ e.headSHA = headSHA then
      updateCheckRun e.checkRunId name status conclusion basis made
    else createCheckRun cfg repo headSHA name status conclusion basis made
  | none => createCheckRun cfg repo headSHA name status conclusion basis made

def upsertAggregateCheckRun (dbChecks : List Check) (checkName environment : String) : Handling Unit := do
  leaveNote (.gathered headSHA dbChecks)
  let (conclusion, status) := computeAggregate dbChecks
  let basis := aggregateBasis headSHA dbChecks
  let existing ← checksGet repo pr environment aggregateSentinel aggregateSentinel
  match ← publishCheckRun cfg repo headSHA existing checkName status conclusion basis
      (.aggregate (aggregateScope cfg environment) dbChecks) with
  | none => pure ()
  | some checkRunId =>
    checksUpsert { aggregateRow repo pr headSHA environment checkRunId status conclusion basis with
      hasChanges := conclusion ≠ .success }

def updateAggregateCheck : Handling Unit := do
  if cfg.areChecksEnabled repo then
    if ← verifyHeadSHAStillCurrentForPR cached repo pr headSHA then
      let checks ← checksGetByPR repo pr
      let dbChecks := checks.filter (!·.isAggregate)
      if dbChecks.isEmpty then pure ()
      else if cfg.allowedEnvironments.isEmpty then
        upsertAggregateCheckRun cfg repo pr headSHA dbChecks (cfg.checkNameBase repo) aggregateSentinel
      else
        cfg.allowedEnvironments.forM fun environment =>
          let envChecks := dbChecks.filter (·.environment = environment)
          if envChecks.isEmpty then pure ()
          else
            upsertAggregateCheckRun cfg repo pr headSHA envChecks
              (aggregateCheckNameForEnv (cfg.checkNameBase repo) environment) environment

def aggregateChecks : List (String × String) :=
  if cfg.allowedEnvironments.isEmpty then [(cfg.checkNameBase repo, aggregateSentinel)]
  else cfg.allowedEnvironments.map fun environment =>
    (aggregateCheckNameForEnv (cfg.checkNameBase repo) environment, environment)

/-- One aggregate of `postPassingAggregates`. -/
def postPassingAggregate (storedChecks : List Check) (check : String × String) : Handling Unit := do
  if hasBlockingCheckForEnvironment storedChecks check.2 then pure ()
  else
    let existing ← checksGet repo pr check.2 aggregateSentinel aggregateSentinel
    if existing.any fun e => e.headSHA = headSHA && e.conclusion = .success then pure ()
    else
      match ← publishCheckRun cfg repo headSHA existing check.1 .completed .success headSHA
          (.passing (aggregateScope cfg check.2) storedChecks) with
      | none => pure ()
      | some checkRunId =>
        checksUpsert (aggregateRow repo pr headSHA check.2 checkRunId .completed .success headSHA)

def postPassingAggregates : Handling Unit := do
  if cfg.areChecksEnabled repo then
    if ← verifyHeadSHAStillCurrentForPR cached repo pr headSHA then
      let storedChecks ← checksGetByPR repo pr
      (aggregateChecks cfg repo).forM (postPassingAggregate cfg repo pr headSHA storedChecks)

/-- One aggregate of `postFailingAggregatesWithBlock`. -/
def postFailingAggregate (message blockingReason : String) (check : String × String) : Handling Unit := do
  match ← createCheckRun cfg repo headSHA check.1 .completed .failure headSHA .other with
  | none => pure ()
  | some checkRunId =>
    checksUpsert { aggregateRow repo pr headSHA check.2 checkRunId .completed .failure headSHA with
      blockingReason := blockingReason
      errorMessage := if blockingReason = "" then "" else message }

/-- `postFailingAggregatesWithBlock`, with the errors by environment. -/
def postFailingAggregatesWithBlock (errors : List (String × String)) (blockingReason : String) : Handling Unit := do
  if cfg.areChecksEnabled repo then
    if ← verifyHeadSHAStillCurrentForPR cached repo pr headSHA then
      let failing := (aggregateChecks cfg repo).filter fun check =>
        cfg.allowedEnvironments.isEmpty || (errors.lookup check.2).isSome
      failing.forM fun check =>
        -- without per-environment aggregates the first error is shown
        let message := ((errors.lookup check.2).or (errors.head?.map (·.2))).getD "Plan failed"
        postFailingAggregate cfg repo pr headSHA message blockingReason check

def postFailingAggregates (errors : List (String × String)) : Handling Unit :=
  postFailingAggregatesWithBlock cfg cached repo pr headSHA errors ""

end

/-! ## Records of plans -/

section
variable (cfg : ServerConfig) (cached : Option String) (repo : String) (pr : Nat)

def PlanResponse.conclusion (r : PlanResponse) : Conclusion :=
  if r.errors ≠ [] then .failure else if r.flatTables ≠ [] then .actionRequired else .success

section
variable (schema : SchemaRequest) (planResp : PlanResponse) (environment : String)

/-- `upsertPlanCheckRecord`: the head commit, empty where none is known, and the row that was stored. -/
def upsertPlanCheckRecord : Handling (String × Option Check) := do
  if schema.headSHA = "" then pure ("", none)
  else
    match ← fetchPullRequest cached repo pr with
    | .error _ => pure ("", none)
    | .ok current =>
      if current ≠ schema.headSHA then pure (schema.headSHA, none)
      else
        let check : Check :=
          { repository := repo, pullRequest := pr, headSHA := schema.headSHA, environment := environment
            databaseType := schema.type, databaseName := schema.database
            hasChanges := planResp.flatTables ≠ [], status := .completed
            conclusion := planResp.conclusion, basis := schema.headSHA }
        checksUpsertPlanResult check
        pure (schema.headSHA, some check)

/-- `storePlanCheckRecord`, also `storeApplyPlanCheckRecord`. -/
def storePlanCheckRecord : Handling String := do
  let (headSHA, _) ← upsertPlanCheckRecord cached repo pr schema planResp environment
  pure headSHA

def storeManualPlanCheckRecord : Handling String := do
  match ← upsertPlanCheckRecord cached repo pr schema planResp environment with
  | (headSHA, none) => pure headSHA
  | (headSHA, some check) => do
    discard <| checksRecoverApplyOwned check
    pure headSHA

/-! ## Records of applies -/

end

def Check.startApply (applyId : Nat) (c : Check) : Check :=
  { c with
    applyId := applyId, hasChanges := true, status := .inProgress, conclusion := .none
    blockingReason := "", errorMessage := "" }

/-- `updateCheckRecordForApplyStart`; `some` is its error. -/
def updateCheckRecordForApplyStart (handling : Handle) (schema : SchemaRequest) (environment : String)
    (applyId : Nat) : Handling (Option String) := do
  match ← checksGet repo pr environment schema.type schema.database with
  | some existing =>
    let check := existing.startApply applyId
    checksUpsertStart handling applyId check
    updateAggregateCheck cfg cached repo pr check.headSHA
    pure none
  | none =>
    match ← fetchPullRequest cached repo pr with
    | .error e => pure (some e)
    | .ok current =>
      let check := Check.startApply applyId
        { repository := repo, pullRequest := pr, headSHA := current, environment := environment
          databaseType := schema.type, databaseName := schema.database }
      checksUpsertStart handling applyId check
      updateAggregateCheck cfg (some current) repo pr check.headSHA
      pure none

section
variable (apply : PRApply) (headSHA : String) (check : Check)

def PRApply.conclusion : Conclusion :=
  if apply.state = .completed then
    if check.blockedByRemovedSchemaAfterApply then .actionRequired else .success
  else .failure

def Check.finishApply : Check :=
  let conclusion := apply.conclusion check
  { check with
    status := .completed, conclusion := conclusion, hasChanges := conclusion ≠ .success
    blockingReason := if conclusion = .success then "" else check.blockingReason
    errorMessage := if conclusion = .success then "" else check.errorMessage }

/-- `updateCheckRecordForApplyResult`. A stopped apply may be resumed and leaves its row as it is. -/
def updateCheckRecordForApplyResult : Handling (Except String Bool) := do
  match ← checksGetForResult repo pr apply with
  | none => pure (.error "no stored check state found to update after apply")
  | some check =>
    if apply.state = .stopped then pure (.ok false)
    else
      leaveNote (.finished apply check)
      leaveEntry (.recorded apply)
      let updated ← checksCompleteForApply (check.finishApply apply) apply
      pure (.ok updated)

def Check.requireReapply : Check :=
  { check with
    status := .completed, conclusion := .actionRequired, hasChanges := true
    blockingReason := Check.rollbackCompletedBlock.1, errorMessage := Check.rollbackCompletedBlock.2 }

/-- `setCheckActionRequired`. Its context is its own, with no cache. -/
def setCheckActionRequired : Handling Bool := do
  match ← checksGetForResult repo pr apply with
  | none => pure false
  | some check =>
    if ← checksMarkActionRequiredForApply check.requireReapply apply then
      updateAggregateCheck cfg none repo pr check.headSHA
      pure true
    else pure false

def refreshAggregateForApply : Handling Unit := do
  match ← checksGet repo pr apply.environment apply.databaseType apply.database with
  | none => pure ()
  | some check => updateAggregateCheck cfg none repo pr check.headSHA

def refreshChecksForTerminalApply : Handling Unit := do
  if apply.rollback ∧ apply.state = .completed then discard <| setCheckActionRequired cfg repo pr apply
  else
    match ← updateCheckRecordForApplyResult repo pr apply with
    | .ok true => refreshAggregateForApply cfg repo pr apply
    | _ => pure ()

/-- `OnTerminalHook` of the observer that a command registers. That of a rollback completes the row
before it blocks it. -/
def onTerminalHook : Handling Unit := do
  leaveEntry (.observed apply)
  match ← updateCheckRecordForApplyResult repo pr apply with
  | .ok true =>
    if apply.rollback ∧ apply.state = .completed then discard <| setCheckActionRequired cfg repo pr apply
    else refreshAggregateForApply cfg repo pr apply
  | _ => pure ()

/-- One entry of `latestApplyByCheckKey`. -/
def latestApplyFor (applies : List PRApply) (check : Check) : Option PRApply :=
  Table.firstBy (fun a b => b.id < a.id)
    (fun a => a.environment = check.environment && a.databaseType = check.databaseType &&
      a.database = check.databaseName) applies

/-- The loop of `reconcileStaleChecks`: whether a row has changed. -/
def reconcileChecks (applies : List PRApply) : List Check → Bool → Handling (Except String Bool)
  | [], reconciled => pure (.ok reconciled)
  | check :: rest, reconciled =>
    if check.status ≠ .inProgress ∨ check.isAggregate then reconcileChecks applies rest reconciled
    else
      match latestApplyFor applies check with
      | none => reconcileChecks applies rest reconciled
      | some apply =>
        if !apply.state.isTerminal then reconcileChecks applies rest reconciled
        else if apply.rollback ∧ apply.state = .completed then do
          let updated ← setCheckActionRequired cfg repo pr apply
          reconcileChecks applies rest (reconciled || updated)
        else do
          match ← updateCheckRecordForApplyResult repo pr apply with
          | .error e => pure (.error e)
          | .ok updated => reconcileChecks applies rest (reconciled || updated)

/-- `reconcileStaleChecks`, with the head commit that is cached afterwards. -/
def reconcileStaleChecks : Handling (Except String (Option String)) := do
  let checks ← checksGetByPR repo pr
  let applies ← appliesGetByPR repo pr
  match ← reconcileChecks cfg repo pr applies checks false with
  | .error e => pure (.error e)
  | .ok false => pure (.ok cached)
  | .ok true =>
    match ← fetchPullRequest cached repo pr with
    | .error e => pure (.error e)
    | .ok current =>
      if current ≠ "" then updateAggregateCheck cfg (some current) repo pr current
      pure (.ok (some current))

/-! ## Rows of databases that have left the pull request -/

def Check.blockRemoved : Check :=
  { check with
    headSHA := headSHA, hasChanges := true
    blockingReason := Check.schemaRemovedAfterApplyBlock.1
    errorMessage := Check.schemaRemovedAfterApplyBlock.2
    status := if check.status = .inProgress then .inProgress else .completed
    conclusion := if check.status = .inProgress then .none else .actionRequired }

def blockStaleStartedApplyCheckState : Handling Bool := do
  checksUpsertBlock check (check.blockRemoved headSHA)
  pure true

def markStalePlanOnlyCheckStateSuccessful : Handling Bool := do
  match ← checksMarkStalePlanSuccessful { check with
      headSHA := headSHA, conclusion := .success, hasChanges := false, status := .completed, applyId := 0
      blockingReason := "", errorMessage := "", basis := headSHA } with
  | .ok marked => pure marked
  | .error _ => pure false

/-- The loop of `cleanupStaleChecks`: whether a row has changed. -/
def cleanupChecks (headSHA : String) (affected : List String) : List Check → Bool → Handling Bool
  | [], cleaned => pure cleaned
  | check :: rest, cleaned =>
    if check.isAggregate ∨ check.databaseName ∈ affected then cleanupChecks headSHA affected rest cleaned
    else if check.hasStartedApply then do
      let blocked ← blockStaleStartedApplyCheckState headSHA check
      cleanupChecks headSHA affected rest (cleaned || blocked)
    else do
      let marked ← markStalePlanOnlyCheckStateSuccessful headSHA check
      cleanupChecks headSHA affected rest (cleaned || marked)

/-- `cleanupStaleChecks`. Its context is its own, with no cache. -/
def cleanupStaleChecks (affectedDatabases : List String) : Handling Unit := do
  if ← verifyHeadSHAStillCurrentForPR none repo pr headSHA then
    let checks ← checksGetByPR repo pr
    if ← cleanupChecks headSHA affectedDatabases checks false then
      updateAggregateCheck cfg none repo pr headSHA

end

end

end SchemaBot.Webhook
