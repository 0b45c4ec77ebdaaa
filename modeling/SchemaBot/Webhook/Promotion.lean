import SchemaBot.Webhook.Checks

/-!
# The promotion gate

`pkg/webhook/check_prior_env.go`: before an apply, every environment that comes earlier in the promotion order must
have a successful check.
-/

namespace SchemaBot.Webhook

open Concurrent

section
variable (cfg : ServerConfig) (environment : String)

def scopedTargetMissingFromPromotionOrder : Bool :=
  !cfg.allowedEnvironments.isEmpty && !cfg.promotionEnvironmentOrder.contains environment

def promotionGateEnvironments (environments : List String) : List String :=
  if !cfg.allowedEnvironments.isEmpty && cfg.promotionEnvironmentOrder.contains environment then
    cfg.promotionEnvironmentOrder
  else cfg.orderedEnvironments environments

def priorEnvironments (environments : List String) : List String :=
  let gate := promotionGateEnvironments cfg environment environments
  match gate.findIdx? (· = environment) with
  | none => []
  | some currentIdx => gate.take currentIdx

end

def blockedByPriorEnv (database environment priorEnv : String) (conclusion : Conclusion) : Reply :=
  if conclusion = .failure then
    .applyBlockedByPriorEnv database environment priorEnv "failed" ("Fix the issue and re-apply " ++ priorEnv)
  else .applyBlockedByPriorEnv database environment priorEnv "has pending changes" ("Apply " ++ priorEnv ++ " first")

section
variable (cfg : ServerConfig) (handling : Handle) (request : GateRequest) (environment priorEnv : String)

/-! ## An environment of this deployment -/

def shouldRetryStoredPriorEnvCheck (check : Option Check) : Bool := check.all (·.status = .inProgress)

/-- `waitForLocalPriorEnvCheck`, with the attempts that are left. -/
def waitForLocalPriorEnvCheck : Nat → Handling (Option Check)
  | 0 => pure none
  | n + 1 => do
    let check ← checksGet request.repository request.pullRequest priorEnv request.databaseType
      request.database
    if !shouldRetryStoredPriorEnvCheck check || n = 0 then pure check else waitForLocalPriorEnvCheck n

def checkPriorEnvViaLocal : Handling Unit := do
  match ← waitForLocalPriorEnvCheck request priorEnv cfg.priorEnvCheckMaxAttemptCount with
  | none => throw (.applyBlockedByMissingPriorEnvCheck priorEnv)
  | some check =>
    if check.conclusion = .success then leaveNote (.passed handling request priorEnv (.row check))
    else if check.status = .inProgress then
      throw (.applyBlockedByPriorEnvInProgress request.database environment priorEnv)
    else throw (blockedByPriorEnv request.database environment priorEnv check.conclusion)

/-! ## An environment of another deployment -/

def findTrusted (runs : List CheckRun) : Option CheckRun × List String :=
  (Table.firstBy (fun a b => b.id < a.id) (cfg.isTrustedCheckAppSlug ·.app) runs,
    ((runs.filter (!cfg.isTrustedCheckAppSlug ·.app)).map (·.app)).eraseDups)

def findCheckRunByName (repo headSHA checkName : String) : Handling (Except String (Option CheckRun × List String)) :=
  Method.read fun h =>
    if cfg.appSlug = "" ∧ cfg.trustedCheckAppSlugs = [] then .error "check run ownership cannot be verified"
    else
      match h.inst.outside.unavailable with
      | some e => .error e
      | none =>
        .ok (findTrusted cfg (h.github.runs.filter fun r =>
          r.repository = repo && r.headSHA = headSHA && r.name = checkName))

def shouldRetryGitHubPriorEnvCheck (run : Option CheckRun) : Bool :=
  run.all fun r => r.status = .queued || r.status = .inProgress

/-- `waitForGitHubPriorEnvCheck`, with the attempts that are left. -/
def waitForGitHubPriorEnvCheck (headSHA checkName : String) :
    Nat → Handling (Except String (Option CheckRun × List String))
  | 0 => pure (.ok (none, []))
  | n + 1 => do
    match ← findCheckRunByName cfg request.repository headSHA checkName with
    | .error e => pure (.error e)
    | .ok (run, untrusted) =>
      if !shouldRetryGitHubPriorEnvCheck run || n = 0 then pure (.ok (run, untrusted))
      else waitForGitHubPriorEnvCheck headSHA checkName n

def checkPriorEnvViaGitHub (cached : Option String) : Handling Unit := do
  match ← fetchPullRequest cached request.repository request.pullRequest with
  | .error _ => throw (.applyBlockedByPriorEnvCheckError priorEnv "fetch PR details")
  | .ok headSHA =>
    let checkName := aggregateCheckNameForEnv (cfg.checkNameBase request.repository) priorEnv
    match ← waitForGitHubPriorEnvCheck cfg request headSHA checkName cfg.priorEnvCheckMaxAttemptCount with
    | .error _ => throw (.applyBlockedByPriorEnvCheckError priorEnv "query check runs")
    | .ok (none, untrusted) =>
      if untrusted ≠ [] then throw (.applyBlockedByUntrustedPriorEnvCheck priorEnv checkName untrusted)
      else throw (.applyBlockedByMissingPriorEnvCheck priorEnv)
    | .ok (some run, _) =>
      if run.status = .completed ∧ run.conclusion = .success then
        leaveNote (.passed handling request priorEnv (.run run))
      else if run.status = .inProgress ∨ run.status = .queued then
        throw (.applyBlockedByPriorEnvInProgress request.database environment priorEnv)
      else throw (blockedByPriorEnv request.database environment priorEnv run.conclusion)

end

section
variable (cfg : ServerConfig) (handling : Handle) (request : GateRequest) (environment : String)

/-- One round of the loop of `checkPriorEnvironments`. -/
def checkPriorEnvironment (cached : Option String) (priorEnv : String) : Handling Unit :=
  if cfg.isEnvironmentAllowed priorEnv then checkPriorEnvViaLocal cfg handling request environment priorEnv
  else checkPriorEnvViaGitHub cfg handling request environment priorEnv cached

/-- `checkPriorEnvironments`; a blocked apply ends with the reply. -/
def checkPriorEnvironments (cached : Option String) (environments : List String) : Handling Unit := do
  if scopedTargetMissingFromPromotionOrder cfg environment then
    throw (.applyBlockedByUnlistedEnvironment environment cfg.promotionEnvironmentOrder)
  else
    (priorEnvironments cfg environment environments).forM
      (checkPriorEnvironment cfg handling request environment cached)

end

end SchemaBot.Webhook
