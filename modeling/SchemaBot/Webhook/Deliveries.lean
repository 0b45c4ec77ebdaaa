import SchemaBot.Webhook.Commands

/-!
# Deliveries

The deployments of SchemaBot answer deliveries side by side.
-/

namespace SchemaBot.Webhook

open Concurrent

/-! ## Events -/

/-- What a deployment is told: a comment, and the parts of the handling of a push, of the closing of a pull
request, and of the end of an apply, as far as they run on their own. -/
inductive Event
  | comment (action : CommandAction) (repo : String) (pr : Nat) (result : CommandResult)
  | autoPlan (repo : String) (pr : Nat) (database : String)
  | cleanup (repo : String) (pr : Nat) (headSHA : String) (affectedDatabases : List String)
  | noManagedChanges (repo : String) (pr : Nat) (headSHA : String)
  | discoveryFailed (repo : String) (pr : Nat) (headSHA message blockingReason : String)
  | closed (repo : String) (pr : Nat)
  | applyEnded (applyId : Nat) (observed : Bool)

/-- `handleIssueComment`, from the parsed command on. A command for an environment of another deployment is
ignored, as is one that lacks its environment. -/
def handleComment (cfg : ServerConfig) (handling : Handle) (action : CommandAction) (repo : String) (pr : Nat)
    (result : CommandResult) : Handling Unit :=
  if result.environment ≠ "" ∧ !cfg.isEnvironmentAllowed result.environment then throw .ignored
  else if result.environment = "" ∧ action ≠ .plan ∧ action ≠ .unlock then throw .ignored
  else
    match action with
    | .plan =>
      if result.environment = "" then handleMultiEnvPlan cfg repo pr result.database false
      else handlePlanCommand cfg repo pr result
    | .apply => handleApplyCommand cfg handling repo pr result
    | .applyConfirm => handleApplyConfirmCommand cfg handling repo pr result
    | .rollback => handleRollbackCommand cfg repo pr result
    | .rollbackConfirm => handleRollbackConfirmCommand cfg handling repo pr result
    | .unlock => handleUnlockCommand cfg repo pr result

def handleApplyEnded (cfg : ServerConfig) (applyId : Nat) (observed : Bool) : Handling Unit := do
  match ← readStore (·.apply applyId) with
  | none => pure ()
  | some apply =>
    if !apply.state.isTerminal then pure ()
    else if observed then onTerminalHook cfg apply.repository apply.pullRequest apply
    else refreshChecksForTerminalApply cfg apply.repository apply.pullRequest apply

def Event.program (cfg : ServerConfig) (handling : Handle) : Event → Handling Unit
  | .comment action repo pr result => handleComment cfg handling action repo pr result
  | .autoPlan repo pr database => handleMultiEnvPlan cfg repo pr database true
  | .cleanup repo pr headSHA affectedDatabases => cleanupStaleChecks cfg repo pr headSHA affectedDatabases
  | .noManagedChanges repo pr headSHA => postPassingAggregates cfg none repo pr headSHA
  | .discoveryFailed repo pr headSHA message blockingReason =>
    postFailingAggregatesWithBlock cfg none repo pr headSHA (aggregateMessagesForAllEnvironments cfg message)
      blockingReason
  | .closed repo pr => handlePRClosed repo pr
  | .applyEnded applyId observed => handleApplyEnded cfg applyId observed

/-! ## What happens around the handlings -/

inductive Change
  | push (repo : String) (pr : Nat) (headSHA : String)
  | outside (answers : Outside)
  | applyState (id : Nat) (state : ApplyState)
  | foreignRun (run : CheckRun)
  | apiLock (lock : Lock)
  | apiUnlock (database dbType : String)
  | apiPlan (plan : StoredPlan)
  | apiApply (plan : StoredPlan) (rollback : Bool)
  | lockConflict

def GitHub.push (g : GitHub) (repo : String) (pr : Nat) (headSHA : String) : GitHub :=
  { g with head := fun repo' pr' => if repo' = repo ∧ pr' = pr then headSHA else g.head repo' pr' }

def Instance.turnApply (s : Instance) (apply : PRApply) (state : ApplyState) : Instance :=
  { s with
    applies := Table.update (fun a => a.id = apply.id) (fun a => { a with state := state }) s.applies
    log := s.log ++ [.turned { apply with state := state }] }

def Instance.setApplyState (s : Instance) (id : Nat) (state : ApplyState) : Instance :=
  match s.apply id with
  | none => s
  | some apply => if apply.state = .completed then s else s.turnApply apply state

def Instance.queueApply (s : Instance) (plan : StoredPlan) (rollback : Bool) : Instance :=
  let lockId := (s.locks.get id plan.database plan.databaseType).elim 0 (·.id)
  s.addApply (plan.newApply s.nextApply lockId rollback)
    (.queued (plan.newApply s.nextApply lockId rollback))

def changeLocks (s : LockDb) : Change → LockDb
  | .apiLock lock => (insertLock id { lock with pendingPlanId := "" } s).1
  | .apiUnlock database dbType => { s with locks := s.locks.filter (!·.isFor id database dbType) }
  | .lockConflict => { s with conflict := true }
  | _ => s

def Hub.change (h : Hub) : Change → Hub
  | .push repo pr headSHA => { h with github := h.github.push repo pr headSHA }
  | .outside answers => { h with inst := { h.inst with outside := answers } }
  | .applyState id state => { h with inst := h.inst.setApplyState id state }
  | .foreignRun run => { h with github := h.github.addRun { run with app := "", made := .other } }
  | .apiPlan plan => { h with inst := h.inst.addPlan plan }
  | .apiApply plan rollback => { h with inst := h.inst.queueApply plan rollback }
  | c => { h with inst := { h.inst with locks := changeLocks h.inst.locks c } }

/-! ## Worlds -/

structure World where
  github : GitHub := {}
  notes : List Note := []
  instances : Nat → Instance := fun _ => {}
  handlings : List (Nat × Prog Hub (Except Reply Unit)) := []

def World.hub (w : World) (i : Nat) : Hub := ⟨w.github, w.notes, w.instances i⟩

def World.put (w : World) (i : Nat) (h : Hub) : World :=
  { w with
    github := h.github, notes := h.notes
    instances := fun j => if j = i then h.inst else w.instances j }

inductive Action
  | deliver (deployment : Nat) (event : Event)
  | advance (handling : Nat)
  | change (deployment : Nat) (change : Change)

def World.step (cfg : Nat → ServerConfig) (w : World) : Action → World
  | .deliver i event =>
    { w with handlings := w.handlings ++ [(i, (event.program (cfg i) ⟨i, w.handlings.length⟩).run)] }
  | .advance n =>
    match w.handlings[n]? with
    | none => w
    | some (i, p) =>
      let r := p.next (w.hub i)
      { w.put i r.1 with handlings := w.handlings.set n (i, r.2) }
  | .change i c => w.put i ((w.hub i).change c)

def World.after (cfg : Nat → ServerConfig) (actions : List Action) : World :=
  Transition.run (World.step cfg) {} actions

def logAfter (cfg : Nat → ServerConfig) (actions : List Action) (i : Nat) : List Entry :=
  ((World.after cfg actions).instances i).log

/-! ## A sample

One deployment, one pull request, one database with two environments. -/

namespace Sample

def config : Nat → ServerConfig := fun _ => { databases := [("users", ["staging", "production"])] }

def tableChange : SchemaChange :=
  { namespaceName := "users", tableChanges := [{ tableName := "t", ddl := "ALTER TABLE t ADD c INT" }] }

def outside (changes : String → List SchemaChange) : Outside where
  discover _ _ headSHA _ _ := .ok { database := "users", type := "mysql", headSHA := headSHA }
  findConfig _ _ _ _ := .ok "users"
  plan req := .ok ⟨"primary", "users-1", { changes := changes req.environment }, []⟩

def plan (planIdentifier environment headSHA : String) : StoredPlan :=
  { planIdentifier := planIdentifier, database := "users", databaseType := "mysql", deployment := "primary"
    target := "users-1", repository := "app", pullRequest := 1, environment := environment
    headSHA := headSHA
    content := { namespaces :=
      [("users", { tables := [{ table := "t", ddl := "ALTER TABLE t ADD c INT", operation := "alter" }] })] } }

def lock (id : Nat) (pendingPlanId : String) : Lock :=
  { id := id, databaseName := "users", databaseType := "mysql", repository := "app", pullRequest := 1
    owner := "app#1", pendingPlanId := pendingPlanId }

def row (environment headSHA : String) : Check :=
  { repository := "app", pullRequest := 1, headSHA := headSHA, environment := environment
    databaseType := "mysql", databaseName := "users", basis := headSHA }

def push (headSHA : String) : Action := .change 0 (.push "app" 1 headSHA)

def plans (changes : String → List SchemaChange) : Action := .change 0 (.outside (outside changes))

def comment (action : CommandAction) (result : CommandResult) : Action :=
  .deliver 0 (.comment action "app" 1 result)

def steps (handling count : Nat) : List Action := List.replicate count (.advance handling)

/-- `apply -y` for staging, to its end. -/
def startedRun : List Action :=
  [push "A", plans fun _ => [tableChange], comment .apply { environment := "staging", autoConfirm := true }] ++
    steps 0 37

def endedRun : List Action :=
  startedRun ++ [.change 0 (.applyState 1 .completed), .deliver 0 (.applyEnded 1 false)] ++ steps 1 12

/-- `rollback` of an apply that has completed: its plan is pinned on the lock. -/
def pinnedRun : List Action :=
  [push "A", plans fun _ => [tableChange],
    .change 0 (.apiApply (plan "plan-9" "staging" "A") false), .change 0 (.applyState 1 .completed),
    comment .rollback { environment := "staging", applyId := "apply-1" }] ++ steps 0 12

def rolledBackRun : List Action :=
  pinnedRun ++ [comment .rollbackConfirm { environment := "staging" }] ++ steps 1 17 ++
    [.change 0 (.applyState 2 .completed)]

end Sample

end SchemaBot.Webhook
