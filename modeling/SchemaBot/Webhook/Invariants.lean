import SchemaBot.Webhook.Deliveries
import SchemaBot.Webhook.Rows

/-!
# What holds of a deployment

`Hub.Sound` is what holds of a deployment between any two statements, whoever makes them.
-/

namespace SchemaBot.Webhook

open Concurrent

/-! ## The promotion gate -/

section
variable (cfg : ServerConfig) (notes : List Note) (s : Instance) (a : PRApply)

def PRApply.gateRequest : GateRequest :=
  ⟨a.repository, a.pullRequest, a.database, a.databaseType, a.headSHA⟩

def StoredPlan.gateRequest (p : StoredPlan) : GateRequest :=
  ⟨p.repository, p.pullRequest, p.database, p.databaseType, p.headSHA⟩

/-- The evidence lets the earlier environment pass: the successful row of the database, or a successful run
of the environment's aggregate check on the commit, by an app that is trusted. -/
def Evidence.Passes (request : GateRequest) (priorEnv : String) : Evidence → Prop
  | .row c =>
    cfg.isEnvironmentAllowed priorEnv = true ∧ c.conclusion = .success ∧
      c.isFor request.repository request.pullRequest priorEnv request.databaseType request.database = true
  | .run r =>
    cfg.isEnvironmentAllowed priorEnv = false ∧ r.status = .completed ∧ r.conclusion = .success ∧
      r.repository = request.repository ∧ r.headSHA = request.headSHA ∧
      r.name = aggregateCheckNameForEnv (cfg.checkNameBase request.repository) priorEnv ∧
      cfg.isTrustedCheckAppSlug r.app = true

def Promoted (handling : Handle) (request : GateRequest) (environment : String) : Prop :=
  ∃ environments, cfg.databaseEnvironments request.database = .ok environments ∧
    ∀ priorEnv ∈ priorEnvironments cfg environment environments, ∃ evidence : Evidence,
      Note.passed handling request priorEnv evidence ∈ notes ∧ evidence.Passes cfg request priorEnv

theorem Promoted.mono {cfg : ServerConfig} {notes notes' : List Note} {handling : Handle}
    {request : GateRequest} {environment : String} (h : Promoted cfg notes handling request environment)
    (hsub : ∀ n ∈ notes, n ∈ notes') : Promoted cfg notes' handling request environment := by
  obtain ⟨environments, henv, hall⟩ := h
  refine ⟨environments, henv, fun priorEnv hp => ?_⟩
  obtain ⟨evidence, hmem, hpass⟩ := hall priorEnv hp
  exact ⟨evidence, hsub _ hmem, hpass⟩

def Note.isCurrent : Note → Bool
  | .passed _ request _ (.row c) => c.headSHA = request.headSHA
  | .gathered headSHA rows => rows.all (·.headSHA = headSHA)
  | .finished apply row => row.headSHA = apply.headSHA
  | _ => true

def Evidence.basis : Evidence → String
  | .row c => c.basis
  | .run r => r.basis

def Current : Prop := ∀ n ∈ notes, n.isCurrent = true

theorem Current.mono {notes notes' : List Note} (h : Current notes') (hsub : ∀ n ∈ notes, n ∈ notes') :
    Current notes := fun n hn => h n (hsub n hn)

/-! ## Applies that were read -/

structure PRApply.Follows (a' a : PRApply) : Prop where
  same : a' = { a with state := a'.state }
  completed : a.state = .completed → a'.state = .completed

theorem PRApply.Follows.refl : a.Follows a := ⟨rfl, fun hc => hc⟩

theorem PRApply.Follows.trans {a b c : PRApply} (h₁ : c.Follows b) (h₂ : b.Follows a) : c.Follows a where
  same := by rw [h₁.same, h₂.same]
  completed hc := h₁.completed (h₂.completed hc)

theorem PRApply.Follows.id_eq {a a' : PRApply} (h : a'.Follows a) : a'.id = a.id := by rw [h.same]

theorem PRApply.Follows.isOf_eq {a a' : PRApply} (h : a'.Follows a) (c : Check) : a'.isOf c = a.isOf c := by
  rw [h.same]
  rfl

def PRApply.isFinished : Bool := a.state.isTerminal && a.state ≠ .stopped

def Entry.creates : Entry → Option PRApply
  | .created _ _ a | .queued a => some a
  | _ => none

def Entry.deedOf : Entry → Option Handle
  | .created handling _ _ | .started handling _ _ _ => some handling
  | _ => none

def TurnedFinished (log : List Entry) (id : Nat) : Prop :=
  ∃ b, Entry.turned b ∈ log ∧ b.id = id ∧ b.isFinished = true

def Instance.Knows : Prop := ∃ a' ∈ s.applies, a'.Follows a

def Instance.Told : Prop :=
  s.Knows a ∧ (a.isFinished = true → TurnedFinished s.log a.id)

/-! ## Rows, locks and entries -/

def GitHub.Holds (g : GitHub) (id : Nat) (repo headSHA : String) : Prop :=
  id < g.nextRun ∧ ∀ r ∈ g.runs, r.id = id → r.repository = repo ∧ r.headSHA = headSHA

def Check.Settled (c : Check) : Prop :=
  c.status = .inProgress ∧ c.conclusion = .none ∨
    c.status = .completed ∧ (c.conclusion = .success ∨ c.conclusion = .failure ∨ c.conclusion = .actionRequired)

/-- A row points to a check run of its commit, if to any, and to an apply that has started on it, if to any;
where all notes are current, a success is about the commit the row carries; the success of an apply is one
that was recorded for it; and the row of a database runs for an apply. -/
structure Check.Good (h : Hub) (c : Check) : Prop where
  linked : c.checkRunId ≠ 0 → c.isAggregate = true ∧ h.github.Holds c.checkRunId c.repository c.headSHA
  settled : c.Settled
  fresh : Current h.notes → c.conclusion = .success → c.basis = c.headSHA
  owned : c.applyId ≠ 0 →
    (∃ a ∈ h.inst.applies, a.id = c.applyId ∧ a.isOf c = true) ∧
      ∃ handling now row, Entry.started handling c.applyId now row ∈ h.inst.log
  done : c.applyId ≠ 0 → c.status = .completed → c.conclusion = .success →
    ∃ a, Entry.recorded a ∈ h.inst.log ∧ a.id = c.applyId ∧ a.state = .completed
  running : c.isAggregate = false → c.status = .inProgress → c.applyId ≠ 0

/-- The plan that a lock waits to have confirmed: the stored plan of an `apply` of the lock's owner that has
passed the gate. -/
structure Confirmable (cfg : ServerConfig) (i : Nat) (h : Hub) (l : Lock) (plan : StoredPlan) : Prop where
  stored : h.inst.plan l.pendingPlanId = some plan
  owner : l.owner = lockOwner plan.repository plan.pullRequest
  database : plan.database = l.databaseName
  databaseType : plan.databaseType = l.databaseType
  promoted : ∃ handling : Handle, handling.deployment = i ∧
    Promoted cfg h.notes handling plan.gateRequest plan.environment

def RollbackPinned (plan : StoredPlan) : Prop :=
  s.plan plan.planIdentifier = some plan ∧
    Entry.pinned plan.planIdentifier plan.database plan.databaseType plan.environment ∈ s.log

/-- The pending plan of a lock: none, that of a rollback, or that of an `apply`. -/
def Pinned (i : Nat) (h : Hub) (l : Lock) : Prop :=
  l.pendingPlanId = "" ∨
    (∃ plan, l.pendingPlanId = rollbackPendingPlanPrefix ++ plan.planIdentifier ∧
      RollbackPinned h.inst plan) ∨
    ∃ plan, Confirmable cfg i h l plan

def Origin.Backed (h : Hub) (handling : Handle) (plan : StoredPlan) : Origin → Prop
  | .apply => Promoted cfg h.notes handling plan.gateRequest plan.environment
  | .applyConfirm lock pending =>
    Entry.confirming handling plan.environment lock pending ∈ h.inst.log ∧
      lock.owner = lockOwner plan.repository plan.pullRequest ∧ lock.databaseName = plan.database ∧
      lock.databaseType = plan.databaseType ∧
      ∃ planResp : PlanResponse, Entry.replanned handling planResp ∈ h.inst.log ∧
        protoChangesToNamespaces planResp.changes [] = .ok plan.content.namespaces
  | .rollbackConfirm => Entry.takenUp handling plan ∈ h.inst.log

def HasHeld (log : List Entry) (handling : Handle) (repo : String) (pr : Nat) (database dbType : String) : Prop :=
  ∃ lock : Lock, Entry.held handling lock ∈ log ∧ lock.owner = lockOwner repo pr ∧
    lock.databaseName = database ∧ lock.databaseType = dbType

structure Creates (cfg : Nat → ServerConfig) (i : Nat) (h : Hub) (handling : Handle) (origin : Origin)
    (plan : StoredPlan) (rollback : Bool) : Prop where
  mine : handling.deployment = i
  rollback : rollback = decide (origin = .rollbackConfirm)
  stored : h.inst.plan plan.planIdentifier = some plan
  held : HasHeld h.inst.log handling plan.repository plan.pullRequest plan.database plan.databaseType
  backed : origin.Backed (cfg i) h handling plan

def Entry.Backed (cfg : Nat → ServerConfig) (i : Nat) (h : Hub) : Entry → Prop
  | .created handling origin a =>
    h.inst.Knows a ∧ ∃ plan rollback, a = plan.newApply a.id a.lockId rollback ∧
      Creates cfg i h handling origin plan rollback
  | .confirming _ _ lock pending =>
    lock.pendingPlanId = "" ∧ pending = none ∨
      ∃ plan, pending = some plan ∧ Confirmable (cfg i) i h lock plan
  | .takenUp _ plan => RollbackPinned h.inst plan
  | .started handling id _ _ => ∃ origin a, Entry.created handling origin a ∈ h.inst.log ∧ a.id = id
  | .recorded a => (a.isFinished = true ∧ h.inst.Told a) ∧
      (a.rollback = true → a.state = .completed → Entry.observed a ∈ h.inst.log)
  | .delivered a _ => a.isFinished = true ∧ h.inst.Told a
  | .queued a => h.inst.Knows a
  | _ => True

def Check.Covered (environment : Option String) (c : Check) : Prop :=
  c.isAggregate = false ∧ ∀ env, environment = some env → c.environment = env

/-- What a successful check run was computed from: an aggregate from the rows of its databases among those that
were read, a passing one from all rows that were read. The others are of other apps. -/
def CheckRun.Computed (r : CheckRun) : Prop :=
  match r.made with
  | .aggregate environment rows => ∃ pr stored, Note.read r.repository pr stored ∈ notes ∧
      (∀ c, c ∈ rows ↔ c ∈ stored ∧ c.Covered environment) ∧
      ∀ c ∈ rows, c.status = .completed ∧ c.conclusion = .success
  | .passing environment rows => ∃ pr, Note.read r.repository pr rows ∈ notes ∧
      ∀ c ∈ rows, c.Covered environment →
        c.status = .completed ∧ c.conclusion = .success ∧ c.applyId = 0
  | .other => r.app = ""

end

/-! ## The state -/

structure Hub.Sound (cfg : Nat → ServerConfig) (i : Nat) (h : Hub) : Prop where
  numbered : ∀ p ∈ h.inst.plans, ∃ k < h.inst.nextPlan, p.planIdentifier = planIdentifier k
  pinned : ∀ l ∈ h.inst.locks.locks, Pinned (cfg i) i h l
  checks : ∀ c ∈ h.inst.checks, c.Good h
  keys : (h.inst.checks.map Check.key).Nodup
  applyIds : Table.KeysUnique PRApply.id h.inst.applies
  applyIdsBelow : Table.KeysBelow PRApply.id h.inst.nextApply h.inst.applies
  applyIdsPos : ∀ a ∈ h.inst.applies, 0 < a.id
  nextApplyPos : 0 < h.inst.nextApply
  stored : ∀ a ∈ h.inst.applies, ∃ e ∈ h.inst.log, ∃ b, e.creates = some b ∧ a.Follows b
  turned : ∀ a ∈ h.inst.applies, a.isFinished = true → TurnedFinished h.inst.log a.id
  entries : ∀ e ∈ h.inst.log, e.Backed cfg i h
  evidence : Current h.notes → ∀ handling request priorEnv evidence,
    Note.passed handling request priorEnv evidence ∈ h.notes → evidence.basis = request.headSHA
  runIds : ∀ r ∈ h.github.runs, r.id < h.github.nextRun
  runs : Current h.notes → ∀ r ∈ h.github.runs, r.app ≠ "" → r.conclusion = .success →
    r.basis = r.headSHA
  computed : ∀ r ∈ h.github.runs, r.conclusion = .success → r.Computed h.notes

structure Hub.Later (h h' : Hub) : Prop where
  notes : ∀ n ∈ h.notes, n ∈ h'.notes
  plans : ∀ id p, h.inst.plan id = some p → h'.inst.plan id = some p
  log : h.inst.log <+: h'.inst.log
  applies : ∀ a ∈ h.inst.applies, h'.inst.Knows a
  nextRun : h.github.nextRun ≤ h'.github.nextRun
  runs : ∀ r' ∈ h'.github.runs, r'.id < h.github.nextRun →
    ∃ r ∈ h.github.runs, r.id = r'.id ∧ r.repository = r'.repository ∧ r.headSHA = r'.headSHA

theorem Hub.Later.refl (h : Hub) : h.Later h where
  notes _ hn := hn
  plans _ _ hp := hp
  log := List.prefix_rfl
  applies a ha := ⟨a, ha, .refl a⟩
  nextRun := Nat.le_refl _
  runs r hr _ := ⟨r, hr, rfl, rfl, rfl⟩

theorem Hub.Later.trans {h h' h'' : Hub} (h₁ : h.Later h') (h₂ : h'.Later h'') : h.Later h'' where
  notes n hn := h₂.notes n (h₁.notes n hn)
  plans id p hp := h₂.plans id p (h₁.plans id p hp)
  log := h₁.log.trans h₂.log
  applies a ha := by
    obtain ⟨a', ha', hf⟩ := h₁.applies a ha
    obtain ⟨a'', ha'', hf'⟩ := h₂.applies a' ha'
    exact ⟨a'', ha'', hf'.trans hf⟩
  nextRun := h₁.nextRun.trans h₂.nextRun
  runs r'' hr'' hid := by
    obtain ⟨r', hr', hid', hrepo', hhead'⟩ := h₂.runs r'' hr'' (hid.trans_le h₁.nextRun)
    obtain ⟨r, hr, hid₂, hrepo, hhead⟩ := h₁.runs r' hr' (hid' ▸ hid)
    exact ⟨r, hr, hid₂.trans hid', hrepo.trans hrepo', hhead.trans hhead'⟩

/-! ## What lasts -/

section
variable {cfg : Nat → ServerConfig} {conf : ServerConfig} {i : Nat} {h h' : Hub} {a : PRApply} {e : Entry}
  {handling : Handle} {id : Nat} {l : Lock} {origin : Origin} {plan : StoredPlan}

theorem Hub.Later.mem_log (hl : h.Later h') (he : e ∈ h.inst.log) : e ∈ h'.inst.log :=
  hl.log.subset he

theorem GitHub.Holds.later {repo headSHA : String} (hh : h.github.Holds id repo headSHA)
    (hl : h.Later h') : h'.github.Holds id repo headSHA := by
  refine ⟨hh.1.trans_le hl.nextRun, fun r' hr' hid => ?_⟩
  obtain ⟨r, hr, hrid, hrepo, hhead⟩ := hl.runs r' hr' (hid ▸ hh.1)
  rw [← hrepo, ← hhead]
  exact hh.2 r hr (hrid.trans hid)

theorem Instance.Knows.later (hk : h.inst.Knows a) (hl : h.Later h') : h'.inst.Knows a := by
  obtain ⟨a', ha', hf⟩ := hk
  obtain ⟨a'', ha'', hf'⟩ := hl.applies a' ha'
  exact ⟨a'', ha'', hf'.trans hf⟩

theorem TurnedFinished.later (ht : TurnedFinished h.inst.log id) (hl : h.Later h') :
    TurnedFinished h'.inst.log id := by
  obtain ⟨b, hb, hrest⟩ := ht
  exact ⟨b, hl.mem_log hb, hrest⟩

theorem Instance.Told.later (ht : h.inst.Told a) (hl : h.Later h') : h'.inst.Told a :=
  ⟨ht.1.later hl, fun hf => (ht.2 hf).later hl⟩

theorem Check.Good.later {c : Check} (hc : c.Good h) (hl : h.Later h') : c.Good h' where
  linked hne := ⟨(hc.linked hne).1, (hc.linked hne).2.later hl⟩
  settled := hc.settled
  fresh hcur := hc.fresh (hcur.mono hl.notes)
  owned hne := by
    obtain ⟨⟨a, ha, hid, hof⟩, handling, now, row, hstart⟩ := hc.owned hne
    obtain ⟨a', ha', hf⟩ := hl.applies a ha
    exact ⟨⟨a', ha', hf.id_eq.trans hid, (hf.isOf_eq c).trans hof⟩, handling, now, row, hl.mem_log hstart⟩
  done hne hstatus hconcl := by
    obtain ⟨a, ha, hrest⟩ := hc.done hne hstatus hconcl
    exact ⟨a, hl.mem_log ha, hrest⟩
  running := hc.running

theorem Confirmable.later (hc : Confirmable conf i h l plan) (hl : h.Later h') : Confirmable conf i h' l plan where
  stored := hl.plans _ _ hc.stored
  owner := hc.owner
  database := hc.database
  databaseType := hc.databaseType
  promoted := by
    obtain ⟨handling, hi, hprom⟩ := hc.promoted
    exact ⟨handling, hi, hprom.mono hl.notes⟩

theorem RollbackPinned.later (hp : RollbackPinned h.inst plan) (hl : h.Later h') : RollbackPinned h'.inst plan :=
  ⟨hl.plans _ _ hp.1, hl.mem_log hp.2⟩

theorem Pinned.later (hp : Pinned conf i h l) (hl : h.Later h') : Pinned conf i h' l := by
  rcases hp with hnone | ⟨plan, hid, hplan⟩ | ⟨plan, hplan⟩
  · exact .inl hnone
  · exact .inr (.inl ⟨plan, hid, hplan.later hl⟩)
  · exact .inr (.inr ⟨plan, hplan.later hl⟩)

theorem Origin.Backed.later
    (hb : origin.Backed conf h handling plan) (hl : h.Later h') : origin.Backed conf h' handling plan := by
  cases origin with
  | apply => exact Promoted.mono hb hl.notes
  | applyConfirm lock pending =>
    obtain ⟨hconf, ho, hd, ht, planResp, hre, hns⟩ := hb
    exact ⟨hl.mem_log hconf, ho, hd, ht, planResp, hl.mem_log hre, hns⟩
  | rollbackConfirm => exact hl.mem_log hb

theorem HasHeld.later {repo database dbType : String} {pr : Nat}
    (hh : HasHeld h.inst.log handling repo pr database dbType) (hl : h.Later h') :
    HasHeld h'.inst.log handling repo pr database dbType := by
  obtain ⟨lock, hmem, hrest⟩ := hh
  exact ⟨lock, hl.mem_log hmem, hrest⟩

theorem Creates.later {rollback : Bool} (hc : Creates cfg i h handling origin plan rollback) (hl : h.Later h') :
    Creates cfg i h' handling origin plan rollback :=
  ⟨hc.mine, hc.rollback, hl.plans _ _ hc.stored, hc.held.later hl, hc.backed.later hl⟩

theorem Entry.Backed.later (hb : e.Backed cfg i h) (hl : h.Later h') : e.Backed cfg i h' := by
  cases e with
  | created handling origin a =>
    obtain ⟨hk, plan, rollback, ha, hc⟩ := hb
    exact ⟨hk.later hl, plan, rollback, ha, hc.later hl⟩
  | confirming handling environment lock pending =>
    rcases hb with hnone | ⟨plan, hp, hc⟩
    · exact .inl hnone
    · exact .inr ⟨plan, hp, hc.later hl⟩
  | takenUp handling plan => exact RollbackPinned.later hb hl
  | started handling id now row =>
    obtain ⟨origin, a, ha, hid⟩ := hb
    exact ⟨origin, a, hl.mem_log ha, hid⟩
  | recorded a => exact ⟨⟨hb.1.1, hb.1.2.later hl⟩, fun hr hc => hl.mem_log (hb.2 hr hc)⟩
  | delivered a updated => exact ⟨hb.1, hb.2.later hl⟩
  | queued a => exact Instance.Knows.later hb hl
  | turned | held | replanned | pinned | blocked | recovered | observed => trivial

theorem CheckRun.Computed.mono {r : CheckRun} {notes notes' : List Note} (hc : r.Computed notes)
    (hsub : ∀ n ∈ notes, n ∈ notes') : r.Computed notes' := by
  unfold CheckRun.Computed at hc ⊢
  split at hc
  · obtain ⟨pr, stored, hread, hrows⟩ := hc
    exact ⟨pr, stored, hsub _ hread, hrows⟩
  · obtain ⟨pr, hread, hrows⟩ := hc
    exact ⟨pr, hsub _ hread, hrows⟩
  · exact hc

end

/-! ## Moves of one deployment, seen by another -/

section
variable {cfg : Nat → ServerConfig} {i j : Nat} {h h' : Hub} {inst : Instance}

theorem Hub.Later.share (hl : h.Later h') : Hub.Later ⟨h.github, h.notes, inst⟩ ⟨h'.github, h'.notes, inst⟩ where
  notes := hl.notes
  plans _ _ hp := hp
  log := List.prefix_rfl
  applies a ha := ⟨a, ha, .refl a⟩
  nextRun := hl.nextRun
  runs := hl.runs

theorem Hub.Sound.share (hs : Hub.Sound cfg j ⟨h.github, h.notes, inst⟩) (hs' : h'.Sound cfg i)
    (hl : h.Later h') : Hub.Sound cfg j ⟨h'.github, h'.notes, inst⟩ :=
  { hs with
    pinned := fun l hm => (hs.pinned l hm).later hl.share
    checks := fun c hc => (hs.checks c hc).later hl.share
    entries := fun e he => (hs.entries e he).later hl.share
    evidence := hs'.evidence
    runIds := hs'.runIds
    runs := hs'.runs
    computed := hs'.computed }

end

end SchemaBot.Webhook
