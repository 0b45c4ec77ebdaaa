import Mathlib.Logic.Function.Basic
import SchemaBot.Lib.Evolving
import SchemaBot.Lib.Run

/-!
# Observers of applies

A command of a pull request wants to hear of the progress of the apply it creates.
-/

namespace SchemaBot.Observers

open Concurrent

/-! ## The service -/

structure RoutedPlan where
  database : String
  deployment : String
  target : String
  environment : String
  deriving DecidableEq

/-- `CommentObserver`, with the request that made it. -/
structure Observer where
  request : Nat
  repository : String
  pullRequest : Nat
  deriving DecidableEq

structure ObserverKey where
  database : String
  deployment : String
  environment : String
  deriving DecidableEq

structure ObservedApply where
  request : Nat
  plan : RoutedPlan
  observer : Option Observer := none
  deriving DecidableEq

structure Answers where
  authorize : RoutedPlan → Option String := fun _ => none
  client : String → String → Option String := fun _ _ => none
  create : RoutedPlan → Option String := fun _ => none

structure Service where
  plans : List RoutedPlan := []
  applies : List ObservedApply := []
  pendingObservers : ObserverKey → Option Observer := fun _ => none
  answers : Answers := {}

/-- `ResolvePrimaryDatabaseTarget`: the deployment and the target of a database in an environment. -/
abbrev Routing := String → String → Except String (String × String)

section
variable (cfg : Routing) (database deployment environment : String) (w : World) (n : Nat)

def deploymentForDatabaseEnvironment : Except String String :=
  if deployment ≠ "" then .ok deployment else (cfg database environment).map (·.1)

/-! ## Programs -/

def ask {α : Type} (f : Service → α) : Prog Service α := .atomically fun s => (s, f s)

def Service.setPending (s : Service) (key : ObserverKey) (observer : Option Observer) : Service :=
  { s with pendingObservers := Function.update s.pendingObservers key observer }

def setPendingObserver (observer : Option Observer) : Prog Service Unit :=
  match deploymentForDatabaseEnvironment cfg database deployment environment with
  | .error _ => pure ()
  | .ok deployment => .atomically fun s => (s.setPending ⟨database, deployment, environment⟩ observer, ())

def consumePendingObserver : Prog Service (Option Observer) :=
  .atomically fun s =>
    (s.setPending ⟨database, deployment, environment⟩ none,
      s.pendingObservers ⟨database, deployment, environment⟩)

/-- `SetObserver` of the client. -/
def setObserver (applyId : Nat) (observer : Observer) : Prog Service Unit :=
  .atomically fun s =>
    ({ s with applies := s.applies.modify applyId fun a => { a with observer := some observer } }, ())

def attachObserver (plan : RoutedPlan) (environment : String) (applyId : Nat) : Prog Service Unit := do
  match ← consumePendingObserver plan.database plan.deployment environment with
  | none => pure ()
  | some observer => setObserver applyId observer

def createStoredApply (request : Nat) (plan : RoutedPlan) : Prog Service (Except String Nat) :=
  .atomically fun s =>
    match s.answers.create plan with
    | some e => (s, .error e)
    | none => ({ s with applies := s.applies ++ [{ request, plan }] }, .ok s.applies.length)

def loadPlanForApply (planId : Nat) (environment : String) : Prog Service (Except String RoutedPlan) := do
  match ← ask (·.plans[planId]?) with
  | none => pure (.error "plan not found")
  | some plan =>
    if plan.environment ≠ environment then pure (.error "plan was created for another environment")
    else if plan.deployment = "" then pure (.error "plan is missing server-side routing metadata field deployment")
    else if plan.target = "" then pure (.error "plan is missing server-side routing metadata field target")
    else pure (.ok plan)

def queueValidatedApply (request : Nat) (plan : RoutedPlan) (environment : String) :
    Prog Service (Except String Nat) := do
  match ← ask (·.answers.client plan.deployment environment) with
  | some e => pure (.error e)
  | none =>
    match ← createStoredApply request plan with
    | .error e => pure (.error e)
    | .ok applyId => do
      attachObserver plan environment applyId
      pure (.ok applyId)

/-- `ExecuteApply`, and `EnqueueAuthorizedApply`, which does not ask the source policy. -/
def serviceExecuteApply (request planId : Nat) (environment : String) (authorized : Bool) :
    Prog Service (Except String Nat) := do
  match ← loadPlanForApply planId environment with
  | .error e => pure (.error e)
  | .ok plan =>
    match ← ask fun s => if authorized then none else s.answers.authorize plan with
    | some e => pure (.error e)
    | none => queueValidatedApply request plan environment

def executeObserved (observer : Observer) (planId : Nat) : Prog Service (Except String Nat) := do
  setPendingObserver cfg database deployment environment (some observer)
  match ← serviceExecuteApply observer.request planId environment false with
  | .error e => do
    setPendingObserver cfg database deployment environment none
    pure (.error e)
  | .ok applyId => pure (.ok applyId)

/-- `storePlanResponse`, with the route of `ExecutePlan`. -/
def storePlan (plan : RoutedPlan) : Prog Service Nat :=
  .atomically fun s => ({ s with plans := s.plans ++ [plan] }, s.plans.length)

inductive Request
  | apply (repository : String) (pullRequest : Nat) (database environment : String)
  | rollbackConfirm (repository : String) (pullRequest planId : Nat) (environment : String)
  | api (planId : Nat) (environment : String) (authorized : Bool)
  deriving DecidableEq

/-- The program of a request: `executeApply` from the storing of its new plan on,
`handleRollbackConfirmCommand` from the loading of the pinned plan on, and `handleApply`. -/
def Request.program : Request → Prog Service (Except String Nat)
  | .apply repository pullRequest database environment =>
    match cfg database environment with
    | .error e => pure (.error e)
    | .ok (deployment, target) => do
      let planId ← storePlan ⟨database, deployment, target, environment⟩
      executeObserved cfg database "" environment ⟨n, repository, pullRequest⟩ planId
  | .rollbackConfirm repository pullRequest planId environment => do
    match ← ask (·.plans[planId]?) with
    | none => pure (.error "no rollback plan is pending")
    | some plan =>
      if plan.environment ≠ environment then pure (.error "no rollback plan is pending")
      else executeObserved cfg plan.database plan.deployment environment ⟨n, repository, pullRequest⟩ planId
  | .api planId environment authorized => serviceExecuteApply n planId environment authorized

def Request.observer : Request → Option Observer
  | .apply repository pullRequest _ _ | .rollbackConfirm repository pullRequest _ _ =>
    some ⟨n, repository, pullRequest⟩
  | .api _ _ _ => none

def routeKey : Option ObserverKey :=
  (deploymentForDatabaseEnvironment cfg database deployment environment).toOption.map
    fun d => ⟨database, d, environment⟩

def Request.key (s : Service) : Request → Option ObserverKey
  | .apply _ _ database environment => routeKey cfg database "" environment
  | .rollbackConfirm _ _ planId environment | .api planId environment _ =>
    (s.plans[planId]?).bind fun plan => routeKey cfg plan.database plan.deployment environment

/-! ## Runs -/

structure World where
  service : Service := {}
  requests : List (Request × Prog Service (Except String Nat)) := []

inductive Action
  | receive (r : Request)
  | advance (n : Nat)
  | store (plan : RoutedPlan)
  | answer (answers : Answers)

def World.step : Action → World
  | .receive r => { w with requests := w.requests ++ [(r, r.program cfg w.requests.length)] }
  | .advance n =>
    match w.requests[n]? with
    | none => w
    | some (r, p) =>
      { service := (p.next w.service).1, requests := w.requests.set n (r, (p.next w.service).2) }
  | .store plan => { w with service := { w.service with plans := w.service.plans ++ [plan] } }
  | .answer answers => { w with service := { w.service with answers := answers } }

def World.after (actions : List Action) : World :=
  Transition.run (World.step cfg) {} actions

def isLive {α : Type} : Prog Service α → Bool
  | .ret _ => false
  | .stmt _ _ => true

def World.busy : Option ObserverKey :=
  match w.requests[n]? with
  | none => none
  | some (r, p) => if isLive p then r.key cfg w.service else none

def World.Exclusive : Prop :=
  ∀ n < w.requests.length, ∀ m < w.requests.length,
    n ≠ m → (w.busy cfg n).isSome → w.busy cfg n ≠ w.busy cfg m

end

instance (cfg : Routing) (w : World) : Decidable (w.Exclusive cfg) :=
  inferInstanceAs (Decidable (∀ n < w.requests.length, ∀ m < w.requests.length,
    n ≠ m → (w.busy cfg n).isSome → w.busy cfg n ≠ w.busy cfg m))

/-! ## One request among others -/

section
variable {cfg : Routing} {n : Nat} {r : Request} {s t u : Service} {key : ObserverKey} {a : ObservedApply}
  {environment : String} {i : Nat} {id : Nat} {o : Option Observer} {plan : RoutedPlan} {planId : Nat}

theorem getElem?_mono {α : Type} {l l' : List α} {a : α} (h : l <+: l') (ha : l[i]? = some a) :
    l'[i]? = some a := by
  obtain ⟨suffix, rfl⟩ := h
  rw [List.getElem?_append_left (List.getElem?_eq_some_iff.1 ha).1, ha]

theorem getElem?_concat_cases {α : Type} {l : List α} {a b : α} (h : (l ++ [b])[i]? = some a) :
    l[i]? = some a ∨ i = l.length ∧ a = b := by
  obtain ⟨hi, hget⟩ := List.getElem?_eq_some_iff.1 h
  rcases Nat.lt_or_ge i l.length with hlt | hge
  · rw [List.getElem?_append_left hlt] at h
    exact .inl h
  · rw [List.getElem?_append_right hge] at h
    have hlen : i = l.length := by
      rw [List.length_append, List.length_singleton] at hi
      omega
    exact .inr ⟨hlen, List.mem_singleton.1 (List.mem_of_getElem? h)⟩

theorem Request.key_mono (hst : s.plans <+: t.plans) (hk : r.key cfg s = some key) : r.key cfg t = some key := by
  cases r with
  | apply repository pullRequest database environment => exact hk
  | rollbackConfirm repository pullRequest planId environment | api planId environment authorized =>
    obtain ⟨plan, hplan, hroute⟩ := Option.bind_eq_some_iff.1 hk
    exact Option.bind_eq_some_iff.2 ⟨plan, getElem?_mono hst hplan, hroute⟩

/-- What the others leave alone while the request is the only one of its target: the observer that is pending
there, and the applies of the request. A target that becomes known has no observer yet. -/
structure Leaves (cfg : Routing) (n : Nat) (r : Request) (s t : Service) : Prop where
  plans : s.plans <+: t.plans
  pending : ∀ key, r.key cfg t = some key →
    (r.key cfg s = some key ∧ t.pendingObservers key = s.pendingObservers key) ∨
      (r.key cfg s ≠ some key ∧ t.pendingObservers key = none)
  rows : ∀ (i : Nat) (a : ObservedApply), a.request = n → s.applies[i]? = some a → t.applies[i]? = some a

structure Moves (cfg : Routing) (n : Nat) (r : Request) (s t : Service) : Prop where
  plans : s.plans <+: t.plans
  others : ∀ key, r.key cfg s ≠ some key → t.pendingObservers key = s.pendingObservers key
  pending : ∀ key o, t.pendingObservers key = some o →
    s.pendingObservers key = some o ∨ r.observer n = some o
  rows : ∀ (i : Nat) (a : ObservedApply), a.request ≠ n → (s.applies[i]? = some a ↔ t.applies[i]? = some a)
  observed : ∀ a ∈ t.applies, a.request = n → a ∈ s.applies ∨ ∀ o, a.observer = some o → r.observer n = some o

theorem Leaves.refl (s : Service) : Leaves cfg n r s s :=
  ⟨List.prefix_rfl, fun _ hk => .inl ⟨hk, rfl⟩, fun _ _ _ ha => ha⟩

theorem Leaves.trans (hst : Leaves cfg n r s t) (htu : Leaves cfg n r t u) : Leaves cfg n r s u := by
  refine ⟨hst.plans.trans htu.plans, fun key hk => ?_, fun i a hn ha => htu.rows i a hn (hst.rows i a hn ha)⟩
  rcases htu.pending key hk with ⟨hkt, hpt⟩ | ⟨hkt, hpt⟩
  · rw [hpt]
    exact hst.pending key hkt
  · exact .inr ⟨fun hks => hkt (r.key_mono hst.plans hks), hpt⟩

theorem Moves.stay (s : Service) : Moves cfg n r s s :=
  ⟨List.prefix_rfl, fun _ _ => rfl, fun _ _ ho => .inl ho, fun _ _ _ => .rfl, fun _ ha _ => .inl ha⟩

section
variable (cfg : Routing) (n : Nat) (r : Request)

def evolution : Evolution Service where
  inv _ := True
  le := Leaves cfg n r
  move := Moves cfg n r
  refl := Leaves.refl
  trans := Leaves.trans
  stay := Moves.stay
  keep _ _ := trivial

def Holds (observer : Option Observer) (s : Service) : Prop :=
  ∀ t, Leaves cfg n r s t → ∀ key, r.key cfg t = some key → t.pendingObservers key = observer

def Finished (result : Except String Nat) (s : Service) : Prop :=
  Holds cfg n r none s ∧
    ∀ id, result = .ok id → ∃ a, s.applies[id]? = some a ∧ a.request = n ∧ a.observer = r.observer n

end

theorem Holds.later (h : Holds cfg n r o s) (hst : Leaves cfg n r s t) :
    Holds cfg n r o t := fun u htu key hk => h u (hst.trans htu) key hk

theorem holds_none (h : ∀ key, r.key cfg s = some key → s.pendingObservers key = none) : Holds cfg n r none s := by
  intro t hst key hk
  rcases hst.pending key hk with ⟨hks, hp⟩ | ⟨-, hp⟩
  · rw [hp, h key hks]
  · exact hp

theorem holds_of_key (hk : r.key cfg s = some key) : Holds cfg n r (s.pendingObservers key) s := by
  intro t hst key' hk'
  have hsame : some key = some key' := (r.key_mono hst.plans hk).symm.trans hk'
  cases hsame
  rcases hst.pending key hk' with ⟨-, hp⟩ | ⟨hne, -⟩
  · exact hp
  · exact absurd hk hne

theorem Finished.later {result : Except String Nat} (h : Finished cfg n r result s) (hst : Leaves cfg n r s t) :
    Finished cfg n r result t := by
  refine ⟨h.1.later hst, fun id hid => ?_⟩
  obtain ⟨a, ha, hn, ho⟩ := h.2 id hid
  exact ⟨a, hst.rows id a hn ha, hn, ho⟩

theorem Service.setPending_self : (s.setPending key o).pendingObservers key = o :=
  Function.update_self ..

theorem Service.setPending_of_ne {key' : ObserverKey} (h : key' ≠ key) :
    (s.setPending key o).pendingObservers key' = s.pendingObservers key' := Function.update_of_ne h ..

theorem Moves.setPending (hk : r.key cfg s = some key)
    (ho : ∀ x, o = some x → r.observer n = some x) : Moves cfg n r s (s.setPending key o) := by
  refine ⟨List.prefix_rfl, fun key' hne => ?_, fun key' x hx => ?_, fun _ _ _ => .rfl, fun _ ha _ => .inl ha⟩
  · refine Service.setPending_of_ne fun he => hne ?_
    rw [he, hk]
  · by_cases he : key' = key
    · subst he
      rw [Service.setPending_self] at hx
      exact .inr (ho x hx)
    · rw [Service.setPending_of_ne he] at hx
      exact .inl hx

theorem holds_setPending (hk : r.key cfg s = some key) : Holds cfg n r o (s.setPending key o) := by
  have h : Holds cfg n r ((s.setPending key o).pendingObservers key) (s.setPending key o) := holds_of_key hk
  rwa [Service.setPending_self] at h

theorem Moves.setObserver {o : Observer} (ha : s.applies[id]? = some a)
    (hn : a.request = n) (ho : r.observer n = some o) :
    Moves cfg n r s { s with applies := s.applies.modify id fun a => { a with observer := some o } } := by
  refine ⟨List.prefix_rfl, fun _ _ => rfl, fun _ _ hx => .inl hx, fun i b hne => ?_, fun b hb _ => ?_⟩
  · rw [List.getElem?_modify]
    by_cases hi : id = i
    · subst hi
      rw [ha]
      constructor
      · rintro ⟨⟩
        exact absurd hn hne
      · intro hb
        simp only [Option.map_eq_map, Option.map_some, Option.some.injEq] at hb
        subst hb
        exact absurd hn hne
    · simp only [hi, if_false, Option.map_eq_map, Option.map_id']
  · obtain ⟨i, hi⟩ := List.mem_iff_getElem?.1 hb
    rw [List.getElem?_modify] at hi
    obtain ⟨b', hb', rfl⟩ := Option.map_eq_some_iff.1 hi
    split
    · exact .inr fun x hx => by rw [ho, ← hx]
    · exact .inl (List.mem_iff_getElem?.2 ⟨i, hb'⟩)

theorem getElem?_setObserver {o : Observer} (ha : s.applies[id]? = some a) :
    (s.applies.modify id fun a => { a with observer := some o })[id]? = some { a with observer := some o } := by
  rw [List.getElem?_modify, ha]
  simp

theorem Moves.addApply : Moves cfg n r s { s with applies := s.applies ++ [{ request := n, plan := plan }] } := by
  refine ⟨List.prefix_rfl, fun _ _ => rfl, fun _ _ hx => .inl hx, fun i b hne => ?_, fun b hb _ => ?_⟩
  · refine ⟨getElem?_mono (List.prefix_append _ _), fun hb => ?_⟩
    rcases getElem?_concat_cases hb with hb | ⟨-, rfl⟩
    · exact hb
    · exact absurd rfl hne
  · rcases List.mem_append.1 hb with hb | hb
    · exact .inl hb
    · rw [List.mem_singleton.1 hb]
      exact .inr nofun

theorem Moves.addPlan : Moves cfg n r s { s with plans := s.plans ++ [plan] } :=
  ⟨List.prefix_append _ _, fun _ _ => rfl, fun _ _ hx => .inl hx, fun _ _ _ => .rfl, fun _ ha _ => .inl ha⟩

theorem Leaves.addApply : Leaves cfg n r s { s with applies := s.applies ++ [a] } :=
  ⟨List.prefix_rfl, fun _ hk => .inl ⟨hk, rfl⟩, fun _ _ _ hb => getElem?_mono (List.prefix_append _ _) hb⟩

/-! ## The programs -/

theorem acts_ask {α : Type} {f : Service → α} {Q : α → Service → Prop}
    (h : ∀ t u, Leaves cfg n r s t → Leaves cfg n r t u → Q (f t) u) : Prog.Acts (evolution cfg n r) Q (ask f) s :=
  .atomically fun t ht _ => ⟨.stay t, fun u hu _ => h t u ht hu⟩

theorem acts_setPendingObserver {database deployment environment : String}
    (hroute : ∀ t, s.plans <+: t.plans → r.key cfg t = routeKey cfg database deployment environment)
    (ho : ∀ x, o = some x → r.observer n = some x) :
    Prog.Acts (evolution cfg n r) (fun _ u => s.plans <+: u.plans ∧ Holds cfg n r o u)
      (setPendingObserver cfg database deployment environment o) s := by
  unfold setPendingObserver
  unfold routeKey at hroute
  generalize deploymentForDatabaseEnvironment cfg database deployment environment = resolved at hroute
  cases resolved with
  | error e =>
    -- the target is not known, and never will be
    refine .pure fun t ht _ => ⟨ht.plans, fun u hu key hk => ?_⟩
    rw [hroute u (ht.plans.trans hu.plans)] at hk
    cases hk
  | ok d =>
    refine .atomically fun t ht _ => ⟨?_, fun u hu _ => ?_⟩
    · exact .setPending (hroute t ht.plans) ho
    · exact ⟨ht.plans.trans hu.plans, (holds_setPending (hroute t ht.plans)).later hu⟩

theorem acts_attachObserver (hk : r.key cfg s = some ⟨plan.database, plan.deployment, environment⟩)
    (hold : Holds cfg n r (r.observer n) s) (ha : s.applies[id]? = some { request := n, plan := plan }) :
    Prog.Acts (evolution cfg n r) (fun _ u => Finished cfg n r (.ok id) u) (attachObserver plan environment id) s := by
  have hconsume : Prog.Acts (evolution cfg n r)
      (fun o u => o = r.observer n ∧ Holds cfg n r none u ∧ u.applies[id]? = some { request := n, plan := plan })
      (consumePendingObserver plan.database plan.deployment environment) s := by
    refine .atomically fun t ht _ => ⟨?_, fun u hu _ => ?_⟩
    · exact .setPending (r.key_mono ht.plans hk) nofun
    · have hkt := r.key_mono ht.plans hk
      refine ⟨hold t ht _ hkt, (holds_setPending hkt).later hu, ?_⟩
      exact hu.rows id _ rfl (ht.rows id _ rfl ha)
  refine hconsume.sequence fun o t _ ⟨ho, hnone, hrow⟩ => ?_
  cases o with
  | none =>
    have hfin : Finished cfg n r (.ok id) t := ⟨hnone, fun _ he => by cases he; exact ⟨_, hrow, rfl, ho⟩⟩
    exact .pure fun u hu _ => hfin.later hu
  | some o =>
    refine .atomically fun u hu _ => ⟨?_, fun v hv _ => Finished.later ⟨?_, fun _ he => ?_⟩ hv⟩
    · exact .setObserver (hu.rows id _ rfl hrow) rfl ho.symm
    · exact holds_none fun key hk' => hnone u hu key hk'
    · cases he
      exact ⟨_, getElem?_setObserver (hu.rows id _ rfl hrow), rfl, ho⟩

def Routes (cfg : Routing) (r : Request) (planId : Nat) (environment : String) (s : Service) : Prop :=
  ∀ t plan, s.plans <+: t.plans → t.plans[planId]? = some plan → plan.deployment ≠ "" →
    r.key cfg t = some ⟨plan.database, plan.deployment, environment⟩

theorem Routes.later (h : Routes cfg r planId environment s)
    (hst : s.plans <+: t.plans) : Routes cfg r planId environment t :=
  fun u plan htu hplan hne => h u plan (hst.trans htu) hplan hne

theorem routes_of_plan (h : ∀ t : Service, r.key cfg t =
      (t.plans[planId]?).bind fun plan => routeKey cfg plan.database plan.deployment environment) :
    Routes cfg r planId environment s := by
  intro t plan _ hplan hne
  rw [h t, hplan]
  unfold routeKey deploymentForDatabaseEnvironment
  rw [Option.bind_some, if_pos hne]
  rfl

def Called (cfg : Routing) (n : Nat) (r : Request) : Except String Nat → Service → Prop
  | .error _, s => Holds cfg n r (r.observer n) s
  | .ok id, s => Finished cfg n r (.ok id) s

theorem acts_error {e : String} (hold : Holds cfg n r (r.observer n) s) :
    Prog.Acts (evolution cfg n r) (Called cfg n r) (pure (.error e)) s :=
  .pure fun _ ht _ => hold.later ht

theorem acts_queueValidatedApply (hk : r.key cfg s = some ⟨plan.database, plan.deployment, environment⟩)
    (hold : Holds cfg n r (r.observer n) s) :
    Prog.Acts (evolution cfg n r) (Called cfg n r) (queueValidatedApply n plan environment) s := by
  have hask : Prog.Acts (evolution cfg n r) (fun _ u => Leaves cfg n r s u)
      (ask (·.answers.client plan.deployment environment)) s := acts_ask fun _ _ ht hu => ht.trans hu
  refine hask.sequence fun refused t _ ht => ?_
  cases refused with
  | some e => exact acts_error (hold.later ht)
  | none =>
    have hcreate : Prog.Acts (evolution cfg n r)
        (fun stored u => Leaves cfg n r t u ∧
          ∀ id, stored = .ok id → u.applies[id]? = some { request := n, plan := plan })
        (createStoredApply n plan) t := by
      refine .atomically fun u hu _ => ?_
      split
      · exact ⟨.stay u, fun v hv _ => ⟨hu.trans hv, nofun⟩⟩
      · refine ⟨.addApply, fun v hv _ => ⟨(hu.trans .addApply).trans hv, ?_⟩⟩
        rintro id ⟨⟩
        exact hv.rows _ _ rfl (List.getElem?_concat_length ..)
    refine hcreate.sequence fun stored u _ ⟨hu, hrow⟩ => ?_
    cases stored with
    | error e => exact acts_error ((hold.later ht).later hu)
    | ok id =>
      have hattach := acts_attachObserver (r.key_mono (ht.trans hu).plans hk) (hold.later (ht.trans hu)) (hrow id rfl)
      exact hattach.sequence fun _ v _ hfin => .pure fun _ hw _ => hfin.later hw

theorem acts_serviceExecuteApply {authorized : Bool}
    (hroutes : Routes cfg r planId environment s) (hold : Holds cfg n r (r.observer n) s) :
    Prog.Acts (evolution cfg n r) (Called cfg n r) (serviceExecuteApply n planId environment authorized) s := by
  have hload : Prog.Acts (evolution cfg n r)
      (fun loaded u => Leaves cfg n r s u ∧ ∀ plan, loaded = .ok plan →
        r.key cfg u = some ⟨plan.database, plan.deployment, environment⟩)
      (loadPlanForApply planId environment) s := by
    have hask : Prog.Acts (evolution cfg n r)
        (fun found u => Leaves cfg n r s u ∧ ∀ plan, found = some plan → u.plans[planId]? = some plan)
        (ask (·.plans[planId]?)) s :=
      acts_ask fun _ _ ht hu => ⟨ht.trans hu, fun _ hp => getElem?_mono hu.plans hp⟩
    refine hask.sequence fun found t _ ⟨ht, hfound⟩ => ?_
    cases found with
    | none => exact .pure fun u hu _ => ⟨ht.trans hu, nofun⟩
    | some plan =>
      dsimp only
      split
      · exact .pure fun u hu _ => ⟨ht.trans hu, nofun⟩
      split
      · exact .pure fun u hu _ => ⟨ht.trans hu, nofun⟩
      split
      · exact .pure fun u hu _ => ⟨ht.trans hu, nofun⟩
      · next hne _ =>
        refine .pure fun u hu _ => ⟨ht.trans hu, ?_⟩
        rintro plan' ⟨⟩
        exact hroutes u plan (ht.trans hu).plans (getElem?_mono hu.plans (hfound plan rfl)) hne
  refine hload.sequence fun loaded t _ ⟨ht, hkey⟩ => ?_
  cases loaded with
  | error e => exact acts_error (hold.later ht)
  | ok plan =>
    have hask : Prog.Acts (evolution cfg n r) (fun _ u => Leaves cfg n r t u)
        (ask fun s => if authorized then none else s.answers.authorize plan) t :=
      acts_ask fun _ _ ht hu => ht.trans hu
    refine hask.sequence fun refused u _ hu => ?_
    cases refused with
    | some e => exact acts_error (hold.later (ht.trans hu))
    | none => exact acts_queueValidatedApply (r.key_mono hu.plans (hkey plan rfl)) (hold.later (ht.trans hu))

theorem acts_plans {α : Type} {Q : α → Service → Prop} {p : Prog Service α}
    (h : Prog.Acts (evolution cfg n r) Q p s) :
    Prog.Acts (evolution cfg n r) (fun a u => s.plans <+: u.plans ∧ Q a u) p s := by
  induction p generalizing s with
  | ret a => exact fun t ht hinv => ⟨ht.plans, h t ht hinv⟩
  | stmt f k ih =>
    intro t ht hinv
    obtain ⟨hmove, hk⟩ := h t ht hinv
    exact ⟨hmove, (ih t hk).mono fun a u _ hu => ⟨(ht.plans.trans hmove.plans).trans hu.1, hu.2⟩⟩

theorem acts_executeObserved {database deployment environment : String} {o : Observer}
    (hroute : ∀ t, s.plans <+: t.plans → r.key cfg t = routeKey cfg database deployment environment)
    (hroutes : Routes cfg r planId environment s) (ho : r.observer n = some o) (hn : o.request = n) :
    Prog.Acts (evolution cfg n r) (Finished cfg n r)
      (executeObserved cfg database deployment environment o planId) s := by
  have hset := acts_setPendingObserver (o := some o) hroute fun x hx => by rw [ho, hx]
  refine hset.sequence fun _ t _ ⟨ht, hold⟩ => ?_
  rw [← ho] at hold
  rw [hn]
  refine (acts_plans (acts_serviceExecuteApply (hroutes.later ht) hold)).sequence fun called u _ ⟨hu, hcalled⟩ => ?_
  cases called with
  | error e =>
    have hclear := acts_setPendingObserver (n := n) (o := none)
      (fun v hv => hroute v ((ht.trans hu).trans hv)) nofun
    refine hclear.sequence fun _ v _ hv => .pure fun w hw _ => ⟨hv.2.later hw, nofun⟩
  | ok id => exact .pure fun v hv _ => hcalled.later hv

theorem acts_program (hnone : ∀ key, r.key cfg s = some key → s.pendingObservers key = none) :
    Prog.Acts (evolution cfg n r) (Finished cfg n r) (r.program cfg n) s := by
  have hend : ∀ {e : String} {t : Service}, Leaves cfg n r s t →
      Prog.Acts (evolution cfg n r) (Finished cfg n r) (pure (.error e)) t := fun ht =>
    .pure fun u hu _ => ⟨(holds_none hnone).later (ht.trans hu), nofun⟩
  cases r with
  | apply repository pullRequest database environment =>
    cases hcfg : cfg database environment with
    | error e =>
      simp only [Request.program, hcfg]
      exact hend (.refl s)
    | ok route =>
      obtain ⟨deployment, target⟩ := route
      simp only [Request.program, hcfg]
      have hstore : Prog.Acts (evolution cfg n (.apply repository pullRequest database environment))
          (fun planId u => u.plans[planId]? = some ⟨database, deployment, target, environment⟩)
          (storePlan ⟨database, deployment, target, environment⟩) s := by
        refine .atomically fun t ht _ => ⟨.addPlan, fun u hu _ => ?_⟩
        exact getElem?_mono hu.plans (List.getElem?_concat_length ..)
      refine hstore.sequence fun planId t _ hplan => acts_executeObserved (fun _ _ => rfl) ?_ rfl rfl
      -- the plan that is loaded again is the one that was stored
      intro u plan htu hfound _
      rw [getElem?_mono htu hplan] at hfound
      cases hfound
      show routeKey cfg database "" environment = _
      unfold routeKey deploymentForDatabaseEnvironment
      rw [hcfg]
      rfl
  | rollbackConfirm repository pullRequest planId environment =>
    have hask : Prog.Acts (evolution cfg n (.rollbackConfirm repository pullRequest planId environment))
        (fun found u => Leaves cfg n (.rollbackConfirm repository pullRequest planId environment) s u ∧
          ∀ plan, found = some plan → u.plans[planId]? = some plan)
        (ask (·.plans[planId]?)) s :=
      acts_ask fun _ _ ht hu => ⟨ht.trans hu, fun _ hp => getElem?_mono hu.plans hp⟩
    refine hask.sequence fun found t _ ⟨ht, hfound⟩ => ?_
    cases found with
    | none => exact hend ht
    | some plan =>
      dsimp only
      split
      · exact hend ht
      · have hkey : ∀ u, t.plans <+: u.plans →
            Request.key cfg u (.rollbackConfirm repository pullRequest planId environment) =
              routeKey cfg plan.database plan.deployment environment := fun u htu => by
          show (u.plans[planId]?).bind _ = _
          rw [getElem?_mono htu (hfound plan rfl)]
          rfl
        exact acts_executeObserved hkey (routes_of_plan fun _ => rfl) rfl rfl
  | api planId environment authorized =>
    have hcall : Prog.Acts (evolution cfg n (.api planId environment authorized))
        (Called cfg n (.api planId environment authorized))
        (serviceExecuteApply n planId environment authorized) s :=
      acts_serviceExecuteApply (routes_of_plan fun _ => rfl) (holds_none hnone)
    refine hcall.mono fun called u _ hcalled => ?_
    cases called with
    | error e => exact ⟨hcalled, nofun⟩
    | ok id => exact hcalled

theorem Request.observer_request {o : Observer} (h : r.observer n = some o) : o.request = n := by
  cases r with
  | apply repository pullRequest database environment
  | rollbackConfirm repository pullRequest planId environment => cases h; rfl
  | api planId environment authorized => cases h

theorem Request.program_ne_ok (id : Nat) : r.program cfg n ≠ .ret (.ok id) := by
  cases r with
  | apply repository pullRequest database environment =>
    cases hcfg : cfg database environment with
    | error e | ok route => simp only [Request.program, hcfg]; exact nofun
  | rollbackConfirm repository pullRequest planId environment
  | api planId environment authorized => exact nofun

end

/-! ## Requests side by side -/

section
variable {cfg : Routing} {w w' : World} {n m : Nat} {r : Request} {p : Prog Service (Except String Nat)}
  {t : Service} {key : ObserverKey}

theorem World.busy_iff : w.busy cfg n = some key ↔
    ∃ r p, w.requests[n]? = some (r, p) ∧ isLive p = true ∧ r.key cfg w.service = some key := by
  unfold World.busy
  split
  · next hnone => simp [hnone]
  · next r p hreq =>
    split
    · next hlive => simp [hreq, hlive]
    · next hlive => simp [hreq, hlive]

theorem World.Exclusive.eq (hex : w.Exclusive cfg) (hn : w.busy cfg n = some key) (hm : w.busy cfg m = some key) :
    n = m := by
  obtain ⟨_, _, hn', -⟩ := World.busy_iff.1 hn
  obtain ⟨_, _, hm', -⟩ := World.busy_iff.1 hm
  by_contra hne
  refine hex n (List.getElem?_eq_some_iff.1 hn').1 m (List.getElem?_eq_some_iff.1 hm').1 hne ?_ ?_
  · rw [hn]; rfl
  · rw [hn, hm]

structure World.Tidy (cfg : Routing) (w : World) : Prop where
  pending : ∀ key o, w.service.pendingObservers key = some o → w.busy cfg o.request = some key
  acts : ∀ n r p, w.requests[n]? = some (r, p) → isLive p = true →
    Prog.Acts (evolution cfg n r) (Finished cfg n r) p w.service

/-- An apply has the observer of the request that stored it, or none as yet, and the one where that request
has ended. While the requests of a target follow one another, the world is tidy. -/
structure World.Sound (cfg : Routing) (w : World) : Prop where
  own : ∀ a ∈ w.service.applies, ∃ r p, w.requests[a.request]? = some (r, p) ∧
    ∀ o, a.observer = some o → r.observer a.request = some o
  ended : ∀ (n : Nat) (r : Request) (id : Nat), w.requests[n]? = some (r, .ret (.ok id)) →
    ∃ a : ObservedApply, w.service.applies[id]? = some a ∧ a.request = n ∧ a.observer = r.observer n
  tidy : w.Exclusive cfg → w.Tidy cfg

/-- What a change of the service leaves to a request that had no part in it: the observer of its target, and
none where the target has just become known. -/
theorem World.Tidy.leaves (hw : w.Tidy cfg) (hm : w.requests[m]? = some (r, p))
    (hplans : w.service.plans <+: t.plans)
    (hsame : ∀ key, r.key cfg w.service = some key → t.pendingObservers key = w.service.pendingObservers key)
    (hnew : ∀ key o, r.key cfg t = some key → t.pendingObservers key = some o →
      o.request = m ∧ w.service.pendingObservers key = some o)
    (hrows : ∀ (i : Nat) (a : ObservedApply), a.request = m → w.service.applies[i]? = some a →
      t.applies[i]? = some a) : Leaves cfg m r w.service t := by
  refine ⟨hplans, fun key hk => ?_, hrows⟩
  by_cases hks : r.key cfg w.service = some key
  · exact .inl ⟨hks, hsame key hks⟩
  · refine .inr ⟨hks, Option.eq_none_iff_forall_ne_some.2 fun o ho => hks ?_⟩
    obtain ⟨rfl, hpend⟩ := hnew key o hk ho
    obtain ⟨r', p', hreq, -, hk'⟩ := World.busy_iff.1 (hw.pending key o hpend)
    rw [hm] at hreq
    cases hreq
    exact hk'

theorem World.Sound.receive (hw : w.Sound cfg) (hex : w.Exclusive cfg) : (w.step cfg (.receive r)).Sound cfg := by
  have hold : ∀ {n : Nat} {x}, w.requests[n]? = some x → (w.step cfg (.receive r)).requests[n]? = some x :=
    fun hreq => getElem?_mono (List.prefix_append _ _) hreq
  have hbusy : ∀ key o, w.service.pendingObservers key = some o →
      o.request < w.requests.length ∧ (w.step cfg (.receive r)).busy cfg o.request = some key := by
    intro key o ho
    obtain ⟨r', p, hreq, hlive, hk⟩ := World.busy_iff.1 ((hw.tidy hex).pending key o ho)
    exact ⟨(List.getElem?_eq_some_iff.1 hreq).1, World.busy_iff.2 ⟨r', p, hold hreq, hlive, hk⟩⟩
  refine ⟨fun a ha => ?_, fun n r' id hreq => ?_, fun hex' => ⟨fun key o ho => (hbusy key o ho).2, ?_⟩⟩
  · obtain ⟨r', p, hreq, ho⟩ := hw.own a ha
    exact ⟨r', p, hold hreq, ho⟩
  · rcases getElem?_concat_cases hreq with hreq | ⟨-, heq⟩
    · exact hw.ended n r' id hreq
    · exact absurd (Prod.mk.inj heq).2.symm (Request.program_ne_ok id)
  · intro n r' p hreq hlive
    rcases getElem?_concat_cases hreq with hreq' | ⟨rfl, heq⟩
    · exact (hw.tidy hex).acts n r' p hreq' hlive
    · cases heq
      -- an observer at the target of the new request would be that of another one under way
      refine acts_program fun key hk => Option.eq_none_iff_forall_ne_some.2 fun o ho => ?_
      obtain ⟨hlt, hb⟩ := hbusy key o ho
      have hn := hex'.eq hb (World.busy_iff.2 ⟨_, _, hreq, hlive, hk⟩)
      exact absurd hlt (hn ▸ Nat.lt_irrefl _)

theorem World.Sound.outside (hw : w.Sound cfg) (hex : w.Exclusive cfg)
    (hplans : w.service.plans <+: t.plans) (hpend : t.pendingObservers = w.service.pendingObservers)
    (happlies : t.applies = w.service.applies) : World.Sound cfg { w with service := t } := by
  have hbusy : ∀ key o, t.pendingObservers key = some o → ({ w with service := t } : World).busy cfg o.request = some key := by
    intro key o ho
    rw [hpend] at ho
    obtain ⟨r', p, hreq, hlive, hk⟩ := World.busy_iff.1 ((hw.tidy hex).pending key o ho)
    exact World.busy_iff.2 ⟨r', p, hreq, hlive, r'.key_mono hplans hk⟩
  refine ⟨fun a ha => hw.own a (happlies ▸ ha), fun n r' id hreq => ?_, fun hex' => ⟨hbusy, ?_⟩⟩
  · obtain ⟨a, ha, hn, ho⟩ := hw.ended n r' id hreq
    exact ⟨a, happlies ▸ ha, hn, ho⟩
  · intro n r' p hreq hlive
    refine ((hw.tidy hex).acts n r' p hreq hlive).later ((hw.tidy hex).leaves hreq hplans ?_ ?_ ?_)
    · exact fun key _ => congrFun hpend key
    · intro key o hk ho
      exact ⟨hex'.eq (hbusy key o ho) (World.busy_iff.2 ⟨r', p, hreq, hlive, hk⟩), (congrFun hpend key).symm.trans ho⟩
    · exact fun i a _ ha => happlies ▸ ha

theorem World.Sound.advance (hw : w.Sound cfg) (hex : w.Exclusive cfg) (hreq : w.requests[n]? = some (r, p))
    (hlive : isLive p = true) {p' : Prog Service (Except String Nat)} (hmove : Moves cfg n r w.service t)
    (hacts : Prog.Acts (evolution cfg n r) (Finished cfg n r) p' t) :
    World.Sound cfg ⟨t, w.requests.set n (r, p')⟩ := by
  have hlt : n < w.requests.length := (List.getElem?_eq_some_iff.1 hreq).1
  have hself : (w.requests.set n (r, p'))[n]? = some (r, p') := List.getElem?_set_self hlt
  have hother : ∀ {m : Nat}, m ≠ n → (w.requests.set n (r, p'))[m]? = w.requests[m]? :=
    fun hne => List.getElem?_set_ne hne.symm
  -- a request that has ended has no observer pending
  have hlive' : ∀ key o, t.pendingObservers key = some o → r.key cfg t = some key → isLive p' = true := by
    intro key o ho hk
    cases p' with
    | stmt f k => rfl
    | ret a => exact absurd ((hacts t (.refl t) trivial).1 t (.refl t) key hk) (by rw [ho]; exact nofun)
  have hbusy : ∀ key o, t.pendingObservers key = some o →
      (⟨t, w.requests.set n (r, p')⟩ : World).busy cfg o.request = some key := by
    intro key o ho
    have hown : o.request = n → r.key cfg w.service = some key →
        (⟨t, w.requests.set n (r, p')⟩ : World).busy cfg o.request = some key := fun hn hk =>
      World.busy_iff.2 ⟨r, p', hn ▸ hself, hlive' key o ho (r.key_mono hmove.plans hk), r.key_mono hmove.plans hk⟩
    by_cases hk : r.key cfg w.service = some key
    · rcases hmove.pending key o ho with hs | ho'
      · exact hown (hex.eq ((hw.tidy hex).pending key o hs) (World.busy_iff.2 ⟨r, p, hreq, hlive, hk⟩)) hk
      · exact hown (Request.observer_request ho') hk
    · rw [hmove.others key hk] at ho
      obtain ⟨r₁, p₁, hreq₁, hlive₁, hk₁⟩ := World.busy_iff.1 ((hw.tidy hex).pending key o ho)
      by_cases hn : o.request = n
      · rw [hn, hreq] at hreq₁
        cases hreq₁
        exact absurd hk₁ hk
      · exact World.busy_iff.2 ⟨r₁, p₁, (hother hn).trans hreq₁, hlive₁, r₁.key_mono hmove.plans hk₁⟩
  refine ⟨fun a ha => ?_, fun m r₁ id hm => ?_, fun hex' => ⟨hbusy, fun m r₁ p₁ hm hl => ?_⟩⟩
  · by_cases hn : a.request = n
    · refine ⟨r, p', hn ▸ hself, fun o ho => ?_⟩
      rcases hmove.observed a ha hn with hs | hobs
      · obtain ⟨r₁, p₁, hreq₁, ho₁⟩ := hw.own a hs
        rw [hn, hreq] at hreq₁
        cases hreq₁
        exact ho₁ o ho
      · rw [hn]
        exact hobs o ho
    · obtain ⟨i, hi⟩ := List.mem_iff_getElem?.1 ha
      obtain ⟨r₁, p₁, hreq₁, ho₁⟩ := hw.own a (List.mem_of_getElem? ((hmove.rows i a hn).2 hi))
      exact ⟨r₁, p₁, (hother hn).trans hreq₁, ho₁⟩
  · by_cases hn : m = n
    · subst hn
      rw [hself] at hm
      cases hm
      exact (hacts t (.refl t) trivial).2 id rfl
    · rw [hother hn] at hm
      obtain ⟨a, ha, ham, ho⟩ := hw.ended m r₁ id hm
      exact ⟨a, (hmove.rows id a fun h => hn (ham.symm.trans h)).1 ha, ham, ho⟩
  · by_cases hn : m = n
    · subst hn
      rw [hself] at hm
      cases hm
      exact hacts
    · have hm' : w.requests[m]? = some (r₁, p₁) := (hother hn).symm.trans hm
      refine ((hw.tidy hex).acts m r₁ p₁ hm' hl).later ((hw.tidy hex).leaves hm' hmove.plans ?_ ?_ ?_)
      · intro key hk
        refine hmove.others key fun hkn => hn ?_
        exact hex.eq (World.busy_iff.2 ⟨r₁, p₁, hm', hl, hk⟩) (World.busy_iff.2 ⟨r, p, hreq, hlive, hkn⟩)
      · intro key o hk ho
        have hmo : o.request = m := hex'.eq (hbusy key o ho) (World.busy_iff.2 ⟨r₁, p₁, hm, hl, hk⟩)
        refine ⟨hmo, (hmove.pending key o ho).resolve_right fun ho' => hn ?_⟩
        exact hmo.symm.trans (Request.observer_request ho')
      · exact fun i a ham ha => (hmove.rows i a fun h => hn (ham.symm.trans h)).1 ha

theorem World.step_advance : w.step cfg (.advance n) = w ∨ ∃ r f k, w.requests[n]? = some (r, .stmt f k) ∧
      w.step cfg (.advance n) = ⟨f w.service, w.requests.set n (r, k w.service)⟩ := by
  cases hreq : w.requests[n]? with
  | none => exact .inl (by simp only [World.step, hreq])
  | some x =>
    obtain ⟨r, p⟩ := x
    cases p with
    | stmt f k => exact .inr ⟨r, f, k, rfl, by simp only [World.step, hreq, Prog.next]⟩
    | ret a =>
      obtain ⟨hlt, hget⟩ := List.getElem?_eq_some_iff.1 hreq
      have hset : w.requests.set n (r, .ret a) = w.requests := by rw [← hget, List.set_getElem_self]
      exact .inl (by simp only [World.step, hreq, Prog.next, hset])

theorem World.Sound.step (hw : w.Sound cfg) (hex : w.Exclusive cfg) (act : Action) :
    (w.step cfg act).Sound cfg := by
  cases act with
  | receive r => exact hw.receive hex
  | store plan => exact hw.outside hex (List.prefix_append _ _) rfl rfl
  | answer answers => exact hw.outside hex List.prefix_rfl rfl rfl
  | advance n =>
    rcases World.step_advance with heq | ⟨r, f, k, hreq, heq⟩
    · rw [heq]
      exact hw
    · rw [heq]
      obtain ⟨hmove, hacts⟩ := ((hw.tidy hex).acts n r _ hreq rfl).next trivial
      exact hw.advance hex hreq rfl hmove hacts

theorem World.Sound.taken (hw : w.Sound cfg) (hex : w.Exclusive cfg) {act : Action} {o : Observer}
    (ho : w.service.pendingObservers key = some o)
    (ht : (w.step cfg act).service.pendingObservers key ≠ some o) : act = .advance o.request := by
  cases act with
  | receive r | store plan | answer answers => exact absurd ho ht
  | advance n =>
    rcases World.step_advance with heq | ⟨r, f, k, hreq, heq⟩
    · rw [heq] at ht
      exact absurd ho ht
    · rw [heq] at ht
      obtain ⟨hmove, -⟩ := ((hw.tidy hex).acts n r _ hreq rfl).next trivial
      by_cases hk : r.key cfg w.service = some key
      · rw [hex.eq ((hw.tidy hex).pending key o ho) (World.busy_iff.2 ⟨r, _, hreq, rfl, hk⟩)]
      · exact absurd ((hmove.others key hk).trans ho) ht

end

theorem World.sound_init (cfg : Routing) : World.Sound cfg {} where
  own _ ha := absurd ha List.not_mem_nil
  ended _ _ _ h := by cases h
  tidy _ := ⟨nofun, fun _ _ _ h => by cases h⟩

/-- In a run in which the requests of one target follow one another: an apply has the observer that its own
request has registered, or none; a request that has ended with an apply has given it its observer; and an
observer is removed by its own request only. -/
theorem observers_own (cfg : Routing) (actions : List Action)
    (hex : Transition.Along (World.step cfg) (fun w _ => w.Exclusive cfg) {} actions) :
    (∀ a ∈ (World.after cfg actions).service.applies,
      ∃ r p, (World.after cfg actions).requests[a.request]? = some (r, p) ∧
        ∀ o, a.observer = some o → r.observer a.request = some o) ∧
    (∀ (n : Nat) (r : Request) (id : Nat), (World.after cfg actions).requests[n]? = some (r, .ret (.ok id)) →
      ∃ a : ObservedApply, (World.after cfg actions).service.applies[id]? = some a ∧ a.request = n ∧
        a.observer = r.observer n) ∧
    Transition.Along (World.step cfg)
      (fun w act => ∀ key o, w.service.pendingObservers key = some o →
        (w.step cfg act).service.pendingObservers key ≠ some o → act = .advance o.request) {} actions := by
  have hstep : ∀ w act, World.Sound cfg w → w.Exclusive cfg → (w.step cfg act).Sound cfg :=
    fun w act hw hex => hw.step hex act
  have hw : (World.after cfg actions).Sound cfg := Transition.run_induction hstep (World.sound_init cfg) hex
  refine ⟨hw.own, hw.ended, ?_⟩
  exact Transition.Along.of_invariant hstep (fun w act hw hex _ _ ho ht => hw.taken hex ho ht)
    (World.sound_init cfg) hex

/-! ## Requests that overlap -/

def sampleRouting : Routing := fun database _ => .ok ("primary", database)

def statements (n count : Nat) : List Action := List.replicate count (.advance n)

def sampleApply (pullRequest : Nat) : Request := .apply "app" pullRequest "users" "staging"

def orderlyRun : List Action :=
  [.receive (sampleApply 1)] ++ statements 0 8 ++ [.receive (sampleApply 2)] ++ statements 1 8

theorem observers_own_orderlyRun :
    Transition.Along (World.step sampleRouting) (fun w _ => w.Exclusive sampleRouting) {} orderlyRun ∧
      ∃ a, (World.after sampleRouting orderlyRun).service.applies[1]? = some a ∧ a.request = 1 ∧
        a.observer = some ⟨1, "app", 2⟩ := by
  have hex : Transition.Along (World.step sampleRouting) (fun w _ => w.Exclusive sampleRouting) {} orderlyRun := by
    decide +kernel
  exact ⟨hex, (observers_own sampleRouting orderlyRun hex).2.1 1 (sampleApply 2) 1 rfl⟩

def overlappingRun : List Action :=
  [.receive (sampleApply 1)] ++ statements 0 2 ++ [.receive (.api 0 "staging" false)] ++ statements 1 6

def failingRun : List Action :=
  [.receive (sampleApply 1)] ++ statements 0 2 ++ [.receive (sampleApply 2)] ++ statements 1 2 ++
    [.answer { create := fun _ => some "active apply exists" }] ++ statements 1 5 ++ [.answer {}] ++ statements 0 6

/-- The apply of the API notifies the pull request of the command. An apply of a command stays without an
observer because another command that failed has removed it. -/
theorem observers_crossed : (World.after sampleRouting overlappingRun).service.applies =
        [{ request := 1, plan := ⟨"users", "primary", "users", "staging"⟩, observer := some ⟨0, "app", 1⟩ }] ∧
      (World.after sampleRouting failingRun).service.applies =
        [{ request := 0, plan := ⟨"users", "primary", "users", "staging"⟩, observer := none }] ∧
      ((World.after sampleRouting failingRun).requests.map (isLive ·.2)) = [false, false] := by
  decide +kernel

end SchemaBot.Observers
