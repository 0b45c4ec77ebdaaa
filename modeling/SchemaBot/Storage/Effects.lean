import SchemaBot.Storage.Creation
import SchemaBot.Storage.StopGate

/-!
# What the calls do to the rows

The rows of the store that each call leaves as they are, said once for all calls (`Call.effect`).
-/

namespace SchemaBot

open Concurrent

/-! ## Rows that keep their identity -/

/-- The row keeps identity and lease, and its state unless `P` allows the new one. -/
structure RowShift (P : ApplyOperation → ApplyState → Prop) (o o' : ApplyOperation) : Prop where
  identity : o'.identity = o.identity
  leaseToken : o'.leaseToken = o.leaseToken
  state : o'.state = o.state ∨ P o o'.state

abbrev RowKept : ApplyOperation → ApplyOperation → Prop := RowShift fun _ _ => False

section
variable {P : ApplyOperation → ApplyState → Prop} {f : ApplyOperation → ApplyOperation}

theorem RowShift.refl (o : ApplyOperation) : RowShift P o o := ⟨rfl, rfl, .inl rfl⟩

theorem RowShift.mono {Q : ApplyOperation → ApplyState → Prop} {o o' : ApplyOperation}
    (h : RowShift P o o') (hPQ : P o o'.state → Q o o'.state) : RowShift Q o o' :=
  ⟨h.identity, h.leaseToken, h.state.imp_right hPQ⟩

theorem RowKept.trans {a b c : ApplyOperation} (h : RowKept a b) (h' : RowKept b c) : RowKept a c :=
  ⟨h'.identity.trans h.identity, h'.leaseToken.trans h.leaseToken,
    .inl ((h'.state.resolve_right id).trans (h.state.resolve_right id))⟩

theorem rowShift_update {p : ApplyOperation → Bool}
    {l : List ApplyOperation} (hf : ∀ o ∈ l, p o = true → RowShift P o (f o)) :
    List.Forall₂ (RowShift P) l (Table.update p f l) :=
  Table.forall₂_update hf fun o _ _ => .refl o

theorem rowShift_touch {now : Nat} {o : ApplyOperation}
    (h : RowShift P o (f o)) : RowShift P o (touch now f o) := by
  unfold touch
  split
  · exact .refl o
  · exact ⟨h.identity, h.leaseToken, h.state⟩

end

/-! ## Moves that add no row -/

/-- Rows keep their identities, and only an `active` apply may become non-terminal. -/
structure Store.Moves (active : Apply → Prop) (s t : Store) : Prop where
  operations : t.operations.map (·.identity) = s.operations.map (·.identity)
  applies : ∀ a' ∈ t.applies, ∃ a ∈ s.applies, a'.identity = a.identity ∧
    (a'.state.isTerminal = false → a.state.isTerminal = false ∨ active a)

abbrev Store.Quiet (s t : Store) : Prop := s.Moves (fun _ => False) t

section
variable {s t u : Store} {active : Apply → Prop} {n : Nat}

theorem Store.Moves.refl (s : Store) : s.Moves active s := ⟨rfl, fun a ha => ⟨a, ha, rfl, .inl⟩⟩

theorem Store.Moves.of_eq (ha : t.applies = s.applies)
    (ho : t.operations.map (·.identity) = s.operations.map (·.identity)) : s.Moves active t :=
  ⟨ho, by rw [ha]; exact fun a h => ⟨a, h, rfl, .inl⟩⟩

theorem Store.Moves.trans (hact : ∀ a a', a'.identity = a.identity → active a' → active a)
    (h : s.Moves active t) (h' : t.Moves active u) : s.Moves active u := by
  refine ⟨h'.operations.trans h.operations, fun a'' ha'' => ?_⟩
  obtain ⟨a', ha', hid', hst'⟩ := h'.applies a'' ha''
  obtain ⟨a, ha, hid, hst⟩ := h.applies a' ha'
  exact ⟨a, ha, hid'.trans hid, fun ht => (hst' ht).elim hst fun h => .inr (hact a a' hid h)⟩

theorem Store.Quiet.trans (h : s.Quiet t) (h' : t.Quiet u) : s.Quiet u :=
  Store.Moves.trans (fun _ _ _ => id) h h'

theorem Store.Moves.update_applies {p : Apply → Bool} {f : Apply → Apply}
    (hf : ∀ a ∈ s.applies, p a = true → (f a).identity = a.identity ∧
      ((f a).state.isTerminal = false → a.state.isTerminal = false ∨ active a)) :
    s.Moves active { s with applies := Table.update p f s.applies, nextToken := n } := by
  refine ⟨rfl, fun a' ha' => ?_⟩
  obtain ⟨a, ha, rfl⟩ := Table.mem_update.1 ha'
  refine ⟨a, ha, ?_⟩
  split
  · exact hf a ha ‹_›
  · exact ⟨rfl, .inl⟩

theorem Store.Moves.update_operations {p : ApplyOperation → Bool}
    {f : ApplyOperation → ApplyOperation} (hf : ∀ o, (f o).identity = o.identity) :
    s.Moves active { s with operations := Table.update p f s.operations, nextToken := n } :=
  .of_eq rfl (Table.map_update _ hf)

end

/-! ## Claims of operations -/

section
variable (s : Store) (op : ApplyOperation) (owner : String)

theorem Store.quiet_moveClaim (allowed : Store → Bool) {assign : Store → ApplyOperation → ApplyOperation}
    (h : ∀ o, (assign s o).identity = o.identity) : s.Quiet (s.moveClaim op owner allowed assign).1 ∧
      (s.moveClaim op owner allowed assign).1.controlRequests = s.controlRequests := by
  unfold moveClaim
  dsimp only
  split
  · exact ⟨.refl s, rfl⟩
  · exact ⟨.update_operations fun o => h _, rfl⟩

theorem Store.quiet_releaseClaim : s.Quiet (s.releaseClaim op owner).1 := .update_operations fun _ => rfl

theorem Store.quiet_consumeRetry : s.Quiet (s.consumeRetry op) :=
  Store.Quiet.trans (t := s.updateOperations (fun s r => r.id = op.id && s.parentRetryable r.applyId)
      fun s r => { r with attempt := r.attempt + 1, updatedAt := s.now })
    (.update_operations fun _ => rfl) (.update_applies fun _ _ _ => ⟨rfl, .inl⟩)

theorem Store.quiet_persistOperationClaim : s.Quiet (s.persistOperationClaim op owner).1 ∧
    (s.persistOperationClaim op owner).1.controlRequests = s.controlRequests := by
  unfold persistOperationClaim
  split
  · exact s.quiet_moveClaim op owner _ fun _ => rfl
  · exact s.quiet_moveClaim op owner _ fun _ => rfl
  · exact ⟨(s.quiet_releaseClaim op owner).trans (Store.quiet_consumeRetry _ op), rfl⟩
  · exact ⟨s.quiet_releaseClaim op owner, rfl⟩

theorem Store.quiet_persistCutoverClaim : s.Quiet (s.persistCutoverClaim op owner).1 ∧
    (s.persistCutoverClaim op owner).1.controlRequests = s.controlRequests := by
  unfold persistCutoverClaim
  split
  · exact s.quiet_moveClaim op owner _ fun _ => rfl
  · exact ⟨s.quiet_releaseClaim op owner, rfl⟩

end

/-! ## Retry counters -/

def Store.KeepsCounters (s t : Store) : Prop :=
  Table.Grows (fun a a' : Apply => a'.id = a.id ∧ a'.attempt = a.attempt) (·.attempt = 0) s.applies t.applies

theorem Store.KeepsCounters.refl (s : Store) : s.KeepsCounters s := Table.Grows.refl fun _ => ⟨rfl, rfl⟩

theorem Store.KeepsCounters.of_eq {s t : Store} (h : t.applies = s.applies) : s.KeepsCounters t := by
  unfold KeepsCounters
  rw [h]
  exact KeepsCounters.refl s

theorem Store.KeepsCounters.trans {s t u : Store} (h : s.KeepsCounters t) (h' : t.KeepsCounters u) :
    s.KeepsCounters u :=
  Table.Grows.trans h h' (fun _ _ _ hab hbc => ⟨hbc.1.trans hab.1, hbc.2.trans hab.2⟩)
    (fun _ _ ha hab => hab.2.trans ha) fun _ ha => ha

/-! ## Calls -/

def Call.mayActivate : Call → Bool
  | .create .. | .createWithTasksAndOperations .. | .createWithGroupedOperations .. | .update ..
  | .updateDerivedState .. | .findNextApply .. | .claimApplyByID ..
  | .findNextApplyForStopReconciliation .. => true
  | _ => false

def Call.background : Call → Bool
  | .create .. | .createWithTasksAndOperations .. | .createWithGroupedOperations ..
  | .findNextApplyOperation .. | .findNextApplyOperationCutover ..
  | .updateState .. | .markStarted .. | .markTerminal .. | .markFailed ..
  | .markPendingStoppedByApply .. | .expireRetryable => false
  | _ => true

def Call.claims : Call → Bool
  | .findNextApply .. | .claimApplyByID .. | .findNextApplyForStopReconciliation ..
  | .findNextApplyOperation .. | .findNextApplyOperationCutover .. => true
  | _ => false

def Call.keepsBudget : Call → Bool
  | .update .. => false
  | .create a | .createWithTasksAndOperations a .. | .createWithGroupedOperations a .. => a.attempt = 0
  | _ => true

/-- The calls that write to `apply_control_requests`. -/
def Call.settles : Call → Bool
  | .requestPending .. | .completePending .. | .failPending .. | .findNextApply .. | .claimApplyByID ..
  | .findNextApplyForStopReconciliation .. => true
  | _ => false

/-- What a statement of the call does to the rows. -/
structure Call.Effect (c : Call) (s t : Store) : Prop where
  quiet : c.mayActivate = false → s.Quiet t
  rows : c.background = true → List.Forall₂ RowKept s.operations t.operations
  counters : c.claims = false → c.keepsBudget = true → s.KeepsCounters t
  controls : c.settles = false → t.controlRequests = s.controlRequests

section
variable {c : Call} {s t : Store}

theorem rowKept_of_eq (h : t.operations = s.operations) : List.Forall₂ RowKept s.operations t.operations := by
  rw [h]; exact List.forall₂_same.2 fun o _ => .refl o

theorem Call.Effect.of_eq (ha : t.applies = s.applies) (ho : t.operations = s.operations)
    (hc : c.settles = false → t.controlRequests = s.controlRequests) : c.Effect s t :=
  ⟨fun _ => .of_eq ha (by rw [ho]), fun _ => rowKept_of_eq ho, fun _ _ => .of_eq ha, hc⟩

theorem Call.effect_execApplies {p : Store → Apply → Bool} {f : Store → Apply → Apply}
    (hf : ∀ s a, (f s a).identity = a.identity ∧ (f s a).attempt = a.attempt)
    (hst : c.mayActivate = false → ∀ s a, (f s a).state = a.state) : Method.Only c.Effect (execApplies p f) :=
  .step fun s =>
    { quiet := fun hc => .update_applies fun a _ _ => ⟨(hf s a).1, fun h => .inl (hst hc s a ▸ h)⟩
      rows := fun _ => rowKept_of_eq rfl
      counters := fun _ _ => .update (fun _ => ⟨rfl, rfl⟩) fun a _ _ =>
        ⟨Apply.id_eq_of_identity (hf s a).1, (hf s a).2⟩
      controls := fun _ => rfl }

theorem Call.effect_execOperations {p : Store → ApplyOperation → Bool} {f : Store → ApplyOperation → ApplyOperation}
    (hf : ∀ s o, RowShift (fun _ _ => ¬ c.background = true) o (f s o)) : Method.Only c.Effect (execOperations p f) :=
  .step fun s =>
    { quiet := fun _ => .update_operations fun o => (hf s o).identity
      rows := fun hc => rowShift_update fun o _ _ => (hf s o).mono fun h => h hc
      counters := fun _ _ => .of_eq rfl
      controls := fun _ => rfl }

theorem Call.effect_createWithRows {a : Apply} {newDeployments : List String} {ops : List ApplyOperation}
    {writeRows : Store → Nat → Except StoreError Store} (hm : c.mayActivate = true) (hb : c.background = false)
    (ha : c.keepsBudget = true → a.attempt = 0)
    (h : ∀ s, (∃ e, Method.call (createWithRows a newDeployments writeRows) s = (s, .error e)) ∨
      ∃ t, Method.call (createWithRows a newDeployments writeRows) s = (t, .ok s.nextApply) ∧
        s.Created a ops t) : Method.Only c.Effect (createWithRows a newDeployments writeRows) := by
  refine .transaction (fun _ => .of_eq rfl rfl fun _ => rfl) fun s t id _ hf => ⟨?_, trivial⟩
  have hcall : Method.call (createWithRows a newDeployments writeRows) s = (t, .ok id) := by
    rw [createWithRows, Method.call_transaction, hf]
  rcases h s with ⟨e, he⟩ | ⟨t', he, hcreated⟩ <;> rw [hcall] at he <;> cases he
  refine ⟨by simp [hm], by simp [hb], fun _ hbudget => ?_, fun _ => hcreated.controlRequests⟩
  unfold Store.KeepsCounters
  rw [hcreated.applies]
  refine .append (fun _ => ⟨rfl, rfl⟩) fun r hr => ?_
  rw [List.mem_singleton.1 hr]
  exact ha hbudget

theorem Call.effect (c : Call) : Method.Only c.Effect c.method := by
  have hrefl (s : Store) : c.Effect s s := .of_eq rfl rfl fun _ => rfl
  cases c with
  | tick => exact .step fun _ => .of_eq rfl rfl fun _ => rfl
  | create a =>
    exact .discard (effect_createWithRows rfl rfl of_decide_eq_true fun s => created_create s a)
  | createWithTasksAndOperations a tasks ops =>
    exact .discard (effect_createWithRows rfl rfl of_decide_eq_true fun s =>
      created_createWithTasksAndOperations s a tasks ops)
  | createWithGroupedOperations a groups =>
    exact .discard (effect_createWithRows rfl rfl of_decide_eq_true fun s =>
      created_createWithGroupedOperations s a groups)
  | update =>
    refine always_update hrefl fun lease target => .transaction hrefl fun s t _ _ hf => ⟨?_, trivial⟩
    obtain ⟨_, -, hf⟩ := bind_eq_ok hf
    obtain ⟨_, -, hf⟩ := bind_eq_ok hf
    cases hf
    exact ⟨nofun, fun _ => rowKept_of_eq rfl, nofun, fun _ => rfl⟩
  | updateDerivedState =>
    exact .discard (always_updateDerivedState hrefl fun _ => effect_execApplies (fun _ _ => ⟨rfl, rfl⟩) nofun)
  | setRevertSkipped =>
    exact .bind (effect_execApplies (fun _ _ => ⟨rfl, rfl⟩) fun _ _ _ => rfl) fun _ => .pure _
  | heartbeat =>
    exact always_heartbeat hrefl fun _ => effect_execApplies (fun _ _ => ⟨rfl, rfl⟩) fun _ _ _ => rfl
  | expireRetryable =>
    refine .discard (.transaction hrefl fun s t _ _ hf => ⟨?_, trivial⟩)
    cases hf
    refine ⟨fun _ => ⟨Table.map_update _ fun _ => rfl, fun a' ha' => ?_⟩, nofun,
      fun _ _ => .update (fun _ => ⟨rfl, rfl⟩) fun _ _ _ => ⟨rfl, rfl⟩, fun _ => rfl⟩
    obtain ⟨a, ha, rfl⟩ := Table.mem_update.1 ha'
    refine ⟨a, ha, ?_⟩
    split
    · exact ⟨rfl, fun h => nomatch h⟩
    · exact ⟨rfl, .inl⟩
  | findNextApply | claimApplyByID | findNextApplyForStopReconciliation =>
    exact .discard (always_claimApply hrefl fun a => .transaction hrefl fun s t _ _ h =>
      ⟨⟨nofun, fun _ => rowKept_of_eq (Store.persistApplyClaim_operations h), nofun, nofun⟩, trivial⟩)
  | updateState | markStarted | markTerminal | markFailed =>
    exact always_writeOperation hrefl fun _ => effect_execOperations fun _ _ =>
      rowShift_touch ⟨rfl, rfl, .inr nofun⟩
  | saveEngineResumeState =>
    refine Method.Always.ite (fun _ => .throw _) fun _ => always_writeOperation hrefl fun _ =>
      effect_execOperations fun _ _ => rowShift_touch ⟨rfl, rfl, .inl rfl⟩
  | heartbeatOperation =>
    exact always_writeOperation hrefl fun _ => effect_execOperations fun _ _ => ⟨rfl, rfl, .inl rfl⟩
  | markPendingStoppedByApply =>
    exact .discard (always_markPendingStoppedByApply hrefl fun _ => effect_execOperations fun _ _ =>
      ⟨rfl, rfl, .inr nofun⟩)
  | findNextApplyOperation owner =>
    refine .discard (always_claimOperation hrefl fun op => .step fun s => ?_)
    obtain ⟨hquiet, hcontrols⟩ := s.quiet_persistOperationClaim op owner
    exact ⟨fun _ => hquiet, nofun, nofun, fun _ => hcontrols⟩
  | findNextApplyOperationCutover owner =>
    refine .discard (always_claimOperation hrefl fun op => .step fun s => ?_)
    obtain ⟨hquiet, hcontrols⟩ := s.quiet_persistCutoverClaim op owner
    exact ⟨fun _ => hquiet, nofun, nofun, fun _ => hcontrols⟩
  | updateTask => exact always_updateTask hrefl fun _ => .step fun _ => .of_eq rfl rfl fun _ => rfl
  | upsertShardProgress =>
    refine always_upsertShardProgress hrefl (fun _ _ => .step fun _ => .of_eq rfl rfl fun _ => rfl)
      fun s t id _ h => ⟨?_, trivial⟩
    obtain ⟨hs, ho, -, -⟩ := Store.insertTask_ok h
    exact .of_eq hs.applies ho fun _ => hs.controlRequests
  | requestPending =>
    refine .discard (.step fun s => ?_)
    split
    · split <;> exact .of_eq rfl rfl nofun
    · exact .of_eq rfl rfl nofun
  | completePending | failPending =>
    exact always_settlePending hrefl fun _ => .step fun _ => .of_eq rfl rfl nofun

end

end SchemaBot
