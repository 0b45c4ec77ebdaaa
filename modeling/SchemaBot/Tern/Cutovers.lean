import SchemaBot.Tern.Remote
import SchemaBot.Tern.Completion
import SchemaBot.Tern.LocalApply

/-!
# Cutovers that are not accepted

Both clients process a pending cutover request in the same order.
-/

namespace SchemaBot

open Concurrent

/-! ## Readiness of an apply for a request -/

/-- The answers of `cutoverRequestReadiness`. -/
inductive CutoverRequestReadiness
  | notReady | ready | alreadyInProgress | recovering
  deriving DecidableEq

/-- What `cutoverRequestReadiness` makes of the state that a data plane reports. -/
def remoteCutoverReadiness (reported : ProtoState) : CutoverRequestReadiness :=
  match protoStateToStorage reported with
  | some .waitingForCutover | some .cuttingOver => .ready
  | some .recovering => .recovering
  | _ => .notReady

/-- `cutoverRequestReadiness`. For an apply of one operation with a remote id, `probe` is the answer of its data plane;
it is not asked about any other apply. -/
def Store.cutoverRequestReadiness (s : Store) (probe : Option (Except RpcError ProgressResponse)) (apply : Apply) :
    Except RpcError CutoverRequestReadiness :=
  if apply.state = .waitingForCutover then .ok .ready
  else if apply.state = .cuttingOver then .ok .alreadyInProgress
  else if apply.state = .recovering then .ok .recovering
  else match probe with
    | some (.error e) => .error e
    | some (.ok answer) => .ok (remoteCutoverReadiness answer.state)
    | none =>
      if !apply.state.isRunning then .ok .notReady
      else if (s.getByApplyID apply.id).any (·.state = .cuttingOver) then .ok .alreadyInProgress
      else if (s.getByApplyID apply.id).any (·.state = .waitingForCutover) then .ok .ready
      else .ok .notReady

def Store.CutoverEligible (s : Store) (probe : Option (Except RpcError ProgressResponse)) (id : Nat) : Prop :=
  ∃ row ∈ s.applies, row.id = id ∧ s.cutoverRequestReadiness probe row = .ok .ready

structure Store.StatesKept (s t : Store) : Prop where
  applies : t.applies.map (fun a => (a.id, a.state)) = s.applies.map fun a => (a.id, a.state)
  tasks : t.tasks.map (fun k => (k.id, k.applyId, k.shard, k.state)) =
    s.tasks.map fun k => (k.id, k.applyId, k.shard, k.state)

/-! ## The attempts -/

structure Store.CutoverDue (s : Store) (apply : Apply) : Prop where
  pending : (s.getPending apply.id .cutover).isSome = true
  ready : Method.call (applyReadyForCutoverRequest apply) s = (s, .ok true)
  noStop : s.hasPending apply.id .stop = false

/-- One attempt at a cutover that is not accepted, from the store before it to the store after it. The apply could be
marked; then the engine, through `cutover`, or the data plane did not take the cutover. -/
inductive FailedCutover (ctx : Ctx) (apply : Apply) (s t : Store) : Prop
  | engine (host : Host) (w marked : Site) (a : Apply) (message : String) (before : w.store = s)
      (mark : Method.call (markApplyCuttingOverForControlRequest ctx apply) w = (marked, .ok a))
      (refused : (Method.call (cutover host a) marked.store).2 = .ok (some message))
      (after : (Method.call (processPendingCutoverControlRequest host ctx apply) w).1.store = t)
  | rpc (δ : Type) (plane : DataPlane δ) (d : RemoteDrive) (w : RemoteSite δ) (marked : Store) (a : Apply)
      (drives : d.apply = apply) (dispatched : d.remoteApplyID ≠ "") (before : w.store = s)
      (mark : Method.call (GRPCClient.markApplyCuttingOver ctx apply) s = (marked, .ok a))
      (refused : (plane.cutover d.remoteApplyID w.data).2 ≠ .accepted)
      (after : (Method.call (GRPCClient.processPendingCutover plane ctx d) w).1.store = t)

section
variable {ctx : Ctx} {apply a : Apply} {s t u : Store} {id : Nat} {row : Apply}

theorem call_inStore {δ α : Type} (m : StoreMethod α) (w : RemoteSite δ) :
    Method.call (inStore m) w = ({ w with store := (Method.call m w.store).1 }, (Method.call m w.store).2) :=
  Method.call_zoom (RemoteSite.storePart δ) m w

theorem Store.CutoverDue.state (h : s.CutoverDue apply) :
    apply.state = .waitingForCutover ∨ apply.state = .cuttingOver ∨ apply.state = .running := by
  by_cases hready : apply.state = .waitingForCutover ∨ apply.state = .cuttingOver
  · exact hready.imp_right .inl
  by_cases hrunning : apply.state = .running
  · exact .inr (.inr hrunning)
  have hcall := h.ready
  unfold applyReadyForCutoverRequest at hcall
  rw [if_neg hready, if_pos hrunning] at hcall
  cases hcall

theorem Store.CutoverDue.open_ (h : s.CutoverDue apply) :
    cutoverRequestResolvedByApplyState apply.state = false ∧ apply.state.isTerminal = false ∧
      apply.state ≠ .recovering := by
  rcases h.state with hst | hst | hst <;> rw [hst] <;> exact ⟨rfl, rfl, nofun⟩

theorem mark_store {w w' : Site}
    (h : Method.call (markApplyCuttingOverForControlRequest ctx apply) w = (w', .ok a)) :
    Method.call (GRPCClient.markApplyCuttingOver ctx apply) w.store = (w'.store, .ok a) := by
  unfold markApplyCuttingOverForControlRequest at h
  unfold GRPCClient.markApplyCuttingOver
  by_cases hst : apply.state = .waitingForCutover ∨ apply.state = .running
  · rw [if_pos hst] at h ⊢
    rw [Method.call_bind, call_updateParent] at h
    rw [Method.call_bind]
    generalize Method.call (update ctx { apply with state := .cuttingOver }) w.store = r at h ⊢
    obtain ⟨s', _ | _⟩ := r <;> cases h
    rfl
  · rw [if_neg hst] at h ⊢
    cases h
    rfl

theorem idle_failPending (ctx : Ctx) (id : Nat) (operation : ControlOperation) (message : String) (s : Store) :
    s.Idle (Method.call (failPending ctx id operation message) s).1 :=
  (Method.Ensures.call Store.Idle.refl
    (fun _ _ _ h h' => ⟨h'.tasks.trans h.tasks, h'.operations.trans h.operations, h'.applies.trans h.applies⟩)
    idle_settlePending trivial).1

theorem call_cutover (host : Host) (a : Apply) (s : Store) :
    Method.call (cutover host a) s = (s, (Method.call (cutover host a) s).2) := by
  exact Prod.ext (call_readOnly (always_cutover fun _ => rfl) s) rfl

theorem FailedCutover.marked (hdue : s.CutoverDue apply) (h : FailedCutover ctx apply s t) :
    ∃ u a, Method.call (GRPCClient.markApplyCuttingOver ctx apply) s = (u, .ok a) ∧ u.Idle t := by
  obtain ⟨request, hpending⟩ := Option.isSome_iff_exists.1 hdue.pending
  obtain ⟨hresolved, hterminal, hrecovering⟩ := hdue.open_
  cases h with
  | engine host w marked a message before mark refused after =>
    subst before
    refine ⟨marked.store, a, mark_store mark, ?_⟩
    have hread : ∀ {α : Type} (f : Store → α), Method.call (onStore (Method.read f)) w = (w, .ok (f w.store)) :=
      fun f => call_onStore _ w
    have hready : Method.call (onStore (applyReadyForCutoverRequest apply)) w = (w, .ok true) := by
      rw [call_onStore, hdue.ready]
    have hcut : Method.call (onStore (cutover host a)) marked = (marked, .ok (some message)) := by
      rw [call_onStore, call_cutover, refused]
    unfold processPendingCutoverControlRequest at after
    rw [Method.call_bind_ok (hread _), hpending] at after
    rw [hresolved, hterminal, if_neg nofun, if_neg nofun, if_neg hrecovering, Method.call_bind_ok hready,
      if_neg nofun, Method.call_bind_ok (hread _), hdue.noStop, if_neg nofun, Method.call_bind_ok mark,
      Method.call_bind_ok hcut] at after
    rw [Method.call_bind_throw, call_onStore] at after
    exact after ▸ idle_failPending ctx a.id .cutover message marked.store
  | rpc δ plane d w marked a drives dispatched before mark refused after =>
    subst before drives
    refine ⟨marked, a, mark, ?_⟩
    have hread : ∀ {α : Type} (f : Store → α), Method.call (inStore (Method.read f)) w = (w, .ok (f w.store)) :=
      fun f => call_inStore _ w
    have hready : Method.call (inStore (applyReadyForCutoverRequest d.apply)) w = (w, .ok true) := by
      rw [call_inStore, hdue.ready]
    have hmark : Method.call (inStore (GRPCClient.markApplyCuttingOver ctx d.apply)) w =
        ({ w with store := marked }, .ok a) := by
      rw [call_inStore, mark]
    unfold GRPCClient.processPendingCutover at after
    rw [Method.call_bind_ok (hread _), hpending] at after
    dsimp only at after
    rw [hresolved, hterminal, if_neg nofun, if_neg nofun, if_neg hrecovering, Method.call_bind_ok hready,
      if_neg nofun, if_neg dispatched, Method.call_bind_ok (hread _), hdue.noStop, if_neg nofun,
      Method.call_bind_ok hmark, GRPCClient.control, Method.call_bind_ok (Method.call_write _ _)] at after
    dsimp only at after
    generalize plane.cutover d.remoteApplyID w.data = reply at after refused
    obtain ⟨data, reply⟩ := reply
    cases reply with
    | accepted => exact absurd rfl refused
    | failed message =>
      rw [Method.call_bind_throw, call_inStore] at after
      exact after ▸ idle_failPending ctx a.id .cutover ("remote cutover failed: " ++ message) marked
    | rejected message =>
      rw [Method.call_bind_throw, call_inStore] at after
      exact after ▸ idle_failPending ctx a.id .cutover (if message = "" then "not accepted" else message) marked

theorem update_writes (hkeys : Table.KeysUnique (·.id) s.applies) (hrow : row ∈ s.applies)
    (hid : row.id = a.id) (h : Method.call (update ctx a) s = (t, .ok ())) :
    ∃ lease, t = s.updateApplies (fun _ => updateRow lease a) (assignUpdate a) ∧ updateRow lease a row = true := by
  rcases call_update ctx a s with ⟨e, he⟩ | ⟨lease, hlease, -, hconfirm, he⟩
  · cases he.symm.trans h
  · cases he.symm.trans h
    refine ⟨lease, rfl, ?_⟩
    rcases Store.confirmUpdate_ok hlease hconfirm with rfl | ⟨held, hheld, hwritten⟩
    · simp [updateRow, leasePredicate, hid]
    · have hid' : held.id = a.id := by
        simp only [updateRow, Bool.and_eq_true, decide_eq_true_eq] at hwritten
        exact hwritten.1
      exact hkeys.eq hrow hheld (hid.trans hid'.symm) ▸ hwritten

theorem mark_keeps_iff (hdue : s.CutoverDue apply) (hkeys : Table.KeysUnique (·.id) s.applies)
    (hrow : row ∈ s.applies) (hid : row.id = apply.id)
    (h : Method.call (GRPCClient.markApplyCuttingOver ctx apply) s = (u, .ok a)) :
    s.StatesKept u ↔ apply.state = .cuttingOver ∨ row.state = .cuttingOver := by
  unfold GRPCClient.markApplyCuttingOver at h
  by_cases hcut : apply.state = .cuttingOver
  · rw [hcut, if_neg (by simp)] at h
    cases h
    exact ⟨fun _ => .inl hcut, fun _ => ⟨rfl, rfl⟩⟩
  have hst : apply.state = .waitingForCutover ∨ apply.state = .running := by
    rcases hdue.state with hst | hst | hst
    · exact .inl hst
    · exact absurd hst hcut
    · exact .inr hst
  rw [if_pos hst, Method.call_bind] at h
  cases hwrite : Method.call (update ctx { apply with state := .cuttingOver }) s with
  | mk v r =>
    rw [hwrite] at h
    cases r with
    | error e => cases h
    | ok _ =>
      cases h
      have hid' : row.id = ({ apply with state := .cuttingOver } : Apply).id := hid
      obtain ⟨lease, rfl, hwritten⟩ := update_writes hkeys hrow hid' hwrite
      constructor
      · intro hkept
        right
        have hmap := hkept.applies
        simp only [Store.updateApplies, Table.update, List.map_map, List.map_inj_left] at hmap
        have hpair := hmap row hrow
        simp only [Function.comp_apply, if_pos hwritten, assignUpdate, Prod.mk.injEq, true_and] at hpair
        exact hpair.symm
      · rintro (h | hstored)
        · exact absurd h hcut
        refine ⟨?_, rfl⟩
        simp only [Store.updateApplies, Table.update, List.map_map, List.map_inj_left]
        intro r hr
        by_cases hupdated : updateRow lease { apply with state := .cuttingOver } r = true
        · have heq : r = row := by
            refine hkeys.eq hr hrow ?_
            simp only [updateRow, Bool.and_eq_true, decide_eq_true_eq] at hupdated
            exact hupdated.1.trans hid.symm
          subst heq
          simp [hupdated, assignUpdate, hstored]
        · simp [hupdated]

theorem Store.StatesKept.eligible (h : s.StatesKept t) {probe : Option (Except RpcError ProgressResponse)}
    (he : s.CutoverEligible probe id) : t.CutoverEligible probe id := by
  obtain ⟨row, hrow, hid, hready⟩ := he
  have hmem : (row.id, row.state) ∈ t.applies.map fun a => (a.id, a.state) := by
    rw [h.applies]
    exact List.mem_map.2 ⟨row, hrow, rfl⟩
  obtain ⟨row', hrow', heq⟩ := List.mem_map.1 hmem
  obtain ⟨hid', hstate⟩ := Prod.mk.inj heq
  have hany : ∀ st : TaskState, ((t.getByApplyID row.id).any fun k => decide (k.state = st)) =
      (s.getByApplyID row.id).any fun k => decide (k.state = st) := by
    intro st
    have hfold : ∀ v : Store, ((v.getByApplyID row.id).any fun k => decide (k.state = st)) =
        (v.tasks.map fun k => (k.id, k.applyId, k.shard, k.state)).any
          fun k => (k.2.1 = row.id && k.2.2.1 = "") && k.2.2.2 = st := by
      intro v
      simp only [Store.getByApplyID, List.any_filter, List.any_map, Function.comp_def]
    rw [hfold, hfold, h.tasks]
  refine ⟨row', hrow', hid'.trans hid, ?_⟩
  unfold Store.cutoverRequestReadiness at hready ⊢
  rw [hstate, hid', hany, hany]
  exact hready

end

/-- After a cutover that the engine or the data plane has not accepted, the stored states are those before the attempt,
and the apply can be asked for a cutover if it could, exactly where the apply was already `cutting_over`. -/
theorem failed_cutover_keeps_states_iff {ctx : Ctx} {apply row : Apply} {s t : Store} (hdue : s.CutoverDue apply)
    (hkeys : Table.KeysUnique (·.id) s.applies) (hrow : row ∈ s.applies) (hid : row.id = apply.id)
    (hfail : FailedCutover ctx apply s t) :
    (s.StatesKept t ∧ ∀ probe, s.CutoverEligible probe apply.id → t.CutoverEligible probe apply.id) ↔
      apply.state = .cuttingOver ∨ row.state = .cuttingOver := by
  obtain ⟨u, a, hmark, hidle⟩ := hfail.marked hdue
  have hkept : s.StatesKept t ↔ s.StatesKept u := by
    constructor
    · rintro ⟨happlies, htasks⟩
      rw [hidle.applies] at happlies
      rw [hidle.tasks] at htasks
      exact ⟨happlies, htasks⟩
    · rintro ⟨happlies, htasks⟩
      rw [← hidle.applies] at happlies
      rw [← hidle.tasks] at htasks
      exact ⟨happlies, htasks⟩
  rw [← mark_keeps_iff hdue hkeys hrow hid hmark, ← hkept]
  exact ⟨fun h => h.1, fun h => ⟨h, fun _ => h.eligible⟩⟩

namespace Sample

def cutoverApply (st : ApplyState) : Apply :=
  { id := 1, applyIdentifier := "apply-1", externalId := "remote-1", state := st }

def cutoverStore (st : ApplyState) : Store where
  applies := [cutoverApply st]
  tasks := [{ id := 1, taskIdentifier := "task-1", applyId := 1, tableName := "users", state := .waitingForCutover }]
  controlRequests := [{ id := 1, applyId := 1, operation := .cutover, status := .pending }]

def failingHost : Host where
  database := "app"
  databaseType := databaseTypeMySQL
  engineApply _ := ([], .accepted none false)
  engineCutover _ := .failed "lock wait timeout"
  progress _ := []
  plan _ := none

def failingPlane : DataPlane Unit where
  apply _ data := (data, .ok .noResponse)
  progress _ _ := .ok { state := .waitingForCutover }
  stop _ data := (data, .accepted)
  start _ data := (data, .accepted)
  cutover _ data := (data, .failed "lock wait timeout")

def engineCutoverEnd (st : ApplyState) : Store :=
  (Method.call (processPendingCutoverControlRequest failingHost {} (cutoverApply st))
    { store := cutoverStore st }).1.store

def rpcCutoverEnd (st : ApplyState) : Store :=
  (Method.call (GRPCClient.processPendingCutover failingPlane {} { apply := cutoverApply st, scope := {} })
    { store := cutoverStore st, data := () }).1.store

theorem cutoverStore_due {st : ApplyState} (h : st = .waitingForCutover ∨ st = .cuttingOver) :
    (cutoverStore st).CutoverDue (cutoverApply st) := by
  rcases h with rfl | rfl <;> exact ⟨rfl, rfl, rfl⟩

end Sample

open Sample in
/-- Both clients leave an apply that waited for its cutover marked: it could be asked for a cutover before the attempt,
and after it the answer is that one is in progress. -/
theorem failed_cutover_marks_waiting_apply :
    (FailedCutover {} (cutoverApply .waitingForCutover) (cutoverStore .waitingForCutover)
        (engineCutoverEnd .waitingForCutover) ∧
      FailedCutover {} (cutoverApply .waitingForCutover) (cutoverStore .waitingForCutover)
        (rpcCutoverEnd .waitingForCutover)) ∧
    (cutoverStore .waitingForCutover).CutoverEligible none 1 ∧
    ∀ t ∈ [engineCutoverEnd .waitingForCutover, rpcCutoverEnd .waitingForCutover],
      t.applies.map (·.state) = [.cuttingOver] ∧ t.hasPending 1 .cutover = false ∧
        t.applies.map (t.cutoverRequestReadiness none) = [.ok .alreadyInProgress] := by
  refine ⟨⟨?_, ?_⟩, ?_, ?_⟩
  · exact .engine failingHost { store := cutoverStore .waitingForCutover } _ _ _ rfl rfl rfl rfl
  · exact .rpc Unit failingPlane { apply := cutoverApply .waitingForCutover, scope := {} }
      { store := cutoverStore .waitingForCutover, data := () } _ _ rfl (by decide) rfl rfl nofun rfl
  · exact ⟨_, .head _, rfl, rfl⟩
  · decide +kernel

open Sample in
/-- The request of an apply that is already cutting over fails and changes no state. -/
theorem failed_cutover_keeps_cutting_over : (cutoverStore .cuttingOver).StatesKept (rpcCutoverEnd .cuttingOver) ∧
      ∀ probe, (cutoverStore .cuttingOver).CutoverEligible probe 1 →
        (rpcCutoverEnd .cuttingOver).CutoverEligible probe 1 := by
  have hkeys : Table.KeysUnique (·.id) (cutoverStore .cuttingOver).applies := List.nodup_singleton 1
  have hfail : FailedCutover {} (cutoverApply .cuttingOver) (cutoverStore .cuttingOver)
      (rpcCutoverEnd .cuttingOver) :=
    .rpc Unit failingPlane { apply := cutoverApply .cuttingOver, scope := {} }
      { store := cutoverStore .cuttingOver, data := () } _ _ rfl (by decide) rfl rfl nofun rfl
  exact (failed_cutover_keeps_states_iff (cutoverStore_due (.inr rfl)) hkeys (.head _) rfl hfail).2 (.inl rfl)

end SchemaBot
