import SchemaBot.Api.StopCompletion
import SchemaBot.Lib.Reports

/-!
# Starts and the work in flight

The start handlers of `pkg/api/control_handlers.go` next to everything else the service does, one statement at a
time.
-/

namespace SchemaBot

open Concurrent

/-! ## The system -/

def Store.inFlight (s : Store) (applyId : Nat) : Bool :=
  (s.operations.any fun o => o.applyId = applyId && o.state.inFlight) ||
    s.tasks.any fun k => k.applyId = applyId && k.state.toApply.inFlight

/-- A start of this apply may write it: a stored state that is running counts as lagging behind stopped
tasks, and any open state counts as lagging behind a remote data plane that says stopped. -/
def startMayWrite (apply : Apply) (remote : Option RemoteProgress) : Bool :=
  apply.state.isRunning ||
    ((apply.state = .pending || apply.state = .waitingForDeploy) && remote.isSome &&
      apply.externalId ≠ "")

structure StartPass where
  applyId : Nat
  mayWrite : Bool
  rest : Pass

def StartPass.underWay (p : StartPass) : Bool :=
  match p.rest with
  | .ret _ => false
  | .stmt _ _ => true

structure StartDesk where
  store : Store := {}
  starts : List StartPass := []
  others : List Pass := []

inductive StartAction
  | receive (applyId : Nat) (caller : String) (remote : Option RemoteProgress)
  | call (c : Call)
  | advance (n : Nat)
  | advanceOther (n : Nat)

section
variable (codec : MetadataCodec)

def StartDesk.step (w : StartDesk) : StartAction → StartDesk
  | .receive applyId caller remote =>
    match w.store.getApply applyId with
    | none => w
    | some apply =>
      { w with starts := w.starts ++ [⟨apply.id, startMayWrite apply remote,
          (discard (executeStartForApply codec apply caller remote) : StoreMethod Unit).run⟩] }
  | .call c => { w with others := w.others ++ [c.method.run] }
  | .advance n =>
    match w.starts[n]? with
    | none => w
    | some p =>
      { w with
        store := (p.rest.next w.store).1
        starts := w.starts.set n { p with rest := (p.rest.next w.store).2 } }
  | .advanceOther n =>
    match w.others[n]? with
    | none => w
    | some p =>
      { w with store := (p.next w.store).1, others := w.others.set n (p.next w.store).2 }

/-- The step leads a start into writing an apply with work in flight: the start reads it in that state,
or someone else puts work in flight while the start is under way. -/
def StartDesk.misleads (w : StartDesk) : StartAction → Bool
  | .receive applyId _ remote =>
    (w.store.getApply applyId).any fun apply => startMayWrite apply remote && w.store.inFlight apply.id
  | .advanceOther n =>
    w.starts.any fun p => p.mayWrite && p.underWay && !w.store.inFlight p.applyId &&
      (w.step codec (.advanceOther n)).store.inFlight p.applyId
  | _ => false

def StartDesk.SparesWork (w : StartDesk) (a : StartAction) : Prop :=
  ∀ n, a = .advance n → ∀ x ∈ w.store.applies.zip (w.step codec a).store.applies,
    x.1.state.isRunning = true → x.2.state = .stopped → w.store.inFlight x.1.id = false

end

/-! ## The statements of a start -/

structure Store.StartMove (applyId : Nat) (mayWrite : Bool) (s t : Store) : Prop where
  operations : t.operations = s.operations
  tasks : t.tasks = s.tasks
  applies : List.Forall₂ (fun a a' => a' = a ∨ (mayWrite = true ∧ a.id = applyId)) s.applies t.applies

section
variable {applyId : Nat} {mayWrite : Bool} {s t : Store}

theorem Store.StartMove.of_eq (ho : t.operations = s.operations) (hk : t.tasks = s.tasks)
    (ha : t.applies = s.applies) : Store.StartMove applyId mayWrite s t :=
  ⟨ho, hk, by rw [ha]; exact List.forall₂_same.2 fun _ _ => .inl rfl⟩

theorem Store.StartMove.refl (s : Store) : Store.StartMove applyId mayWrite s s := .of_eq rfl rfl rfl

theorem Store.StartMove.inFlight (h : Store.StartMove applyId mayWrite s t) (id : Nat) :
    t.inFlight id = s.inFlight id := by
  unfold Store.inFlight
  rw [h.operations, h.tasks]

theorem startMove_update (ctx : Ctx) (apply : Apply) (hw : mayWrite = true) (hid : apply.id = applyId) :
    Method.Only (Store.StartMove applyId mayWrite) (update ctx apply) := by
  refine always_update .refl fun lease target => .transaction .refl fun s t _ _ h => ⟨?_, trivial⟩
  obtain ⟨_, -, h⟩ := bind_eq_ok h
  obtain ⟨_, -, h⟩ := bind_eq_ok h
  cases h
  refine ⟨rfl, rfl, Table.forall₂_update (fun a _ hp => .inr ⟨hw, ?_⟩) fun _ _ _ => .inl rfl⟩
  simp only [updateRow, Bool.and_eq_true, decide_eq_true_eq] at hp
  exact hp.1.trans hid

theorem startMove_completePending (ctx : Ctx) (id : Nat) (operation : ControlOperation) :
    Method.Only (Store.StartMove applyId mayWrite) (completePending ctx id operation) :=
  always_settlePending .refl fun _ => .step fun _ => .of_eq rfl rfl rfl

theorem startMove_requestPending (id : Nat) (operation : ControlOperation)
    (requestedBy metadata : String) : Method.Only (Store.StartMove applyId mayWrite)
      (requestPending id operation requestedBy metadata) := by
  refine .step fun s => ?_
  split
  · split
    · exact .refl s
    · exact .of_eq rfl rfl rfl
  · exact .of_eq rfl rfl rfl

theorem startMove_createControlRequest (codec : MetadataCodec) (id : Nat) (operation : ControlOperation)
    (caller : String) (count skippedCount : Nat) (fresh : ResponseStatus) :
    Method.Only (Store.StartMove applyId mayWrite)
      (createControlRequest codec id operation caller count skippedCount fresh) := by
  refine .bind (startMove_requestPending _ _ _ _) fun r => ?_
  obtain ⟨cr, alreadyPending⟩ := r
  dsimp only
  split
  · exact .bind (.lift _) fun _ => .pure _
  · exact .pure _

end

section
variable {apply : Apply} {remote : Option RemoteProgress}

theorem startMayWrite_of_remote (hv : validateStartRequestState apply = .ok ())
    (hst : stopRequestCompletedByApplyState apply.state = false) (hr : remote.isSome = true)
    (he : apply.externalId ≠ "") : startMayWrite apply remote = true := by
  unfold validateStartRequestState at hv
  split at hv
  · cases hv
  · next hmem =>
    simp only [not_not, List.mem_cons] at hmem
    rcases hmem with h | h | h | h | h <;>
      simp_all [startMayWrite, ApplyState.isRunning, stopRequestCompletedByApplyState]

theorem startMove_completeResolvedStop (hv : validateStartRequestState apply = .ok ()) :
    Method.Gives (Store.StartMove apply.id (startMayWrite apply remote))
      (fun a => a.id = apply.id ∧ (a = apply ∨ a.state = .stopped))
      (completeResolvedStopBeforeStart remote apply) := by
  have hsame : ∀ {m : StoreMethod Apply}, m = pure apply →
      Method.Gives (Store.StartMove apply.id (startMayWrite apply remote))
        (fun a => a.id = apply.id ∧ (a = apply ∨ a.state = .stopped)) m := by
    rintro m rfl
    exact .pure ⟨rfl, .inl rfl⟩
  refine .bind (.of_always (.read .refl _)) fun row _ => ?_
  cases row with
  | none => exact hsame rfl
  | some cr =>
    dsimp only
    split
    · exact .bind (.of_always (startMove_completePending {} apply.id .stop)) fun _ _ =>
        .pure ⟨rfl, .inl rfl⟩
    · next hst =>
      cases remote with
      | none => exact hsame rfl
      | some progress =>
        dsimp only
        split
        · exact hsame rfl
        · next he =>
          refine .bind (.lift fun _ _ => trivial) fun r _ => ?_
          obtain ⟨remoteState, tables⟩ := r
          split
          · exact hsame rfl
          · have hmay : startMayWrite apply (some progress) = true :=
              startMayWrite_of_remote hv (Bool.not_eq_true _ ▸ hst) rfl he
            refine .bind (.of_always (.read .refl _)) fun now _ => ?_
            refine .bind (.of_always (startMove_update {} _ hmay rfl)) fun _ _ => ?_
            exact .bind (.of_always (startMove_completePending {} apply.id .stop)) fun _ _ =>
              .pure ⟨rfl, .inr rfl⟩

theorem startMove_ensureStopped {a : Apply} {applyId : Nat} {mayWrite : Bool} (hid : a.id = applyId)
    (hrun : a.state.isRunning = true → mayWrite = true) : Method.Only (Store.StartMove applyId mayWrite)
      (ensureStoredApplyStoppedForStartClaim a) := by
  unfold ensureStoredApplyStoppedForStartClaim
  split
  · next h => exact .bind (.read .refl _) fun now => startMove_update {} _ (hrun h) hid
  · exact .pure _

section
variable {a : Apply} {applyId : Nat} {mayWrite : Bool} (hid : a.id = applyId)
  (hrun : a.state.isRunning = true → mayWrite = true) (codec : MetadataCodec) (caller : String)
include hid hrun

theorem startMove_queueStopped : Method.Only (Store.StartMove applyId mayWrite)
      (queueStoppedApplyForOperator codec a caller) := by
  unfold queueStoppedApplyForOperator
  split
  · exact .throw _
  · refine .bind (.read .refl _) fun tasks => ?_
    dsimp only
    split
    · split
      · exact .throw _
      · exact .throw _
    · exact .bind (startMove_ensureStopped hid hrun) fun _ =>
        startMove_createControlRequest codec _ _ _ _ _ _

theorem startMove_queueRemoteStopped (progress : RemoteProgress) : Method.Only (Store.StartMove applyId mayWrite)
      (queueRemoteStoppedApplyForOperator codec a caller progress) := by
  unfold queueRemoteStoppedApplyForOperator
  split
  · exact .throw _
  · refine .bind (.lift _) fun r => ?_
    obtain ⟨remoteState, tables⟩ := r
    dsimp only
    split
    · exact .throw _
    · exact .bind (startMove_ensureStopped hid hrun) fun _ =>
        startMove_createControlRequest codec _ _ _ _ _ _

theorem startMove_startByState (remote : Option RemoteProgress) : Method.Only (Store.StartMove applyId mayWrite)
      (startByState codec a caller remote) := by
  unfold startByState
  split
  · exact startMove_createControlRequest codec _ _ _ _ _ _
  · split
    · refine .bind (.bind (.read .refl _) fun row => ?_) fun resp => ?_
      · cases row with
        | none => exact .pure _
        | some cr => exact .bind (.lift _) fun _ => .pure _
      · cases resp with
        | some resp => exact .pure _
        | none =>
          dsimp only
          split
          · exact .throw _
          · cases remote with
            | none => exact startMove_queueStopped hid hrun codec caller
            | some progress =>
              dsimp only
              split
              · exact startMove_queueRemoteStopped hid hrun codec caller progress
              · exact startMove_queueStopped hid hrun codec caller
    · exact .throw _

end

theorem startMove_executeStartForApply (codec : MetadataCodec) (apply : Apply) (caller : String)
    (remote : Option RemoteProgress) : Method.Only (Store.StartMove apply.id (startMayWrite apply remote))
      (executeStartForApply codec apply caller remote) := by
  refine Method.Returns.always (Q := fun _ => True) ?_
  refine .bind (.lift fun _ h => h) fun _ hv => ?_
  refine .bind (startMove_completeResolvedStop hv) fun a ha => ?_
  refine .of_always (.bind (.bind (.read .refl _) fun row => ?_) fun _ => ?_)
  · cases row with
    | none => exact .pure _
    | some cr => exact .throw _
  · refine startMove_startByState ha.1 (fun hrun => ?_) codec caller remote
    rcases ha.2 with rfl | hst
    · simp [startMayWrite, hrun]
    · rw [hst] at hrun
      cases hrun

end

/-! ## Runs -/

section
variable {codec : MetadataCodec} {w : StartDesk} {a : StartAction}

def StartDesk.Sound (w : StartDesk) : Prop :=
  ∀ p ∈ w.starts,
    Prog.Ensures (fun _ => True) (Store.StartMove p.applyId p.mayWrite) (fun _ => True) p.rest ∧
    (p.mayWrite = true → p.underWay = true → w.store.inFlight p.applyId = false)

theorem StartDesk.Sound.next (hw : w.Sound) {p : StartPass} (hp : p ∈ w.starts) :
    Store.StartMove p.applyId p.mayWrite w.store (p.rest.next w.store).1 ∧
      Prog.Ensures (fun _ => True) (Store.StartMove p.applyId p.mayWrite) (fun _ => True)
        (p.rest.next w.store).2 := by
  obtain ⟨hmove, -, hrest⟩ := (hw p hp).1.next .refl trivial
  exact ⟨hmove, hrest⟩

theorem StartDesk.Sound.step (hw : w.Sound) (ha : w.misleads codec a = false) : (w.step codec a).Sound := by
  cases a with
  | receive applyId caller remote =>
    simp only [StartDesk.step]
    split
    · exact hw
    · next apply hget =>
      intro p hp
      rcases List.mem_append.1 hp with hp | hp
      · exact hw p hp
      · rw [List.mem_singleton.1 hp]
        refine ⟨(startMove_executeStartForApply codec apply caller remote).discard, fun hmay _ => ?_⟩
        have hmay' : startMayWrite apply remote = true := hmay
        simpa [StartDesk.misleads, hget, hmay'] using ha
  | call c => exact hw
  | advance n =>
    simp only [StartDesk.step]
    split
    · exact hw
    · next p hn =>
      obtain ⟨hmove, hrest⟩ := hw.next (List.mem_of_getElem? hn)
      intro q hq
      rcases List.mem_or_eq_of_mem_set hq with hq | rfl
      · -- the statement leaves operations and tasks alone
        refine ⟨(hw q hq).1, fun hmay hunder => ?_⟩
        rw [hmove.inFlight]
        exact (hw q hq).2 hmay hunder
      · refine ⟨hrest, fun hmay hunder => ?_⟩
        rw [hmove.inFlight]
        refine (hw p (List.mem_of_getElem? hn)).2 hmay ?_
        cases hp : p.rest with
        | ret r => simp [StartPass.underWay, hp, Prog.next] at hunder
        | stmt f k => simp [StartPass.underWay, hp]
  | advanceOther n =>
    intro p hp
    have hstarts : (w.step codec (.advanceOther n)).starts = w.starts := by
      simp only [StartDesk.step]
      split <;> rfl
    rw [hstarts] at hp
    refine ⟨(hw p hp).1, fun hmay hunder => ?_⟩
    have hbefore := (hw p hp).2 hmay hunder
    have hthis := List.any_eq_false.1 ha p hp
    simpa [hmay, hunder, hbefore] using hthis

theorem StartDesk.Sound.sparesWork (hw : w.Sound) : w.SparesWork codec a := by
  rintro n rfl x hx hrun hst
  have hne : x.2 ≠ x.1 := by
    intro h
    rw [← h, hst] at hrun
    cases hrun
  simp only [StartDesk.step] at hx
  split at hx
  · exact absurd (Table.eq_of_mem_zip_self hx) hne
  · next p hn =>
    have hp := List.mem_of_getElem? hn
    obtain ⟨-, hrows⟩ := List.forall₂_iff_zip.1 (hw.next hp).1.applies
    obtain ⟨hmay, hid⟩ := (hrows hx).resolve_left hne
    rw [hid]
    refine (hw p hp).2 hmay ?_
    -- a start that has ended writes nothing
    cases hr : p.rest with
    | ret r =>
      rw [hr] at hx
      exact absurd (Table.eq_of_mem_zip_self hx) hne
    | stmt f k => simp [StartPass.underWay, hr]

end

def callsInTurn (cs : List Call) : List StartAction :=
  (cs.zipIdx.map fun (c, n) => .call c :: List.replicate 4 (.advanceOther n)).flatten

def copyingRollout : List Call :=
  [sampleRollout .barrier .halt, .findNextApplyOperation "operator-1" fun _ => false,
    .updateState (OperationLease.ctx ⟨1, 1, 1⟩) 1 .waitingForCutover,
    .findNextApplyOperation "operator-1" fun _ => false,
    .updateTask (OperationLease.ctx ⟨1, 2, 2⟩) { id := 2, applyId := 1, state := .running },
    .updateDerivedState (OperationLease.ctx ⟨1, 2, 2⟩) 1 .pending .running "" (some 0) none]

def stoppedDeployment (d : OperationLease) : List Call :=
  [.updateTask d.ctx { id := d.operationId, applyId := 1, state := .stopped },
    .updateState d.ctx d.operationId .stopped]

def firstStopped : List Call :=
  copyingRollout ++ [.findNextApplyOperationCutover "operator-1" fun _ => false] ++
    stoppedDeployment ⟨1, 1, 3⟩

def startedUntilWrite : List StartAction :=
  [.receive 1 "user" none, .advance 0, .advance 0, .advance 0, .advance 0, .advance 0, .advance 0]

def laggingStart : List StartAction :=
  callsInTurn (firstStopped ++ stoppedDeployment ⟨1, 2, 2⟩) ++ startedUntilWrite ++ [.advance 0]

def misledStart : StartDesk :=
  Transition.run (StartDesk.step sampleCodec) {} (callsInTurn firstStopped ++ startedUntilWrite)

end SchemaBot
