import SchemaBot.Api.Control
import SchemaBot.Lib.Awaits

/-!
# When a stop is completed

The passes of the service that settle stop requests, running side by side over the store.
-/

namespace SchemaBot

open Concurrent

/-! ## The system -/

def Store.applyTerminal (s : Store) (applyId : Nat) : Bool :=
  (s.getApply applyId).all (·.state.isTerminal)

/-- The move from `s` to `t` completes the pending stop of the apply. -/
def Store.completesStop (s : Store) (applyId : Nat) (t : Store) : Bool :=
  (s.controlRequests.zip t.controlRequests).any fun (cr, cr') =>
    cr.applyId = applyId && cr.operation = .stop && cr.status = .pending && cr'.status = .completed

/-- The applies that get a pending stop by the move from `s` to `t`. -/
def Store.recordsStop (s t : Store) : List Nat :=
  ((t.controlRequests.filter fun cr => cr.operation = .stop && cr.status = .pending).map (·.applyId)).filter
    fun applyId => !s.hasPending applyId .stop

inductive Request
  | stop (applyId : Nat) (caller : String) (stopAccepted : Bool)
  | start (applyId : Nat) (caller : String) (remote : Option RemoteProgress)
  | reconcile (ctx : Ctx) (applyId : Nat)
  | call (c : Call)

def Call.completesStops : Call → Bool
  | .completePending _ _ .stop => true
  | _ => false

def Request.method (codec : MetadataCodec) : Request → StoreMethod Unit
  | .stop applyId caller stopAccepted => do
    match ← Method.read fun s => s.getApply applyId with
    | none => throw ⟨"apply not found", .applyNotFound⟩
    | some apply => discard (executeStopForApply codec apply caller stopAccepted)
  | .start applyId caller remote => do
    match ← Method.read fun s => s.getApply applyId with
    | none => throw ⟨"apply not found", .applyNotFound⟩
    | some apply => discard (executeStartForApply codec apply caller remote)
  | .reconcile ctx applyId => completePendingStopIfApplyResolved ctx applyId
  | .call c => if c.completesStops then pure () else c.method

abbrev Pass := Prog Store (Except StoreError Unit)

structure Desk where
  store : Store := {}
  passes : List Pass := []
  unresolved : List Nat := []

/-- A request comes in, or the `n`-th pass makes its next statement. -/
inductive DeskAction
  | receive (r : Request)
  | advance (n : Nat)

def Desk.moveTo (w : Desk) (t : Store) (passes : List Pass) : Desk :=
  { store := t, passes
    unresolved := (w.unresolved ++ w.store.recordsStop t).filter fun applyId =>
      !w.store.applyTerminal applyId && !t.applyTerminal applyId }

def Desk.step (codec : MetadataCodec) (w : Desk) : DeskAction → Desk
  | .receive r => { w with passes := w.passes ++ [(r.method codec).run] }
  | .advance n =>
    match w.passes[n]? with
    | some p => w.moveTo (p.next w.store).1 (w.passes.set n (p.next w.store).2)
    | none => w

/-! ## Statements that complete no stop -/

def StopKept (cr cr' : ControlRequest) : Prop :=
  cr'.status = .completed → cr.status = .completed ∨ cr.operation ≠ .stop

section
variable {s t : Store} {applyId : Nat}

theorem not_completesStop
    (h : ∀ p ∈ s.controlRequests.zip t.controlRequests, p.1.applyId = applyId → StopKept p.1 p.2) :
    ¬ s.completesStop applyId t = true := by
  rw [Bool.not_eq_true, Store.completesStop, List.any_eq_false]
  intro p hp hcomp
  simp only [Bool.and_eq_true, decide_eq_true_eq] at hcomp
  rcases h p hp hcomp.1.1.1 hcomp.2 with hst | hop
  · rw [hcomp.1.2] at hst; cases hst
  · exact hop hcomp.1.1.2

def KeepsStops {α : Type} (m : StoreMethod α) : Prop :=
  Method.Only
    (fun s t => Table.Grows StopKept (fun _ => True) s.controlRequests t.controlRequests) m

theorem grows_refl (s : Store) :
    Table.Grows StopKept (fun _ => True) s.controlRequests s.controlRequests := .refl fun _ => .inl

theorem grows_of_eq (h : t.controlRequests = s.controlRequests) :
    Table.Grows StopKept (fun _ => True) s.controlRequests t.controlRequests := by
  rw [h]; exact grows_refl s

theorem keepsStops_transaction {α : Type} {f : Store → Except StoreError (Store × α)}
    (h : ∀ s t a, f s = .ok (t, a) → t.controlRequests = s.controlRequests) : KeepsStops (Method.transaction f) :=
  .transaction grows_refl fun s t a _ hf => ⟨grows_of_eq (h s t a hf), trivial⟩

theorem keepsStops_settlePending {ctx : Ctx} {operation : ControlOperation}
    {assign : Store → ControlRequest → ControlRequest}
    (h : ∀ s cr, (assign s cr).status ≠ .completed ∨ operation ≠ .stop) :
    KeepsStops (settlePending ctx applyId operation assign) := by
  refine always_settlePending grows_refl fun lease => .step fun s => .update (fun _ => .inl) ?_
  intro cr _ hrow hst
  simp only [pendingRequestRow, Bool.and_eq_true, decide_eq_true_eq] at hrow
  rcases h s cr with h | h
  · exact absurd hst h
  · exact .inr (hrow.1.1.2 ▸ h)

theorem keepsStops_requestPending (applyId : Nat) (operation : ControlOperation) (requestedBy metadata : String) :
    KeepsStops (requestPending applyId operation requestedBy metadata) := by
  refine .step fun s => ?_
  split
  · split
    · exact grows_refl s
    · exact .update (fun _ => .inl) fun _ _ _ hst => nomatch hst
  · exact .append (fun _ => .inl) fun _ _ => trivial

theorem keepsStops_update (ctx : Ctx) (apply : Apply) : KeepsStops (update ctx apply) := by
  refine always_update grows_refl fun lease target => keepsStops_transaction fun s t _ hf => ?_
  obtain ⟨_, -, hf⟩ := bind_eq_ok hf
  obtain ⟨_, -, hf⟩ := bind_eq_ok hf
  cases hf
  rfl

theorem keepsStops_claimApply (wanted : Store → Apply → Bool) (locked : Nat → Bool)
    (owner message : String) : KeepsStops (claimApply wanted locked owner message) := by
  refine always_claimApply grows_refl fun a => .transaction grows_refl fun s t _ _ h => ⟨?_, trivial⟩
  rcases Store.persistApplyClaim_ok h with ⟨_, rfl⟩ | ⟨_, _, rfl⟩
  · exact .update (fun _ => .inl) fun _ _ _ hst => nomatch hst
  · exact grows_refl s

theorem Call.keepsStops (c : Call) (hc : c.completesStops = false) : KeepsStops c.method := by
  cases hs : c.settles with
  | false => exact Prog.Ensures.imp (fun _ _ h => grows_of_eq (h.controls hs)) c.effect
  | true =>
    cases c with
    | findNextApply | claimApplyByID | findNextApplyForStopReconciliation =>
      exact .discard (keepsStops_claimApply _ _ _ _)
    | requestPending applyId operation requestedBy metadata =>
      exact .discard (keepsStops_requestPending applyId operation requestedBy metadata)
    | completePending ctx applyId operation =>
      cases operation with
      | stop => cases hc
      | start | cutover => exact keepsStops_settlePending fun _ _ => .inr (by decide)
    | failPending => exact keepsStops_settlePending fun _ _ => .inl (by simp)
    | _ => cases hs

end

/-! ## The passes look at their apply -/

def AwaitsTerminal {α : Type} (applyId : Nat) (Q : α → Prop) (m : StoreMethod α) : Prop :=
  Method.Awaits (fun s => s.applyTerminal applyId = true) (fun s t => s.completesStop applyId t = true) Q m

section
variable {α : Type} {j : Nat} {apply : Apply} {applyId : Nat}

theorem completesStop_irrefl (j : Nat) (s : Store) : ¬ s.completesStop j s = true :=
  not_completesStop fun p hp _ => (grows_refl s).zip p hp

theorem KeepsStops.awaits {m : StoreMethod α} (h : KeepsStops m) : AwaitsTerminal j (fun _ => True) m :=
  .of_always (fun _ _ hg => not_completesStop fun p hp _ => hg.zip p hp) h

theorem stopRequestCompletedByApplyState_eq (st : ApplyState) :
    stopRequestCompletedByApplyState st = st.isTerminal := by
  cases st <;> rfl

theorem Store.applyTerminal_of_getApply {s : Store} {a : Apply}
    (h : s.getApply applyId = some a) (ha : a.state.isTerminal = true) : s.applyTerminal applyId = true := by
  rw [applyTerminal, h]
  exact ha

theorem awaits_completePending (ctx : Ctx) (h : j ≠ applyId) :
    AwaitsTerminal j (fun _ => True) (completePending ctx applyId .stop) := by
  refine .of_always (fun _ _ hG => hG) ?_
  refine always_settlePending (completesStop_irrefl j) fun lease => .step fun s => ?_
  -- the rows of the apply `j` are not among those that are written
  have hgrows : Table.Grows (fun cr cr' : ControlRequest => cr.applyId = j → StopKept cr cr')
      (fun _ => True) s.controlRequests
      (Table.update (pendingRequestRow applyId .stop lease s)
        (fun cr => { cr with
          status := .completed, completedAt := cr.completedAt <|> some s.now, updatedAt := s.now })
        s.controlRequests) := by
    refine .update (fun _ _ => .inl) fun cr _ hrow hj => ?_
    simp only [pendingRequestRow, Bool.and_eq_true, decide_eq_true_eq] at hrow
    exact absurd (hj.symm.trans hrow.1.1.1) h
  exact not_completesStop hgrows.zip

theorem Store.applyTerminal_updateApplies (s : Store) (h : apply.state.isTerminal = true) :
    (s.updateApplies (fun _ => updateRow none apply) (assignUpdate apply)).applyTerminal apply.id = true := by
  rw [applyTerminal]
  cases hf : Store.getApply _ apply.id with
  | none => rfl
  | some a =>
    obtain ⟨hmem, hid⟩ := getApply_some hf
    obtain ⟨b, -, rfl⟩ := Table.mem_update.1 hmem
    by_cases hrow : updateRow none apply b = true
    · rw [if_pos hrow]
      exact h
    · rw [if_neg hrow] at hid
      simp [updateRow, leasePredicate, hid] at hrow

theorem awaits_update (h : apply.state.isTerminal = true) :
    AwaitsTerminal j (fun _ => j ≠ apply.id) (update {} apply) := by
  refine .bind (.lift fun _ _ => .bind (.lift fun lease hlease => .bind (.read (completesStop_irrefl j)
    fun s => .inr ?_)))
  cases hlease
  refine .transaction (completesStop_irrefl j) fun s t _ hf => ?_
  obtain ⟨_, -, hf⟩ := bind_eq_ok hf
  obtain ⟨_, -, hf⟩ := bind_eq_ok hf
  cases hf
  refine ⟨fun hc => absurd hc (completesStop_irrefl j s), ?_⟩
  by_cases hj : j = apply.id
  · exact .inr (.inl (hj ▸ s.applyTerminal_updateApplies h))
  · exact .inr (.inr hj)

/-! ## The handlers -/

section
variable (codec : MetadataCodec)

theorem keepsStops_pendingControlResponse (applyId : Nat) (operation : ControlOperation) :
    KeepsStops (pendingControlResponseIfPresent codec applyId operation) := by
  refine .bind (.read grows_refl _) fun row => ?_
  cases row with
  | none => exact .pure _
  | some cr => exact .bind (.lift _) fun _ => .pure _

theorem keepsStops_createControlRequest (applyId : Nat) (operation : ControlOperation) (caller : String)
    (count skippedCount : Nat) (fresh : ResponseStatus) :
    KeepsStops (createControlRequest codec applyId operation caller count skippedCount fresh) := by
  refine .bind (keepsStops_requestPending applyId operation caller _) fun r => ?_
  obtain ⟨cr, alreadyPending⟩ := r
  cases alreadyPending with
  | true => exact .bind (.lift _) fun _ => .pure _
  | false => exact .pure _

theorem keepsStops_queueStopForApplyOwner (apply : Apply) (caller : String) :
    KeepsStops (queueStopForApplyOwner codec apply caller) := by
  refine .bind (keepsStops_pendingControlResponse codec apply.id .stop) fun resp => ?_
  cases resp with
  | some resp => exact .pure _
  | none =>
    dsimp only
    split
    · exact .throw _
    · refine .bind (.read grows_refl _) fun tasks => ?_
      split
      · exact .throw _
      · exact keepsStops_createControlRequest codec _ _ _ _ _ _

theorem keepsStops_ensureStoredApplyStopped (apply : Apply) :
    KeepsStops (ensureStoredApplyStoppedForStartClaim apply) := by
  unfold ensureStoredApplyStoppedForStartClaim
  split
  · exact .bind (.read grows_refl _) fun _ => keepsStops_update _ _
  · exact .pure _

theorem keepsStops_startByState (apply : Apply) (caller : String) (remote : Option RemoteProgress) :
    KeepsStops (startByState codec apply caller remote) := by
  have hcreate := fun count skippedCount =>
    keepsStops_createControlRequest codec apply.id .start caller count skippedCount .queued
  have hlocal : KeepsStops (queueStoppedApplyForOperator codec apply caller) := by
    unfold queueStoppedApplyForOperator
    split
    · exact .throw _
    · refine .bind (.read grows_refl _) fun tasks => ?_
      dsimp only
      split
      · split <;> exact .throw _
      · exact .bind (keepsStops_ensureStoredApplyStopped apply) fun _ => hcreate _ _
  have hremote : ∀ progress, KeepsStops (queueRemoteStoppedApplyForOperator codec apply caller progress) := by
    intro progress
    unfold queueRemoteStoppedApplyForOperator
    split
    · exact .throw _
    · refine .bind (.lift _) fun r => ?_
      dsimp only
      split
      · exact .throw _
      · exact .bind (keepsStops_ensureStoredApplyStopped apply) fun _ => hcreate _ _
  unfold startByState
  split
  · exact hcreate 1 0
  · split
    · refine .bind (keepsStops_pendingControlResponse codec apply.id .start) fun resp => ?_
      cases resp with
      | some resp => exact .pure _
      | none =>
        dsimp only
        split
        · exact .throw _
        · split
          · split
            · exact hremote _
            · exact hlocal
          · exact hlocal
    · exact .throw _

end

theorem awaits_completeImmediateStop (applyId : Nat) :
    AwaitsTerminal j (fun _ => True) (completeImmediateStopRequestIfStopped applyId) := by
  refine .bind (.read (completesStop_irrefl j) fun s => ?_)
  cases hs : s.getApply applyId with
  | none => exact .inr (.throw _)
  | some stored =>
    dsimp only
    rw [stopRequestCompletedByApplyState_eq]
    by_cases hst : stored.state.isTerminal = true
    · rw [if_pos hst]
      by_cases hj : j = applyId
      · exact .inl (hj ▸ Store.applyTerminal_of_getApply hs hst)
      · exact .inr (.bind ((awaits_completePending {} hj).mono fun _ _ => .pure trivial))
    · rw [if_neg hst]
      exact .inr (.pure trivial)

theorem awaits_executeStopForApply (codec : MetadataCodec) (apply : Apply) (caller : String) (stopAccepted : Bool) :
    AwaitsTerminal j (fun _ => True) (executeStopForApply codec apply caller stopAccepted) := by
  refine .bind ((keepsStops_queueStopForApplyOwner codec apply caller).awaits.mono fun r _ => ?_)
  obtain ⟨resp, status⟩ := r
  dsimp only
  split
  · refine .bind (.mono (fun _ _ => .pure trivial) (.attempt (Q := fun _ => True) ?_))
    refine .bind (.read (completesStop_irrefl j) fun s => .inr ?_)
    split
    · exact .pure trivial
    · split
      · exact .discard (awaits_completeImmediateStop apply.id)
      · exact .pure trivial
  · exact .pure trivial

theorem awaits_completeResolvedStopBeforeStart (remote : Option RemoteProgress)
    (h : j = apply.id → apply.state.isTerminal = false) :
    AwaitsTerminal j (fun _ => True) (completeResolvedStopBeforeStart remote apply) := by
  refine .bind (.read (completesStop_irrefl j) fun s => .inr ?_)
  split
  · exact .pure trivial
  · rw [stopRequestCompletedByApplyState_eq]
    split
    · next hst =>
      have hj : j ≠ apply.id := fun hj => by rw [h hj] at hst; cases hst
      exact .bind ((awaits_completePending {} hj).mono fun _ _ => .pure trivial)
    · split
      · exact .pure trivial
      · split
        · exact .pure trivial
        · refine .bind (.lift fun r _ => ?_)
          dsimp only
          split
          · exact .pure trivial
          · refine .bind (.read (completesStop_irrefl j) fun s => .inr ?_)
            refine .bind (.mono (fun _ hj => ?_) (awaits_update rfl))
            exact .bind ((awaits_completePending {} hj).mono fun _ _ => .pure trivial)

theorem awaits_executeStartForApply (codec : MetadataCodec) (caller : String)
    (remote : Option RemoteProgress) (h : j = apply.id → apply.state.isTerminal = false) :
    AwaitsTerminal j (fun _ => True) (executeStartForApply codec apply caller remote) := by
  refine .bind (.lift fun _ _ => .bind (.mono (fun apply' _ => ?_)
    (awaits_completeResolvedStopBeforeStart remote h)))
  have hreject : KeepsStops (rejectControlIfStopPending "start" apply'.id) := by
    refine .bind (.read grows_refl _) fun row => ?_
    cases row with
    | none => exact .pure _
    | some cr => exact .throw _
  exact .bind (hreject.awaits.mono fun _ _ => (keepsStops_startByState codec apply' caller remote).awaits)

theorem awaits_completePendingStopIfApplyResolved (ctx : Ctx) (applyId : Nat) :
    AwaitsTerminal j (fun _ => True) (completePendingStopIfApplyResolved ctx applyId) := by
  refine .bind (.read (completesStop_irrefl j) fun s => ?_)
  cases hs : s.getApply applyId with
  | none => exact .inr (.throw _)
  | some apply =>
    dsimp only
    by_cases hst : apply.state.isTerminal = true
    · by_cases hj : j = applyId
      · exact .inl (hj ▸ Store.applyTerminal_of_getApply hs hst)
      · have hid := (Store.getApply_some hs).2
        rw [if_neg (by simp [hst])]
        refine .inr (.bind (.read (completesStop_irrefl j) fun s' => .inr ?_))
        split
        · exact .pure trivial
        · exact awaits_completePending ctx (hid ▸ hj)
    · rw [if_pos (by simpa using hst)]
      exact .inr (.pure trivial)

end

theorem awaits_method (codec : MetadataCodec) (r : Request) (j : Nat) :
    AwaitsTerminal j (fun _ => True) (r.method codec) := by
  cases r with
  | stop applyId caller stopAccepted =>
    refine .bind (.read (completesStop_irrefl j) fun s => .inr ?_)
    split
    · exact .throw _
    · exact .discard (awaits_executeStopForApply codec _ caller stopAccepted)
  | start applyId caller remote =>
    refine .bind (.read (completesStop_irrefl j) fun s => ?_)
    cases hs : s.getApply applyId with
    | none => exact .inr (.throw _)
    | some apply =>
      have hid := (Store.getApply_some hs).2
      -- a handler that looks up a terminal apply has met it
      by_cases hj : j = applyId ∧ apply.state.isTerminal = true
      · exact .inl (hj.1 ▸ Store.applyTerminal_of_getApply hs hj.2)
      · refine .inr (.discard (awaits_executeStartForApply codec caller remote fun h => ?_))
        exact Bool.eq_false_iff.2 fun hst => hj ⟨h.trans hid, hst⟩
  | reconcile ctx applyId => exact awaits_completePendingStopIfApplyResolved ctx applyId
  | call c =>
    simp only [Request.method]
    split
    · exact .pure trivial
    · next hc => exact (c.keepsStops (Bool.eq_false_iff.2 hc)).awaits

/-! ## Runs -/

def Pass.Awaits (p : Pass) (applyId : Nat) : Prop :=
  Prog.Awaits (fun s => s.applyTerminal applyId = true) (fun s t => s.completesStop applyId t = true)
    (fun _ => True) p

theorem Request.awaits (codec : MetadataCodec) (r : Request) (applyId : Nat) :
    Pass.Awaits (r.method codec).run applyId :=
  Prog.Awaits.mono (fun _ _ => trivial) (awaits_method codec r applyId)

def Desk.RecordsFreely (codec : MetadataCodec) (w : Desk) (a : DeskAction) : Prop :=
  ∀ applyId ∈ w.store.recordsStop (w.step codec a).store, ∀ p ∈ w.passes, Pass.Awaits p applyId

def Desk.CompletesResolved (codec : MetadataCodec) (w : Desk) (a : DeskAction) : Prop :=
  ∀ applyId ∈ w.unresolved, w.store.completesStop applyId (w.step codec a).store = false

structure Desk.Attentive (w : Desk) : Prop where
  unresolved : ∀ applyId ∈ w.unresolved, w.store.applyTerminal applyId = false
  passes : ∀ applyId ∈ w.unresolved, ∀ p ∈ w.passes, Pass.Awaits p applyId

section
variable {codec : MetadataCodec} {w : Desk} {a : DeskAction} {n : Nat}

theorem mem_unresolved_moveTo {t : Store} {passes : List Pass} {applyId : Nat}
    (h : applyId ∈ (w.moveTo t passes).unresolved) : (applyId ∈ w.unresolved ∨ applyId ∈ w.store.recordsStop t) ∧
      w.store.applyTerminal applyId = false ∧ t.applyTerminal applyId = false := by
  simp only [Desk.moveTo, List.mem_filter, List.mem_append, Bool.and_eq_true, Bool.not_eq_true'] at h
  exact h

theorem Desk.step_advance {p : Pass} (hn : w.passes[n]? = some p) :
    w.step codec (.advance n) = w.moveTo (p.next w.store).1 (w.passes.set n (p.next w.store).2) := by
  simp only [step, hn]

theorem Desk.step_advance_none (hn : w.passes[n]? = none) : w.step codec (.advance n) = w := by
  simp only [step, hn]

theorem Desk.Attentive.step (hw : w.Attentive) (ha : w.RecordsFreely codec a) : (w.step codec a).Attentive := by
  cases a with
  | receive r =>
    refine ⟨hw.unresolved, fun applyId hi p hp => ?_⟩
    rcases List.mem_append.1 hp with hp | hp
    · exact hw.passes applyId hi p hp
    · rw [List.mem_singleton.1 hp]
      exact r.awaits codec applyId
  | advance n =>
    unfold RecordsFreely at ha
    cases hn : w.passes[n]? with
    | none =>
      rw [step_advance_none hn]
      exact hw
    | some p =>
      rw [step_advance hn] at ha ⊢
      refine ⟨fun applyId hi => (mem_unresolved_moveTo hi).2.2, fun applyId hi q hq => ?_⟩
      obtain ⟨hi, hs, ht⟩ := mem_unresolved_moveTo hi
      have hall : ∀ q ∈ w.passes, Pass.Awaits q applyId := hi.elim (hw.passes applyId) (ha applyId)
      rcases List.mem_or_eq_of_mem_set hq with hq | rfl
      · exact hall q hq
      -- the pass did not meet the apply terminal, neither before nor after its statement
      · have hp := hall p (List.mem_of_getElem? hn)
        rcases (hp.next (completesStop_irrefl applyId) w.store).2 with h | h | h
        · rw [hs] at h; cases h
        · rw [ht] at h; cases h
        · exact h

theorem Desk.Attentive.completesResolved (hw : w.Attentive) (a : DeskAction) : w.CompletesResolved codec a := by
  intro applyId hi
  have hs := hw.unresolved applyId hi
  rw [← Bool.not_eq_true]
  cases a with
  | receive r => exact completesStop_irrefl applyId w.store
  | advance n =>
    cases hn : w.passes[n]? with
    | none =>
      rw [step_advance_none hn]
      exact completesStop_irrefl applyId w.store
    | some p =>
      rw [step_advance hn]
      intro hc
      have hp := hw.passes applyId hi p (List.mem_of_getElem? hn)
      have := (hp.next (completesStop_irrefl applyId) w.store).1 hc
      rw [hs] at this
      cases this

theorem Desk.attentive_empty : ({} : Desk).Attentive := ⟨List.forall_mem_nil _, List.forall_mem_nil _⟩

/-- In every run in which stops are recorded only while no pass is about to complete one without looking
at the apply again, no stop is completed that was recorded while its apply was not terminal, unless the
apply has been terminal since. -/
theorem stops_complete_after_resolution (codec : MetadataCodec) {as : List DeskAction}
    (h : Transition.Along (Desk.step codec) (Desk.RecordsFreely codec) {} as) :
    Transition.Along (Desk.step codec) (Desk.CompletesResolved codec) {} as :=
  Transition.Along.of_invariant (fun _ _ hw => Desk.Attentive.step hw)
    (fun _ a hw _ => Desk.Attentive.completesResolved hw a) Desk.attentive_empty h

end

theorem Desk.recordsFreely_of_nil {codec : MetadataCodec} {w : Desk} {a : DeskAction}
    (h : w.store.recordsStop (w.step codec a).store = []) : w.RecordsFreely codec a := by
  intro applyId hi
  rw [h] at hi
  cases hi

def stoppedApply : Apply := { sampleApply with id := 1, state := .stopped }

def recordedStop : List DeskAction :=
  [.receive (.call sampleCreate), .advance 0, .receive (.call (.requestPending 1 .stop "user" ""))]

def resolvedStop : List DeskAction :=
  recordedStop ++ [.advance 1, .receive (.call (.update {} stoppedApply)), .advance 2, .advance 2,
    .receive (.reconcile {} 1), .advance 3, .advance 3, .advance 3]

/-- A run in which a stop is recorded, resolved and completed. -/
theorem stops_complete_after_resolution_reconciled :
    (Transition.run (Desk.step sampleCodec) {} resolvedStop).store.controlRequests.map (·.status) =
        [.completed] ∧
      Transition.Along (Desk.step sampleCodec) (Desk.CompletesResolved sampleCodec) {} resolvedStop := by
  have hpasses : (Transition.run (Desk.step sampleCodec) {} recordedStop).passes =
      [.ret (.ok ()), ((Request.call (.requestPending 1 .stop "user" "")).method sampleCodec).run] := rfl
  have hrecord : (Transition.run (Desk.step sampleCodec) {} recordedStop).RecordsFreely sampleCodec
      (.advance 1) := by
    intro applyId _ p hp
    rcases List.mem_cons.1 hp with rfl | hp
    · trivial
    · rw [List.mem_singleton.1 hp]
      exact Request.awaits sampleCodec _ applyId
  have hnil := fun {w a} => @Desk.recordsFreely_of_nil sampleCodec w a
  exact ⟨by decide, stops_complete_after_resolution sampleCodec
    ⟨hnil (by decide), hnil (by decide), hnil (by decide), hrecord, hnil (by decide), hnil (by decide),
      hnil (by decide), hnil (by decide), hnil (by decide), hnil (by decide), hnil (by decide), trivial⟩⟩

def overtakenStop : List DeskAction :=
  [.receive (.call sampleCreate), .advance 0,
    .receive (.stop 1 "user" true), .advance 1, .advance 1, .advance 1, .advance 1,
    .receive (.call (.update {} stoppedApply)), .advance 2, .advance 2, .advance 1, .advance 1,
    .receive (.reconcile {} 1), .advance 3, .advance 3, .advance 3,
    .receive (.call (.requestPending 1 .start "user" "")), .advance 4,
    .receive (.call (.claimApplyByID 1 "operator-1" fun _ => false)), .advance 5, .advance 5,
    .receive (.stop 1 "user" false), .advance 6, .advance 6, .advance 6, .advance 6]

/-- The first handler goes on and completes the second stop, while the apply is resuming. -/
theorem overtaken_stop_completed :
    (Transition.run (Desk.step sampleCodec) {} overtakenStop).store.applies.map (·.state) = [.resuming] ∧
      (Transition.run (Desk.step sampleCodec) {} overtakenStop).unresolved = [1] ∧
      (Transition.run (Desk.step sampleCodec) {} overtakenStop).store.completesStop 1
        ((Transition.run (Desk.step sampleCodec) {} overtakenStop).step sampleCodec
          (.advance 1)).store = true := by
  decide

end SchemaBot
