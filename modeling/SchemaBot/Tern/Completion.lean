import SchemaBot.Lib.Triples
import SchemaBot.Storage.Statements
import SchemaBot.Tern.Sequential

/-!
# When a sequential drive completes its apply

A sequential drive writes `completed` to its apply when its loop has gone through the tasks and none of them has
failed or stopped it.
-/

namespace SchemaBot

open Concurrent

variable {ctx : Ctx} {applyId : Nat} {α : Type} {host : Host}

/-! ## The tasks of a drive -/

def Store.driveTasks (s : Store) (ctx : Ctx) (applyId : Nat) : List Task :=
  match ctx.operationLease with
  | some lease => s.getByApplyOperationID lease.operationId
  | none => s.getByApplyID applyId

def Site.Completes (applyId : Nat) (v w : Site) : Prop :=
  (∃ a ∈ w.store.applies, a.id = applyId ∧ a.state = .completed) ∧
    ∀ a ∈ v.store.applies, a.id = applyId → a.state ≠ .completed

def Store.Covered (ctx : Ctx) (applyId : Nat) (rest : List Task) (s : Store) : Prop :=
  ∀ row ∈ s.driveTasks ctx applyId,
    row.state = .completed ∨ row.state.isTerminal = false ∧ ∃ task ∈ rest, task.id = row.id

def Store.Advances (ctx : Ctx) (applyId : Nat) (s t : Store) : Prop :=
  ∀ row' ∈ t.driveTasks ctx applyId, ∃ row ∈ s.driveTasks ctx applyId, row.id = row'.id ∧
    (row.state = .completed → row'.state = .completed) ∧
    (row.state.isTerminal = false → row'.state.isTerminal = false ∨ row'.state = .completed)

/-- What a drive over `tasks` needs of the site: its tasks can be read, the leases that guard its writes are current,
task identifiers are unique and those of its tasks are theirs, and the tasks that it is about are its apply's. -/
structure Site.Sound (ctx : Ctx) (applyId : Nat) (tasks : List Task) (w : Site) : Prop where
  readable : w.fails .taskReady = false
  held : ∀ task ∈ tasks, ∃ guard, taskWriteGuardFromContext ctx task = .ok guard ∧
    ∀ row ∈ w.store.tasks, row.id = task.id → guard.taskPredicate w.store row = true
  unique : (w.store.tasks.map (·.taskIdentifier)).Nodup
  named : ∀ task ∈ tasks, ∀ row ∈ w.store.tasks, row.id = task.id → row.taskIdentifier = task.taskIdentifier
  ofApply : ∀ row ∈ w.store.driveTasks ctx applyId, row.applyId = applyId

section
variable {rest : List Task} {s t u : Store}

theorem Store.driveTasks_congr (ht : t.tasks = s.tasks) (ho : t.operations = s.operations) :
    t.driveTasks ctx applyId = s.driveTasks ctx applyId := by
  unfold driveTasks getByApplyOperationID getByApplyID
  rw [ht, ho]

theorem Store.mem_tasks_of_mem_driveTasks {row : Task} (h : row ∈ s.driveTasks ctx applyId) : row ∈ s.tasks := by
  unfold driveTasks at h
  split at h
  · exact (List.mem_filter.1 h).1
  · exact (List.mem_filter.1 h).1

theorem Store.Advances.of_eq (ht : t.tasks = s.tasks) (ho : t.operations = s.operations) :
    s.Advances ctx applyId t := by
  intro row hrow
  rw [Store.driveTasks_congr ht ho] at hrow
  exact ⟨row, hrow, rfl, id, .inl⟩

theorem Store.Advances.trans (h : s.Advances ctx applyId t) (h' : t.Advances ctx applyId u) :
    s.Advances ctx applyId u := by
  intro row hrow
  obtain ⟨row₁, hrow₁, hid₁, hdone₁, hlive₁⟩ := h' row hrow
  obtain ⟨row₂, hrow₂, hid₂, hdone₂, hlive₂⟩ := h row₁ hrow₁
  refine ⟨row₂, hrow₂, hid₂.trans hid₁, hdone₁ ∘ hdone₂, fun hlive => ?_⟩
  rcases hlive₂ hlive with hlive | hdone
  · exact hlive₁ hlive
  · exact .inr (hdone₁ hdone)

@[grind →]
theorem Store.Covered.advances (hs : s.Covered ctx applyId rest) (h : s.Advances ctx applyId t) :
    t.Covered ctx applyId rest := by
  intro row' hrow'
  obtain ⟨row, hrow, hid, hdone, hlive⟩ := h row' hrow'
  rcases hs row hrow with hcompleted | ⟨hnot, task, htask, htid⟩
  · exact .inl (hdone hcompleted)
  · rcases hlive hnot with hnot' | hcompleted
    · exact .inr ⟨hnot', task, htask, htid.trans hid⟩
    · exact .inl hcompleted

end

/-! ## The moves of a drive -/

structure TaskIdentity where
  id : Nat
  taskIdentifier : String
  applyId : Nat
  applyOperationId : Option Nat
  namespaceName : String
  tableName : String
  shard : String

def Task.identity (t : Task) : TaskIdentity :=
  ⟨t.id, t.taskIdentifier, t.applyId, t.applyOperationId, t.namespaceName, t.tableName, t.shard⟩

structure Store.Framed (s t : Store) : Prop where
  operations : t.operations = s.operations
  tasks : t.tasks.map Task.identity = s.tasks.map Task.identity
  leases : t.applies.map (fun a => (a.id, a.leaseToken)) = s.applies.map fun a => (a.id, a.leaseToken)

section
variable {tasks : List Task} {s t : Store} {v w : Site}

theorem Store.Framed.refl (s : Store) : s.Framed s := ⟨rfl, rfl, rfl⟩

theorem Store.Framed.mem_tasks (h : s.Framed t) {row' : Task} (hrow : row' ∈ t.tasks) :
    ∃ row ∈ s.tasks, row.identity = row'.identity := by
  have hmem : row'.identity ∈ s.tasks.map Task.identity := by
    rw [← h.tasks]
    exact List.mem_map_of_mem hrow
  exact List.mem_map.1 hmem

theorem Store.mem_driveTasks_of_identity (ho : t.operations = s.operations) {row row' : Task}
    (hid : row.identity = row'.identity) (hrow : row ∈ s.tasks) (hrow' : row' ∈ t.driveTasks ctx applyId) :
    row ∈ s.driveTasks ctx applyId := by
  have happly : row.applyId = row'.applyId := congrArg TaskIdentity.applyId hid
  have hoperation : row.applyOperationId = row'.applyOperationId := congrArg TaskIdentity.applyOperationId hid
  have hshard : row.shard = row'.shard := congrArg TaskIdentity.shard hid
  have hns : row.namespaceName = row'.namespaceName := congrArg TaskIdentity.namespaceName hid
  have htable : row.tableName = row'.tableName := congrArg TaskIdentity.tableName hid
  unfold driveTasks at hrow' ⊢
  split at hrow'
  · refine List.mem_filter.2 ⟨hrow, ?_⟩
    have hcond := (List.mem_filter.1 hrow').2
    rw [ho] at hcond
    rw [hoperation, hshard, hns, htable]
    exact hcond
  · refine List.mem_filter.2 ⟨hrow, ?_⟩
    have hcond := (List.mem_filter.1 hrow').2
    rw [happly, hshard]
    exact hcond

theorem Store.Framed.taskPredicate (h : s.Framed t) {guard : WriteGuard} {row row' : Task}
    (hid : row.identity = row'.identity) (hpass : guard.taskPredicate s row = true) :
    guard.taskPredicate t row' = true := by
  cases guard with
  | unguarded => rfl
  | apply lease =>
    have happly : row.applyId = row'.applyId := congrArg TaskIdentity.applyId hid
    have hany : ∀ l : List Apply, (l.any fun a => a.id = row'.applyId && a.leaseToken = lease.token) =
        (l.map fun a => (a.id, a.leaseToken)).any fun p => p.1 = row'.applyId && p.2 = lease.token :=
      fun l => by rw [List.any_map]; rfl
    unfold WriteGuard.taskPredicate at hpass ⊢
    dsimp only at hpass ⊢
    rw [happly, hany, ← h.leases, ← hany] at hpass
    exact hpass
  | operation lease =>
    have hoperation : row.applyOperationId = row'.applyOperationId := congrArg TaskIdentity.applyOperationId hid
    unfold WriteGuard.taskPredicate Store.operationLeaseOwnsRow at hpass ⊢
    rw [hoperation, ← h.operations] at hpass
    exact hpass

theorem Site.Sound.framed (hv : v.Sound ctx applyId tasks) (h : v.store.Framed w.store) (hfails : w.fails = v.fails) :
    w.Sound ctx applyId tasks where
  readable := by rw [hfails]; exact hv.readable
  held task htask := by
    obtain ⟨guard, hguard, hpass⟩ := hv.held task htask
    refine ⟨guard, hguard, fun row' hrow' hid => ?_⟩
    obtain ⟨row, hrow, hsame⟩ := h.mem_tasks hrow'
    have hid' : row.id = task.id := (congrArg TaskIdentity.id hsame).trans hid
    exact h.taskPredicate hsame (hpass row hrow hid')
  unique := by
    have hmap : w.store.tasks.map (·.taskIdentifier) = v.store.tasks.map (·.taskIdentifier) := by
      have := congrArg (List.map TaskIdentity.taskIdentifier) h.tasks
      rwa [List.map_map, List.map_map] at this
    rw [hmap]
    exact hv.unique
  named task htask row' hrow' hid := by
    obtain ⟨row, hrow, hsame⟩ := h.mem_tasks hrow'
    have hid' : row.id = task.id := (congrArg TaskIdentity.id hsame).trans hid
    exact (congrArg TaskIdentity.taskIdentifier hsame).symm.trans (hv.named task htask row hrow hid')
  ofApply row' hrow' := by
    obtain ⟨row, hrow, hsame⟩ := h.mem_tasks (Store.mem_tasks_of_mem_driveTasks hrow')
    have hmem := Store.mem_driveTasks_of_identity h.operations hsame hrow hrow'
    exact (congrArg TaskIdentity.applyId hsame).symm.trans (hv.ofApply row hmem)

/-- What a drive over `tasks` relies on, and the moves that it makes. -/
def Site.completion (ctx : Ctx) (applyId : Nat) (tasks : List Task) : Evolution Site where
  inv w := w.Sound ctx applyId tasks
  le v w := v.store.Advances ctx applyId w.store
  move v w := (Site.Completes applyId v w → w.store.Covered ctx applyId []) ∧
    (v.Sound ctx applyId tasks → w.Sound ctx applyId tasks)
  refl _ := .of_eq rfl rfl
  trans h h' := h.trans h'
  stay _ := ⟨fun ⟨⟨a, ha, hid, hdone⟩, hnot⟩ => absurd hdone (hnot a ha hid), id⟩
  keep h hmove := hmove.2 h

/-- What a method of the drive makes of the rows. -/
abbrev Driven {α : Type} (ctx : Ctx) (applyId : Nat) (tasks : List Task) (P : Store → Prop) (Q : α → Store → Prop)
    (m : DriveMethod α) : Prop :=
  Method.Triple (Site.completion ctx applyId tasks) (fun w => P w.store) (fun a w => Q a w.store) m

theorem Site.completion_move (h : v.store.Framed w.store) (hfails : w.fails = v.fails)
    (ha : w.store.applies = v.store.applies) : (Site.completion ctx applyId tasks).move v w := by
  refine ⟨fun ⟨⟨a, hmem, hid, hdone⟩, hnot⟩ => ?_, fun hv => hv.framed h hfails⟩
  rw [ha] at hmem
  exact absurd hdone (hnot a hmem hid)

@[grind =]
theorem Site.completion_le : (Site.completion ctx applyId tasks).le v w = v.store.Advances ctx applyId w.store := rfl

end

/-! ## The pieces of a drive -/

structure Store.Idle (s t : Store) : Prop where
  tasks : t.tasks = s.tasks
  operations : t.operations = s.operations
  applies : t.applies = s.applies

theorem Store.Idle.refl (s : Store) : s.Idle s := ⟨rfl, rfl, rfl⟩

theorem Store.Idle.framed {s t : Store} (h : s.Idle t) : s.Framed t :=
  ⟨h.operations, by rw [h.tasks], by rw [h.applies]⟩

section
variable {tasks : List Task} {P : Site → Prop} {G : Store → Store → Prop} {W : Evolution Site} {a : Apply}

theorem onStore_write (f : Store → Store × α) :
    onStore (Method.write f) = Method.write fun w => ({ w with store := (f w.store).1 }, (f w.store).2) := rfl

theorem ends_onStore {m : StoreMethod α} (hP : W.Stable P) (h : Method.Only G m)
    (hG : ∀ v s, W.inv v → P v → G v.store s → W.move v { v with store := s } ∧ P { v with store := s }) :
    Method.Ends W P P (onStore m) := by
  have hsite : Method.Only (fun v w : Site => ∃ s, G v.store s ∧ w = { v with store := s })
      (onStore m) := Prog.Ensures.zoom_inv (fun _ s hmove => ⟨s, hmove, rfl⟩) h
  refine .of_always hP hsite (fun _ _ _ => trivial) fun v w hv hpre hmove => ?_
  obtain ⟨s, hmove, rfl⟩ := hmove
  exact hG v s hv hpre hmove

theorem triple_onStore {Q : α → Prop} {m : StoreMethod α} (hP : W.Stable P) (h : Method.Gives G Q m)
    (hG : ∀ v s, W.inv v → P v → G v.store s → W.move v { v with store := s } ∧ P { v with store := s }) :
    Method.Triple W P (fun a w => Q a ∧ P w) (onStore m) := by
  have hsite : Method.Gives (fun v w : Site => ∃ s, G v.store s ∧ w = { v with store := s }) Q
      (onStore m) := Prog.Ensures.zoom_inv (fun _ s hmove => ⟨s, hmove, rfl⟩) h
  refine .of_returns hP hsite (fun _ _ _ => trivial) fun v w hv hpre hmove => ?_
  obtain ⟨s, hmove, rfl⟩ := hmove
  exact hG v s hv hpre hmove

/-- A world of drives that has nothing to say about calls which leave the applies, their operations and tasks alone. -/
class Restful (W : Evolution Site) : Prop where
  rest : ∀ {v w : Site}, W.inv v → v.store.Idle w.store → w.fails = v.fails → W.move v w ∧ W.le v w

instance : Restful (Site.completion ctx applyId tasks) where
  rest _ h hfails := ⟨Site.completion_move h.framed hfails h.applies, .of_eq h.tasks h.operations⟩

variable [Restful W]

theorem Restful.keeps (hP : W.Stable P) {v w : Site} (hv : W.inv v) (hpre : P v) (h : v.store.Idle w.store)
    (hfails : w.fails = v.fails) : W.move v w ∧ P w := by
  obtain ⟨hmove, hle⟩ := Restful.rest hv h hfails
  exact ⟨hmove, hP hv (W.keep hv hmove) hle hpre⟩

theorem triple_idle {m : StoreMethod α} {Q : α → Prop} (h : Method.Gives Store.Idle Q m)
    (hP : W.Stable P) : Method.Triple W P (fun a w => Q a ∧ P w) (onStore m) :=
  triple_onStore hP h fun _ _ hv hpre hidle => Restful.keeps hP hv hpre hidle rfl

theorem triple_only {m : StoreMethod α} (h : Method.Only Store.Idle m) (hP : W.Stable P) :
    Method.Triple W P (fun _ => P) (onStore m) :=
  (ends_onStore hP h fun _ _ hv hpre hidle => Restful.keeps hP hv hpre hidle rfl).triple

theorem idle_settlePending {operation : ControlOperation} {id : Nat}
    {assign : Store → ControlRequest → ControlRequest} :
    Method.Only Store.Idle (settlePending ctx id operation assign) :=
  always_settlePending Store.Idle.refl fun _ => .step fun _ => ⟨rfl, rfl, rfl⟩

theorem triple_settlePending {operation : ControlOperation} {id : Nat}
    {assign : Store → ControlRequest → ControlRequest} (hP : W.Stable P) :
    Method.Triple W P (fun _ => P) (onStore (settlePending ctx id operation assign)) :=
  triple_only idle_settlePending hP

theorem always_cutover (hG : ∀ s, G s s) : Method.Only G (cutover host a) := by
  refine .bind (.read hG _) fun found => ?_
  cases found with
  | none => exact .pure _
  | some stored =>
    refine .bind (.read hG _) fun tasks => ?_
    cases cutoverTask stored tasks with
    | none => exact .pure _
    | some task =>
      refine .ite (fun _ => .pure _) fun _ => .bind (.read hG _) fun stop => .ite (fun _ => .pure _) fun _ => ?_
      cases host.engineCutover task <;> exact .pure _

theorem ends_callParent (call : ParentCall) (hP : W.Stable P) : Method.Ends W P P (callParent call) :=
  .write hP hP fun _ hv hpre => Restful.keeps hP hv hpre (.refl _) rfl

theorem triple_stopHandledUnlessStartPending (a : Apply) (hP : W.Stable P) :
    Method.Triple W P (fun r w => r.2 = a ∧ P w) (onStore (stopHandledUnlessStartPending a)) :=
  triple_idle (.bind (.read Store.Idle.refl fun _ _ => trivial) fun _ (_ : True) => .pure rfl) hP

def Store.UpdatesApply (a : Apply) (s t : Store) : Prop :=
  t = s ∨ ∃ lease, t = s.updateApplies (fun _ => updateRow lease a) (assignUpdate a)

theorem always_updatesApply (ctx : Ctx) (a : Apply) : Method.Only (Store.UpdatesApply a) (update ctx a) := by
  refine always_update (fun _ => .inl rfl) fun lease target => .transaction (fun _ => .inl rfl) fun s t _ _ hf => ?_
  obtain ⟨_, -, hf⟩ := bind_eq_ok hf
  obtain ⟨_, -, hf⟩ := bind_eq_ok hf
  cases hf
  exact ⟨.inr ⟨lease, rfl⟩, trivial⟩

theorem Store.UpdatesApply.framed {s t : Store} (h : s.UpdatesApply a t) : s.Framed t := by
  rcases h with rfl | ⟨lease, rfl⟩
  · exact .refl _
  · exact ⟨rfl, rfl, Table.map_update _ fun _ => rfl⟩

theorem Store.UpdatesApply.completes {v w : Site} (h : v.store.UpdatesApply a w.store)
    (hdone : Site.Completes applyId v w) : a.id = applyId ∧ a.state = .completed := by
  obtain ⟨⟨b', hb', hid, hstate⟩, hnot⟩ := hdone
  rcases h with hsame | ⟨lease, hwrite⟩
  · rw [hsame] at hb'
    exact absurd hstate (hnot b' hb' hid)
  · rw [hwrite] at hb'
    obtain ⟨b, hb, rfl⟩ := List.mem_map.1 hb'
    by_cases hrow : updateRow lease a b = true
    · rw [if_pos hrow] at hid hstate
      simp only [updateRow, Bool.and_eq_true, decide_eq_true_eq] at hrow
      exact ⟨hrow.1.symm.trans hid, hstate⟩
    · rw [if_neg hrow] at hid hstate
      exact absurd hstate (hnot b hb hid)

theorem ends_updateParent (hP : (Site.completion ctx applyId tasks).Stable P)
    (h : a.id = applyId → a.state = .completed → ∀ w, P w → w.store.Covered ctx applyId []) :
    Method.Ends (Site.completion ctx applyId tasks) P P (updateParent ctx a) := by
  have hsite : Method.Only (fun v w : Site => v.store.UpdatesApply a w.store ∧ w.fails = v.fails ∧
      w.store.tasks = v.store.tasks) (onStore (update ctx a)) := by
    refine Prog.Ensures.zoom_inv (fun w s hmove => ⟨hmove, rfl, ?_⟩) (always_updatesApply ctx a)
    rcases hmove with rfl | ⟨lease, rfl⟩ <;> rfl
  refine .bind (ends_callParent _ hP) fun _ => ?_
  refine .of_always hP hsite (fun _ _ _ => trivial) fun v w hsound hv hmove => ?_
  obtain ⟨hupdates, hfails, htasks⟩ := hmove
  have hsound' : w.Sound ctx applyId tasks := hsound.framed hupdates.framed hfails
  have hw : P w := hP hsound hsound' (.of_eq htasks hupdates.framed.operations) hv
  refine ⟨⟨fun hdone => ?_, fun _ => hsound'⟩, hw⟩
  obtain ⟨hid, hstate⟩ := hupdates.completes hdone
  exact h hid hstate w hw

end

/-! ## The writes of the drive's tasks -/

def Store.WritesTask (task : Task) (s t : Store) : Prop :=
  ∃ p, t = s.updateTasks p (assignTask task) ∧ ∀ row ∈ s.tasks, p s row = decide (row.id = task.id)

section
variable {tasks rest : List Task} {P Q : Site → Prop} {task task' : Task} {s t : Store}

theorem Store.WritesTask.framed (h : s.WritesTask task t) : s.Framed t := by
  obtain ⟨p, rfl, -⟩ := h
  exact ⟨rfl, Table.map_update _ fun _ => rfl, rfl⟩

theorem Store.WritesTask.mem (h : s.WritesTask task t) {row' : Task} (hrow' : row' ∈ t.driveTasks ctx applyId) :
    ∃ row ∈ s.driveTasks ctx applyId, row.id = row'.id ∧
      (row.id = task.id ∧ row'.state = task.state ∨ row.id ≠ task.id ∧ row' = row) := by
  have hframed := h.framed
  obtain ⟨p, rfl, hp⟩ := h
  obtain ⟨row, hrow, hupdated⟩ := List.mem_map.1 (Store.mem_tasks_of_mem_driveTasks hrow')
  have hidentity : row.identity = row'.identity := by
    rw [← hupdated]
    split <;> rfl
  refine ⟨row, Store.mem_driveTasks_of_identity hframed.operations hidentity hrow hrow',
    congrArg TaskIdentity.id hidentity, ?_⟩
  rw [hp row hrow] at hupdated
  by_cases hid : row.id = task.id
  · rw [if_pos (decide_eq_true hid)] at hupdated
    rw [← hupdated]
    exact .inl ⟨hid, rfl⟩
  · rw [if_neg (by simpa using hid)] at hupdated
    exact .inr ⟨hid, hupdated.symm⟩

theorem Store.Covered.write_live (hs : s.Covered ctx applyId (task :: rest)) (hid : task'.id = task.id)
    (h : s.WritesTask task' t) (hlive : task'.state.isTerminal = false) : t.Covered ctx applyId (task :: rest) := by
  intro row' hrow'
  obtain ⟨row, hrow, hsame, ⟨hown, hstate⟩ | ⟨-, rfl⟩⟩ := h.mem hrow'
  · rw [hstate]
    exact .inr ⟨hlive, task, .head _, hid.symm.trans (hown.symm.trans hsame)⟩
  · exact hs row' hrow

theorem Store.Covered.write_done (hs : s.Covered ctx applyId (task :: rest)) (hid : task'.id = task.id)
    (h : s.WritesTask task' t) (hdone : task'.state = .completed) : t.Covered ctx applyId rest := by
  intro row' hrow'
  obtain ⟨row, hrow, hsame, ⟨hown, hstate⟩ | ⟨hother, rfl⟩⟩ := h.mem hrow'
  · exact .inl (hstate.trans hdone)
  · rcases hs row' hrow with hcompleted | ⟨hnot, other, hmem, hother'⟩
    · exact .inl hcompleted
    · rcases List.mem_cons.1 hmem with rfl | hmem
      · exact absurd (hother'.symm.trans hid.symm) hother
      · exact .inr ⟨hnot, other, hmem, hother'⟩

theorem idle_verifyStillOwned (guard : WriteGuard) : Method.Only Store.Idle guard.verifyStillOwned := by
  cases guard with
  | unguarded => exact .pure _
  | apply lease => exact always_ensureApplyLeaseStillOwned Store.Idle.refl lease
  | operation lease => exact always_ensureOperationLeaseStillOwned Store.Idle.refl lease

def Store.writeTask (guard : WriteGuard) (task : Task) (s : Store) : Store :=
  s.updateTasks (fun s t => t.id = task.id && guard.taskPredicate s t) (assignTask task)

theorem ends_updateTask_of {W : Evolution Site} {guard : WriteGuard}
    (hguard : taskWriteGuardFromContext ctx task = .ok guard) (hP : W.Stable P) (hQ : W.Stable Q)
    (hwrite : ∀ v, W.inv v → P v → W.move v { v with store := v.store.writeTask guard task } ∧
      Q { v with store := v.store.writeTask guard task })
    (hidle : W.Stable Q → ∀ v s, W.inv v → Q v → v.store.Idle s →
      W.move v { v with store := s } ∧ Q { v with store := s }) :
    Method.Ends W P Q (onStore (updateTask ctx task)) := by
  have hcall : updateTask ctx task = (do
      let rows ← execTasks (fun s t => t.id = task.id && guard.taskPredicate s t) (assignTask task)
      if rows = 0 then guard.verifyStillOwned else pure ()) := by
    unfold updateTask
    rw [hguard]
    rfl
  have hrest (rows : Nat) : Method.Only Store.Idle (if rows = 0 then guard.verifyStillOwned else pure ()) :=
    .ite (fun _ => idle_verifyStillOwned guard) fun _ => .pure _
  rw [hcall, onStore_bind]
  refine .bind ?_ fun rows => ends_onStore hQ (hrest rows) (hidle hQ)
  rw [execTasks, onStore_write]
  exact .write hP hQ hwrite

theorem ends_updateTask (htask : task ∈ tasks) (hid : task'.id = task.id) (happly : task'.applyId = task.applyId)
    (h : ∀ w s, P w → w.store.WritesTask task' s → Q { w with store := s })
    (hP : (Site.completion ctx applyId tasks).Stable P) (hQ : (Site.completion ctx applyId tasks).Stable Q) :
    Method.Ends (Site.completion ctx applyId tasks) P Q (onStore (updateTask ctx task')) := by
  intro w hw hpre
  -- Which guard the write has does not depend on the state.
  obtain ⟨guard, hguard, -⟩ := hw.held task htask
  have hguard' : taskWriteGuardFromContext ctx task' = .ok guard := by
    rw [← hguard, taskWriteGuardFromContext, taskWriteGuardFromContext, hid, happly]
  refine ends_updateTask_of hguard' hP hQ (fun v hv hpv => ?_)
    (fun hQ _ _ hv hpre hidle => Restful.keeps hQ hv hpre hidle rfl) w hw hpre
  obtain ⟨guard₁, hguard₁, hpass⟩ := hv.held task htask
  cases hguard.symm.trans hguard₁
  have hwrites : v.store.WritesTask task' (v.store.writeTask guard task') := by
    refine ⟨_, rfl, fun row hrow => ?_⟩
    by_cases hrowid : row.id = task'.id
    · rw [hpass row hrow (hrowid.trans hid), Bool.and_true]
    · rw [decide_eq_false hrowid, Bool.false_and]
  exact ⟨Site.completion_move hwrites.framed rfl rfl, h v _ hpv hwrites⟩

theorem onStore_transitionTaskState (newState : TaskState) : onStore (transitionTaskState ctx task newState) = (do
      Method.attempt (onStore (updateTask ctx { task with state := newState }))
      pure { task with state := newState }) := by
  unfold transitionTaskState
  rw [onStore_bind]
  exact congrArg (· >>= _) (Method.zoom_attempt _ _)

theorem triple_transitionTaskState {newState : TaskState} (htask : task ∈ tasks) (hid : task'.id = task.id)
    (happly : task'.applyId = task.applyId)
    (hP : (Site.completion ctx applyId tasks).Stable P) (hQ : (Site.completion ctx applyId tasks).Stable Q)
    (h : ∀ w s, P w → w.store.WritesTask { task' with state := newState } s → Q { w with store := s }) :
    Method.Triple (Site.completion ctx applyId tasks) P (fun r w => r = { task' with state := newState } ∧ Q w)
      (onStore (transitionTaskState ctx task' newState)) := by
  have hupdate := @ends_updateTask ctx applyId tasks P Q task { task' with state := newState } htask hid happly h hP hQ
  rw [onStore_transitionTaskState]
  refine .bind (Method.Triple.attempt hupdate) fun _ => ?_
  exact .done (by grind) fun w hw => ⟨rfl, hw⟩

end

/-! ## Control requests -/

structure Store.Touches (s t : Store) : Prop where
  framed : s.Framed t
  applies : t.applies = s.applies

section
variable {tasks rest : List Task} {P : Site → Prop}

theorem touches_updateTask (task : Task) : Method.Only Store.Touches (updateTask ctx task) := by
  refine always_updateTask (fun s => ⟨.refl s, rfl⟩) fun guard => .step fun s => ⟨⟨rfl, ?_, rfl⟩, rfl⟩
  exact Table.map_update _ fun _ => rfl

theorem yields_transitionTaskState (task : Task) (newState : TaskState) :
    Method.Yields (fun _ => True) Store.Touches (· = { task with state := newState })
      (transitionTaskState ctx task newState) :=
  .bind (.attempt (touches_updateTask _)) fun _ _ => .pure rfl

theorem triple_touches {m : StoreMethod α} {Q : α → Prop} (h : Method.Gives Store.Touches Q m) :
    Method.Triple (Site.completion ctx applyId tasks) P (fun a _ => Q a) (onStore m) := by
  have hsite : Method.Gives (fun v w : Site => v.store.Touches w.store ∧ w.fails = v.fails) Q
      (onStore m) := Prog.Ensures.zoom_inv (fun _ _ hmove => ⟨hmove, rfl⟩) h
  refine .mono (fun _ _ _ => trivial) (Method.Triple.of_returns Evolution.Stable.true hsite
    (fun _ _ _ => trivial) fun v w _ _ hmove => ⟨?_, trivial⟩) fun a _ _ ha => ha.1
  exact Site.completion_move hmove.1.framed hmove.2 hmove.1.applies

theorem yields_markTasksWithState (snapshot : Task → Option TaskProgress) (newState : TaskState) (ts : List Task) :
    Method.Yields (fun _ => True) Store.Touches (fun _ => True) (markTasksWithState ctx snapshot newState ts) := by
  induction ts with
  | nil => exact .pure trivial
  | cons t ts ih =>
    refine .ite (fun _ => .bind ih fun r _ => .pure trivial) fun _ => ?_
    exact .bind (yields_transitionTaskState _ _) fun _ _ => .bind ih fun r _ => .pure trivial

theorem triple_markTasksWithState (snapshot : Task → Option TaskProgress) (newState : TaskState) (ts : List Task)
    (hP : (Site.completion ctx applyId tasks).Stable P) :
    Method.Triple (Site.completion ctx applyId tasks) P
      (fun r w => r.1 = 0 → P w ∧ ∀ t ∈ ts, t.state.isTerminal = true)
      (onStore (markTasksWithState ctx snapshot newState ts)) := by
  induction ts with
  | nil =>
    exact .done (by grind) fun w hw _ => ⟨hw, fun t ht => absurd ht List.not_mem_nil⟩
  | cons t ts ih =>
    by_cases hover : t.state.isTerminal = true
    · have hcall : markTasksWithState ctx snapshot newState (t :: ts) =
          markTasksWithState ctx snapshot newState ts >>= fun r => pure (r.1, r.2 + 1) := if_pos hover
      rw [hcall, onStore_bind]
      refine .bind ih fun r => ?_
      refine .done (by grind) fun w hw hzero => ?_
      obtain ⟨hpost, hall⟩ := hw hzero
      refine ⟨hpost, fun u hu => ?_⟩
      rcases List.mem_cons.1 hu with rfl | hu
      · exact hover
      · exact hall u hu
    · have hcall : markTasksWithState ctx snapshot newState (t :: ts) = (do
          let _ ← transitionTaskState ctx ((snapshot t).elim t (withSnapshot t)) newState
          let r ← markTasksWithState ctx snapshot newState ts
          pure (r.1 + 1, r.2)) := if_neg hover
      have hwritten : Method.Yields (fun _ => True) Store.Touches (fun r : Nat × Nat => r.1 ≠ 0)
          (markTasksWithState ctx snapshot newState (t :: ts)) := by
        rw [hcall]
        refine .bind (yields_transitionTaskState _ _) fun _ _ =>
          .bind (yields_markTasksWithState snapshot newState ts) fun r _ => .pure (Nat.succ_ne_zero _)
      exact .post (triple_touches hwritten.returns) fun r _ _ hr hzero => absurd hzero hr

theorem triple_loadForStop (id : Nat) (purpose : String)
    (hP : (Site.completion ctx applyId tasks).Stable P) :
    Method.Triple (Site.completion ctx applyId tasks) P (fun a w => a.id = id ∧ P w) (loadForStop id purpose) := by
  have hread : Method.Triple (Site.completion ctx applyId tasks) P
      (fun found w => (∀ a ∈ found, a.id = id) ∧ P w) (onStore (Method.read (·.getApply id))) := by
    refine Method.Triple.read hP (by grind) fun w _ hw => ⟨fun a ha => ?_, hw⟩
    simpa using List.find?_some ha
  refine .bind hread fun found => ?_
  cases found with
  | none => exact .throw _
  | some a => exact .done (by grind) fun w hw => ⟨hw.1 a rfl, hw.2⟩

theorem triple_markApplyStopped (id : Nat) :
    Driven ctx applyId tasks (fun _ => True) (fun _ _ => True) (markApplyStopped ctx id) := by
  refine .bind (triple_loadForStop id _ .true) fun a => ?_
  refine .pre (fun _ _ _ => trivial) (.ite (fun _ => .done .true fun _ _ => trivial) fun _ => ?_)
  exact (ends_updateParent .true fun _ hstate => by cases hstate).triple

theorem triple_markApplyCancelled (id : Nat) : Driven ctx applyId tasks (fun _ => True) (fun _ _ => True)
      (markApplyCancelled ctx id) := by
  refine .bind (triple_loadForStop id _ .true) fun a => ?_
  refine .pre (fun _ _ _ => trivial) (.bind (.look .true) fun now => ?_)
  exact (ends_updateParent .true fun _ hstate => by cases hstate).triple

theorem triple_handleStopAllTasksTerminal (id : Nat) :
    Driven ctx applyId tasks (fun s => id = applyId → s.Covered ctx applyId [])
      (fun _ _ => True) (handleStopAllTasksTerminal ctx id) := by
  refine .bind (triple_loadForStop id _ (by grind)) fun a => ?_
  refine .ite (fun _ => .done (by grind) fun _ _ => trivial) fun _ => ?_
  refine .bind (.look (by grind)) fun stored => .bind (.look (by grind)) fun now => ?_
  refine .post (Method.Ends.triple (ends_updateParent (by grind) fun hid _ s hs => ?_)) fun _ _ _ _ => trivial
  exact hs.2 (hs.1.symm.trans hid)

/-- A stop of the apply. It writes tasks and applies, and it completes the drive's own apply only when it has found
all its tasks over, which are then the completed ones. -/
theorem triple_stopOwnedApply (a : Apply) :
    Driven ctx applyId tasks (Store.Covered ctx applyId rest) (fun _ _ => True)
      (stopOwnedApply host ctx a) := by
  -- What has been read decides whether all tasks of the drive are over.
  refine .bind (Q := fun all w =>
      (∀ t ∈ all, t.applyId = applyId → t.state.isTerminal = true) → w.store.Covered ctx applyId [])
    (.read (by grind) (by grind) fun w hw hcovered hall row hrow => ?_) fun all => ?_
  · rcases hcovered row hrow with hdone | ⟨hnot, -⟩
    · exact .inl hdone
    · rw [hall row (Store.mem_tasks_of_mem_driveTasks hrow) (hw.ofApply row hrow)] at hnot
      cases hnot
  refine .bind (.look (by grind)) fun found => ?_
  cases found with
  | none => exact .throw _
  | some target =>
    refine .ite (fun _ => .throw _) fun _ => .bind (.lift (by grind)) fun asked => ?_
    have hmark : Driven ctx applyId tasks (fun s => (∀ t ∈ all, t.applyId = applyId → t.state.isTerminal = true) → s.Covered ctx applyId [])
        (fun r s => r.1 = 0 → target.id = applyId → s.Covered ctx applyId [])
        (onStore (if host.databaseType = databaseTypeVitess then
            markTasksWithState ctx (fun _ => none) .cancelled (all.filter (·.applyId = target.id))
          else markTasksWithState ctx (fun task => if asked then host.snapshotEngineProgress task else none) .stopped
            (all.filter (·.applyId = target.id)))) := by
      have hnone : ∀ (r : Nat × Nat) (w : Site), (r.1 = 0 →
          ((∀ t ∈ all, t.applyId = applyId → t.state.isTerminal = true) → w.store.Covered ctx applyId []) ∧
            ∀ t ∈ all.filter (·.applyId = target.id), t.state.isTerminal = true) →
          r.1 = 0 → target.id = applyId → w.store.Covered ctx applyId [] := by
        intro r w hr hzero hown
        obtain ⟨hcovered, hover⟩ := hr hzero
        exact hcovered fun t ht hid => hover t (List.mem_filter.2 ⟨ht, by simpa using hid.trans hown.symm⟩)
      split
      · exact .post (triple_markTasksWithState _ _ _ (by grind)) fun r w _ => hnone r w
      · exact .post (triple_markTasksWithState _ _ _ (by grind)) fun r w _ => hnone r w
    refine .bind hmark fun r => ?_
    refine .ite (fun _ => ?_) fun hzero => ?_
    · refine .pre (fun _ _ _ => trivial) (.ite (fun _ => ?_) fun _ => ?_)
      · exact .bind (triple_markApplyCancelled target.id) fun _ => .done .true fun _ _ => trivial
      · exact .bind (triple_markApplyStopped target.id) fun _ => .done .true fun _ _ => trivial
    · have hcovered : ∀ w : Site, (r.1 = 0 → target.id = applyId → w.store.Covered ctx applyId []) →
          target.id = applyId → w.store.Covered ctx applyId [] := fun w hw => hw (by omega)
      refine .pre (fun w _ => hcovered w) (.ite (fun _ => .throw _) fun _ => .ite (fun _ => ?_) fun _ => ?_)
      · exact .pre (fun _ _ _ => trivial) (.done .true fun _ _ => trivial)
      · exact .bind (triple_handleStopAllTasksTerminal target.id) fun _ => .done .true fun _ _ => trivial

theorem triple_completePendingStopIfStoredApplyResolved (a : Apply)
    (hP : (Site.completion ctx applyId tasks).Stable P) :
    Method.Triple (Site.completion ctx applyId tasks) P (fun r w => (∀ stored ∈ r, stored.id = a.id) ∧ P w)
      (onStore (completePendingStopIfStoredApplyResolved ctx a)) := by
  refine triple_idle ?_ hP
  refine .bind (Q := fun found : Option Apply => ∀ stored ∈ found, stored.id = a.id)
    (.read Store.Idle.refl fun s _ stored hfound => ?_) fun found hfound => ?_
  · simpa using List.find?_some hfound
  · cases found with
    | none => exact .throw _
    | some stored =>
      refine .ite (fun _ => .bind (.of_always idle_settlePending) fun _ _ => .pure ?_) fun _ => .pure fun stored hs => by cases hs
      rintro _ ⟨⟩
      exact hfound stored rfl

theorem triple_processPendingStopControlRequest (a : Apply) :
    Driven ctx applyId tasks (Store.Covered ctx applyId rest)
      (fun r s => r.2.id = a.id ∧ (r.1 = false → s.Covered ctx applyId rest))
      (processPendingStopControlRequest host ctx a) := by
  refine .bind (.look (by grind)) fun request => ?_
  cases request with
  | none => exact .done (by grind) fun w hw => ⟨rfl, fun _ => hw⟩
  | some request =>
    refine .bind (triple_completePendingStopIfStoredApplyResolved a (by grind)) fun resolved => ?_
    cases resolved with
    | some stored =>
      refine .post (triple_stopHandledUnlessStartPending stored (by grind)) fun r w _ hr => ?_
      exact ⟨hr.1 ▸ hr.2.1 stored rfl, fun _ => hr.2.2⟩
    | none =>
      refine .pre (fun w _ hw => hw.2) (.ite (fun _ => ?_) fun _ => ?_)
      · refine .bind (triple_settlePending (by grind)) fun _ => ?_
        refine .post (triple_stopHandledUnlessStartPending a (by grind)) fun r w _ hr => ?_
        exact ⟨congrArg Apply.id hr.1, fun _ => hr.2⟩
      · refine .bind (.look (by grind)) fun reverting => .ite (fun _ => ?_) fun _ => ?_
        · refine .bind (triple_settlePending (by grind)) fun _ => ?_
          exact .done (by grind) fun _ _ => ⟨rfl, nofun⟩
        · refine .bind (triple_stopOwnedApply a) fun accepted => .ite (fun _ => ?_) fun _ => .throw _
          refine .bind (triple_completePendingStopIfStoredApplyResolved a .true) fun resolved => ?_
          cases resolved with
          | none => exact .throw _
          | some stored =>
            exact .done (by grind) fun _ hw => ⟨hw.1 stored rfl, nofun⟩

theorem triple_processPendingCutoverControlRequest (a : Apply)
    (hP : (Site.completion ctx applyId tasks).Stable P) :
    Method.Triple (Site.completion ctx applyId tasks) P (fun r w => r.id = a.id ∧ P w)
      (processPendingCutoverControlRequest host ctx a) := by
  have hsame : ∀ b : Apply, b.id = a.id → Method.Triple (Site.completion ctx applyId tasks) P
      (fun r w => r.id = a.id ∧ P w) (pure b : DriveMethod Apply) :=
    fun b hb => .done (by grind) fun w hw => ⟨hb, hw⟩
  refine .bind (.look hP) fun request => ?_
  cases request with
  | none => exact hsame a rfl
  | some request =>
    refine .ite (fun _ => .bind (triple_settlePending hP) fun _ => hsame a rfl) fun _ => ?_
    refine .ite (fun _ => .bind (triple_settlePending hP) fun _ => .throw _) fun _ => ?_
    refine .ite (fun _ => hsame a rfl) fun _ => ?_
    have hready : Method.Only Store.Idle (applyReadyForCutoverRequest a) :=
      .ite (fun _ => .pure _) fun _ => .ite (fun _ => .pure _) fun _ => .read Store.Idle.refl _
    refine .bind (triple_only hready hP) fun ready => .ite (fun _ => hsame a rfl) fun _ => ?_
    refine .bind (.look hP) fun stopping => .ite (fun _ => .throw _) fun _ => ?_
    have hmark : Method.Triple (Site.completion ctx applyId tasks) P
        (fun b w => b.id = a.id ∧ P w) (markApplyCuttingOverForControlRequest ctx a) := by
      refine .ite (fun _ => ?_) fun _ => hsame a rfl
      exact .bind (ends_updateParent hP fun _ hstate => by cases hstate).triple fun _ => hsame _ rfl
    refine .bind hmark fun b => ?_
    refine .bind (triple_only (always_cutover Store.Idle.refl) (by grind)) fun refused => ?_
    cases refused with
    | some message => exact .bind (triple_settlePending (by grind)) fun _ => .throw _
    | none =>
      refine .bind (triple_settlePending (by grind)) fun _ => ?_
      exact .done (by grind) fun _ hw => hw

end

/-! ## One task -/

structure Task.Copy (task task' : Task) : Prop where
  id : task'.id = task.id
  applyId : task'.applyId = task.applyId
  taskIdentifier : task'.taskIdentifier = task.taskIdentifier

def Host.NeverReverts (host : Host) : Prop :=
  ∀ task, ∀ poll ∈ host.progress task, ∀ result ∈ poll, result.state ≠ .reverted

section
variable {tasks rest : List Task} {task task' : Task} {w : Site} {result : ProgressResult}

theorem Task.Copy.refl (task : Task) : task.Copy task := ⟨rfl, rfl, rfl⟩

theorem Site.Sound.covered_of_fresh (hw : w.Sound ctx applyId tasks) (htask : task ∈ tasks)
    (hcovered : w.store.Covered ctx applyId (task :: rest))
    (hfresh : ∀ fresh, w.store.tasks.find? (·.taskIdentifier = task.taskIdentifier) = some fresh →
      fresh.state.isTerminal = true) : w.store.Covered ctx applyId rest := by
  intro row hrow
  rcases hcovered row hrow with hdone | ⟨hnot, other, hmem, hother⟩
  · exact .inl hdone
  rcases List.mem_cons.1 hmem with rfl | hmem
  · -- The row is the one that was looked up, since it carries the identifier of the task.
    have hrow' := Store.mem_tasks_of_mem_driveTasks hrow
    have hnamed := hw.named other htask row hrow' hother.symm
    cases hfind : w.store.tasks.find? (·.taskIdentifier = other.taskIdentifier) with
    | none => exact absurd (decide_eq_true hnamed) (List.find?_eq_none.1 hfind row hrow')
    | some fresh =>
      have hfound : fresh.taskIdentifier = other.taskIdentifier := by simpa using List.find?_some hfind
      have hsame : fresh = row :=
        List.inj_on_of_nodup_map hw.unique (List.mem_of_find?_eq_some hfind) hrow' (hfound.trans hnamed.symm)
      rw [← hsame, hfresh fresh hfind] at hnot
      cases hnot
  · exact .inr ⟨hnot, other, hmem, hother⟩

theorem Site.Sound.covered_of_polled (hw : w.Sound ctx applyId tasks) (htask : task ∈ tasks) (hcopy : task.Copy task')
    (hcovered : w.store.Covered ctx applyId (task :: rest)) {fresh : Task}
    (hfresh : (w.freshTask .taskPoll task').filter (·.state.isTerminal) = some fresh) :
    w.store.Covered ctx applyId rest := by
  refine hw.covered_of_fresh htask hcovered fun found hfind => ?_
  obtain ⟨hsome, hover⟩ := Option.filter_eq_some_iff.1 hfresh
  unfold Site.freshTask at hsome
  split at hsome
  · cases hsome
  · rw [hcopy.taskIdentifier, hfind] at hsome
    cases hsome
    exact hover

theorem triple_checkTaskReady (n : Nat) (htask : task ∈ tasks) :
    Driven ctx applyId tasks (Store.Covered ctx applyId (task :: rest))
      (fun action s => s.Covered ctx applyId (task :: rest) ∧
        (action = .skip → s.Covered ctx applyId rest))
      (checkTaskReady n task) := by
  have hend : ∀ action : TaskAction, action ≠ .skip →
      Driven ctx applyId tasks (Store.Covered ctx applyId (task :: rest))
        (fun action s => s.Covered ctx applyId (task :: rest) ∧
          (action = .skip → s.Covered ctx applyId rest)) (pure action : DriveMethod TaskAction) :=
    fun action hne => .done (by grind) fun w hw => ⟨hw, fun hskip => absurd hskip hne⟩
  refine .bind (Q := fun _ w => w.store.Covered ctx applyId (task :: rest))
    (.read (by grind) (by grind) fun _ _ hw => hw) fun cancelled => ?_
  refine .ite (fun _ => hend _ nofun) fun _ => ?_
  refine .bind (Q := fun found w => w.store.Covered ctx applyId (task :: rest) ∧
      ((∀ fresh, found = some fresh → fresh.state.isTerminal = true) → w.store.Covered ctx applyId rest))
    (.read (by grind) (by grind) fun w hw hcovered => ?_) fun found => ?_
  · refine ⟨hcovered, fun hfresh => hw.covered_of_fresh htask hcovered fun fresh hfind => hfresh fresh ?_⟩
    rw [Site.freshTask, hw.readable]
    exact hfind
  have hskip : (∀ fresh, found = some fresh → fresh.state.isTerminal = true) →
      Driven ctx applyId tasks (fun s => s.Covered ctx applyId (task :: rest) ∧
        ((∀ fresh, found = some fresh → fresh.state.isTerminal = true) → s.Covered ctx applyId rest))
        (fun action s => s.Covered ctx applyId (task :: rest) ∧
          (action = .skip → s.Covered ctx applyId rest)) (pure .skip : DriveMethod TaskAction) := by
    intro hover
    exact .done (by grind) fun w hw => ⟨hw.1, fun _ => hw.2 hover⟩
  cases found with
  | none => exact hskip fun fresh hf => by cases hf
  | some fresh =>
    refine .ite (fun _ => .pre (fun w _ hw => hw.1) (hend _ nofun)) fun _ => .ite (fun hover => ?_) fun _ =>
      .pre (fun w _ hw => hw.1) (hend _ nofun)
    exact hskip fun f hf => by cases hf; exact hover

theorem taskStateFromProgressResult_isTerminal (h : result.state.isTerminal = false) :
    (taskStateFromProgressResult result).isTerminal = false := by
  unfold taskStateFromProgressResult
  cases hstate : result.state <;> simp_all [EngineState.isTerminal, engineStateToStorage, TaskState.isTerminal]

theorem completed_of_actionAfterPoll (hover : result.state.isTerminal = true)
    (hrev : result.state ≠ .reverted) (hstate : task'.state = taskStateFromProgressResult result)
    (hfailed : actionAfterPoll task' .continue ≠ .failed) (hstopped : actionAfterPoll task' .continue ≠ .stopped) :
    taskStateFromProgressResult result = .completed := by
  unfold actionAfterPoll at hfailed hstopped
  rw [hstate] at hfailed hstopped
  unfold taskStateFromProgressResult at hfailed hstopped ⊢
  cases hr : result.state <;> cases hb : result.retryable <;>
    simp_all [EngineState.isTerminal, engineStateToStorage]

theorem withProgress_state (now : Nat) (task : Task) (result : ProgressResult) :
    (withProgress now task result).state = taskStateFromProgressResult result := by
  unfold withProgress
  split <;> rfl

theorem Task.Copy.withProgress (h : task.Copy task') (now : Nat) (result : ProgressResult) :
    task.Copy (SchemaBot.withProgress now task' result) := by
  unfold SchemaBot.withProgress
  split
  · exact ⟨h.id, h.applyId, h.taskIdentifier⟩
  · exact ⟨h.id, h.applyId, h.taskIdentifier⟩

@[grind]
def RoundEnds (ctx : Ctx) (applyId : Nat) (rest : List Task) (id : Nat) (task : Task) (action : TaskAction)
    (r : Apply × Task × TaskAction) (w : Site) : Prop :=
  r.1.id = id ∧ task.Copy r.2.1 ∧ (action ≠ .failed → action ≠ .stopped → w.store.Covered ctx applyId rest)

theorem Task.Copy.transition (h : task.Copy task') (newState : TaskState) :
    task.Copy { task' with state := newState } := ⟨h.id, h.applyId, h.taskIdentifier⟩

theorem triple_transition_live (htask : task ∈ tasks) (hcopy : task.Copy task') {newState : TaskState}
    (hlive : newState.isTerminal = false) : Driven ctx applyId tasks (Store.Covered ctx applyId (task :: rest))
      (fun written s => task.Copy written ∧ s.Covered ctx applyId (task :: rest))
      (onStore (transitionTaskState ctx task' newState)) := by
  refine .post (triple_transitionTaskState htask hcopy.id hcopy.applyId (by grind) (by grind)
    fun w s hs hwrite => hs.write_live (hcopy.transition newState).id hwrite hlive) fun written w _ hw => ⟨?_, hw.2⟩
  rw [hw.1]
  exact hcopy.transition newState

theorem triple_transition_done (htask : task ∈ tasks) (hcopy : task.Copy task') (newState : TaskState) :
    Driven ctx applyId tasks (Store.Covered ctx applyId (task :: rest))
      (fun written s => (task.Copy written ∧ written.state = newState) ∧
        (newState = .completed → s.Covered ctx applyId rest))
      (onStore (transitionTaskState ctx task' newState)) := by
  refine .post (triple_transitionTaskState htask hcopy.id hcopy.applyId
    (Q := fun w => newState = .completed → w.store.Covered ctx applyId rest) (by grind) (by grind)
    fun w s hs hwrite hc => hs.write_done (hcopy.transition newState).id hwrite hc) fun written w _ hw => ?_
  rw [hw.1]
  exact ⟨⟨hcopy.transition newState, rfl⟩, hw.2⟩

theorem triple_report_over (htask : task ∈ tasks) (hcopy : task.Copy task') (now : Nat)
    (hover : result.state.isTerminal = true) (hrev : result.state ≠ .reverted) :
    Driven ctx applyId tasks (Store.Covered ctx applyId (task :: rest))
      (fun written s => task.Copy written ∧ (actionAfterPoll written .continue ≠ .failed →
        actionAfterPoll written .continue ≠ .stopped → s.Covered ctx applyId rest))
      (onStore (transitionTaskState ctx (withProgress now task' result) (withProgress now task' result).state)) := by
  have hstate := withProgress_state now task' result
  refine .post (triple_transition_done htask (hcopy.withProgress now result) _) fun written w _ hw => ?_
  obtain ⟨⟨hcopied, hwritten⟩, hcovered⟩ := hw
  refine ⟨hcopied, fun hnf hns => hcovered (hstate.trans ?_)⟩
  exact completed_of_actionAfterPoll hover hrev (hwritten.trans hstate) hnf hns

theorem triple_pollTaskToCompletion (htask : task ∈ tasks) {polls : List (Option ProgressResult)}
    (hpolls : ∀ poll ∈ polls, ∀ result ∈ poll, result.state ≠ .reverted) (id : Nat) :
    ∀ (a : Apply) (copy : Task), a.id = id → task.Copy copy →
      Method.Triple (Site.completion ctx applyId tasks) (fun w => w.store.Covered ctx applyId (task :: rest))
        (fun r => RoundEnds ctx applyId rest id task (actionAfterPoll r.2.1 r.2.2) r)
        (pollTaskToCompletion host ctx a copy polls) := by
  induction polls with
  | nil =>
    intro a copy hid hcopy
    exact .done (by grind) fun w _ => ⟨hid, hcopy, fun _ hne => absurd rfl hne⟩
  | cons poll polls ih =>
    intro a copy hid hcopy
    have hloop := ih fun p hp => hpolls p (.tail _ hp)
    refine .bind (triple_processPendingStopControlRequest a) fun handled => ?_
    refine .ite (fun _ => ?_) fun hnot => ?_
    · exact .done (by grind) fun w hw =>
        ⟨hw.1.trans hid, ⟨hcopy.id, hcopy.applyId, hcopy.taskIdentifier⟩, fun _ hne => absurd rfl hne⟩
    refine .bind (triple_processPendingCutoverControlRequest handled.2 (by grind)) fun b => ?_
    refine .pre (P := fun w => b.id = id ∧ w.store.Covered ctx applyId (task :: rest))
      (fun w _ hw => ⟨hw.1.trans (hw.2.1.trans hid), hw.2.2 (Bool.eq_false_iff.2 hnot)⟩) ?_
    refine .bind (Q := fun found w => (b.id = id ∧ w.store.Covered ctx applyId (task :: rest)) ∧
        (∀ fresh, found.filter (·.state.isTerminal) = some fresh → w.store.Covered ctx applyId rest))
      (.read (by grind) (by grind) fun w hw hcovered => ⟨hcovered, fun fresh hfresh => ?_⟩) fun found => ?_
    · exact hw.covered_of_polled htask hcopy hcovered.2 hfresh
    -- What is stored of the task decides first, then what the engine reports.
    cases hfresh : found.filter (·.state.isTerminal) with
    | some fresh =>
      refine .done (by grind) fun w hw => ⟨hw.1.1, ?_, fun _ _ => hw.2 fresh rfl⟩
      exact ⟨hcopy.id, hcopy.applyId, hcopy.taskIdentifier⟩
    | none =>
      refine .known (fun w hw => hw.1) fun hb => ?_
      cases poll with
      | none => exact hloop b copy hb hcopy
      | some result =>
        refine .bind (.look (by grind)) fun now => ?_
        cases hover : result.state.isTerminal with
        | false =>
          have hlive : (withProgress now copy result).state.isTerminal = false := by
            rw [withProgress_state]
            exact taskStateFromProgressResult_isTerminal hover
          refine .bind (triple_transition_live htask (hcopy.withProgress now result) hlive) fun written =>
            .ite nofun fun _ => ?_
          exact .known (fun w hw => hw) fun hcopied => hloop b written hb hcopied
        | true =>
          refine .bind (triple_report_over htask hcopy now hover (hpolls _ (.head _) result rfl)) fun written => ?_
          refine .ite (fun _ => ?_) fun hnot => absurd rfl hnot
          exact .done (by grind) fun w hw => ⟨hb, hw.1, hw.2⟩

theorem returns_markTaskFailed (task : Task) (errMsg : String) :
    Method.Gives Store.Touches (fun r => task.Copy r) (markTaskFailed ctx task errMsg) := by
  refine .bind (.read (fun s => ⟨.refl s, rfl⟩) fun _ _ => trivial) fun now (_ : True) => ?_
  refine .mono (fun r hr => ?_) (yields_transitionTaskState _ _).returns
  rw [hr]
  exact ⟨rfl, rfl, rfl⟩

theorem returns_markTaskRetryable (task : Task) (errMsg : String) :
    Method.Gives Store.Touches (fun r => task.Copy r) (markTaskRetryable ctx task errMsg) := by
  refine .mono (fun r hr => ?_) (yields_transitionTaskState _ _).returns
  rw [hr]
  exact ⟨rfl, rfl, rfl⟩

theorem triple_refused {m : StoreMethod Task} {id : Nat} {a : Apply} (hid : a.id = id)
    (h : Method.Gives Store.Touches (fun r => task.Copy r) m) :
    Method.Triple (Site.completion ctx applyId tasks) (fun w => w.store.Covered ctx applyId (task :: rest))
      (fun r => RoundEnds ctx applyId rest id task r.2.2 r)
      (do let task ← onStore m; pure (a, task, TaskAction.failed)) := by
  refine .bind (triple_touches h) fun written => ?_
  exact .done (by grind) fun w hw => ⟨hid, hw, fun hne => absurd rfl hne⟩

theorem triple_runEngineTask (htask : task ∈ tasks) (hhost : host.NeverReverts) (n : Nat) (a : Apply) :
    Method.Triple (Site.completion ctx applyId tasks) (fun w => w.store.Covered ctx applyId (task :: rest))
      (fun r => RoundEnds ctx applyId rest a.id task r.2.2 r) (runEngineTask host n ctx a task) := by
  refine .bind (triple_processPendingStopControlRequest a) fun handled => ?_
  refine .ite (fun _ => ?_) fun hnot => ?_
  · exact .done (by grind) fun w hw => ⟨hw.1, .refl task, fun _ hne => absurd rfl hne⟩
  refine .known (fun w hw => ⟨hw.1, hw.2 (Bool.eq_false_iff.2 hnot)⟩) fun hid => ?_
  have hcall : Driven ctx applyId tasks (Store.Covered ctx applyId (task :: rest)) (fun _ s => s.Covered ctx applyId (task :: rest))
      (callEngine n (sequentialRequest task)) :=
    .write (by grind) (by grind) fun w _ hw => ⟨Site.completion_move (.refl _) rfl rfl, hw⟩
  cases (if host.databaseType = databaseTypeMySQL then host.credentialsForMySQLNamespace task.namespaceName
    else .ok ()) with
  | error errMsg => exact triple_refused hid (returns_markTaskFailed task _)
  | ok u =>
    refine .bind hcall fun _ => ?_
    cases (host.engineApply [task]).2 with
    | failed errMsg retryable =>
      refine triple_refused hid ?_
      split
      · exact returns_markTaskRetryable task _
      · exact returns_markTaskFailed task _
    | rejected errMsg => exact triple_refused hid (returns_markTaskFailed task _)
    | accepted resumeState isInstant =>
      refine .bind (.look (by grind)) fun now => ?_
      have hstart : task.Copy { task with startedAt := some now } := ⟨rfl, rfl, rfl⟩
      refine .bind (triple_transition_live htask hstart rfl) fun started => .known (fun w hw => hw) fun hcopy => ?_
      refine .bind (triple_pollTaskToCompletion htask (hhost started) a.id handled.2 started hid hcopy) fun r => ?_
      exact .done (by grind) fun _ hend => hend

end

/-! ## The loop and its outcome -/

section
variable {tasks rest : List Task} {task : Task}

theorem triple_runReadyTask (htask : task ∈ tasks) (hhost : host.NeverReverts) (n : Nat) (resumed : Bool) (a : Apply) :
    Method.Triple (Site.completion ctx applyId tasks) (fun w => w.store.Covered ctx applyId (task :: rest))
      (fun r => RoundEnds ctx applyId rest a.id task r.2.2 r) (runReadyTask host n ctx resumed a task) := by
  have hneeds : Driven ctx applyId tasks (Store.Covered ctx applyId (task :: rest)) (fun _ s => s.Covered ctx applyId (task :: rest))
      (tableStillNeedsChange host task.tableName) := by
    refine .bind (.look (by grind)) fun planned => ?_
    cases planned with
    | error message | ok changes => exact .done (by grind) fun _ hw => hw
  refine .ite (fun _ => .bind hneeds fun needed => ?_) fun _ => triple_runEngineTask htask hhost n a
  match needed with
  | .error message => exact triple_runEngineTask htask hhost n a
  | .ok true => exact triple_runEngineTask htask hhost n a
  | .ok false =>
    refine .bind (.look (by grind)) fun now => ?_
    have hcopy : task.Copy { task with progress.progressPercent := 100, completedAt := some now } := ⟨rfl, rfl, rfl⟩
    refine .bind (triple_transition_done htask hcopy .completed) fun written => ?_
    exact .done (by grind) fun w hw => ⟨rfl, hw.1.1, fun _ _ => hw.2 rfl⟩

theorem triple_runTasks (hhost : host.NeverReverts) (n : Nat) (resumed : Bool) {ts : List Task} :
    ∀ (a : Apply), ts ⊆ tasks →
      Driven ctx applyId tasks (Store.Covered ctx applyId ts)
        (fun r s => r.1.id = a.id ∧ (r.2.2 = .done → s.Covered ctx applyId []))
        (runTasks host n ctx resumed a ts) := by
  induction ts with
  | nil => exact fun a _ => .done (by grind) fun _ hw => ⟨rfl, fun _ => hw⟩
  | cons task ts ih =>
    intro a hsub
    have htask : task ∈ tasks := hsub (.head _)
    have hrest (a : Apply) := ih a fun t ht => hsub (.tail _ ht)
    refine .bind (triple_processPendingStopControlRequest a) fun handled => ?_
    refine .ite (fun _ => .done (by grind) fun w hw => ⟨hw.1, nofun⟩) fun hnot => ?_
    refine .known (fun w hw => ⟨hw.1, hw.2 (Bool.eq_false_iff.2 hnot)⟩) fun hid => ?_
    refine .bind (triple_checkTaskReady n htask) fun ready => ?_
    -- The rest of the loop, for a task that is done with.
    have hnext : ∀ (b : Apply) (t : Task), b.id = a.id → Driven ctx applyId tasks (Store.Covered ctx applyId ts)
        (fun r s => r.1.id = a.id ∧ (r.2.2 = .done → s.Covered ctx applyId []))
        (runTasks host n ctx resumed b ts >>= fun r => pure (r.1, t :: r.2.1, r.2.2)) := by
      intro b t hb
      refine .bind (hrest b) fun r => ?_
      exact .done (by grind) fun w hw => ⟨hw.1.trans hb, hw.2⟩
    split
    · refine .pre (fun w _ hw => hw.1) ?_
      exact .done (by grind) fun w _ => ⟨hid, nofun⟩
    · exact .pre (fun w _ hw => hw.2 rfl) (hnext handled.2 task hid)
    · refine .pre (fun w _ hw => hw.1) ?_
      refine .bind (triple_runReadyTask htask hhost n resumed handled.2) fun r => ?_
      obtain ⟨b, held, action⟩ := r
      refine .known (fun w hw => ⟨hw.1.trans hid, hw.2.2⟩) fun hb => ?_
      cases action with
      | failed | stopped => exact .done (by grind) fun w _ => ⟨hb, nofun⟩
      | «continue» | skip => exact .pre (fun w _ hw => hw nofun nofun) (hnext b held hb)

theorem finalizedApply_state {now : Nat} {a : Apply} {loopEnd : LoopEnd}
    (h : (finalizedApply now a loopEnd).state = .completed) : loopEnd = .done := by
  cases loopEnd with
  | done => rfl
  | stopped => cases h
  | failed task =>
    unfold finalizedApply at h
    dsimp only at h
    split at h <;> cases h

theorem triple_finalizeSequentialApply (a : Apply) (ts : List Task) (loopEnd : LoopEnd) :
    Driven ctx applyId tasks (fun s => loopEnd = .done → s.Covered ctx applyId []) (fun _ _ => True)
      (finalizeSequentialApply ctx a ts loopEnd) := by
  refine .bind (.look (by grind)) fun now => .bind (.look (by grind)) fun fresh => ?_
  have hcomplete : Driven ctx applyId tasks (fun _ => True) (fun _ _ => True)
      (onStore (completePending ctx a.id .stop)) :=
    triple_settlePending .true
  refine .ite (fun _ => .pre (fun _ _ _ => trivial) hcomplete) fun _ => ?_
  -- What follows the tasks: the write of the apply, and what is said about it.
  have hnotify : Driven ctx applyId tasks (fun _ => True) (fun _ _ => True)
      (if (finalizedApply now a loopEnd).state = .failedRetryable then pure ()
        else notifyTerminalObserver (finalizedApply now a loopEnd)) := by
    refine .ite (fun _ => .done .true fun _ _ => trivial) fun _ => ?_
    refine .write Evolution.Stable.true (fun _ => Evolution.Stable.true) fun w _ _ => ⟨?_, trivial⟩
    split
    · exact Site.completion_move (.refl _) rfl rfl
    · exact Site.completion_move (.refl _) rfl rfl
  have hwrite : Driven ctx applyId tasks (fun s => loopEnd = .done → s.Covered ctx applyId []) (fun _ _ => True) (do
        Method.attempt (updateParent ctx (finalizedApply now a loopEnd))
        if (finalizedApply now a loopEnd).state.isTerminal then
          onStore (completePending ctx (finalizedApply now a loopEnd).id .stop) else pure ()
        if (finalizedApply now a loopEnd).state = .failedRetryable then pure ()
          else notifyTerminalObserver (finalizedApply now a loopEnd)) := by
    refine .bind (.attempt (ends_updateParent (by grind) fun _ hstate s hs => hs (finalizedApply_state hstate))) fun _ => ?_
    refine .pre (fun _ _ _ => trivial) (.ite (fun _ => ?_) fun _ => hnotify)
    exact .bind (triple_settlePending .true) fun _ => hnotify
  refine .ite (fun hfailed => ?_) fun _ => hwrite
  -- Tasks are cancelled where the loop has failed.
  have hnot : loopEnd ≠ .done := by
    rintro rfl
    cases hfailed
  have hcancel : ∀ ts : List Task, Method.Yields (fun _ => True) Store.Touches (fun _ => True)
      (cancelPendingTasks ctx ts) := by
    intro ts
    induction ts with
    | nil => exact .pure trivial
    | cons t ts ih =>
      refine .ite (fun _ => ?_) fun _ => ih
      exact .bind (.bind (yields_transitionTaskState _ _) fun _ _ => .pure trivial) fun _ (_ : True) => ih
  refine .bind (triple_touches (hcancel ts).returns) fun _ => .pre (fun w _ _ h => absurd h hnot) hwrite

theorem triple_runSequential (hhost : host.NeverReverts) (n : Nat) (resumed : Bool) (a : Apply) :
    Driven ctx applyId tasks (Store.Covered ctx applyId tasks) (fun _ _ => True)
      (runSequential host n ctx resumed a tasks) := by
  refine .bind (triple_runTasks hhost n resumed a fun _ h => h) fun r => ?_
  exact .pre (fun w _ hw => hw.2) (triple_finalizeSequentialApply r.1 r.2.1 r.2.2)

end

/-! ## Sequential drives -/

inductive SequentialDrive
  | execute | resume
  deriving DecidableEq

def SequentialDrive.method (host : Host) (n : Nat) (ctx : Ctx) (apply : Apply) (tasks : List Task) :
    SequentialDrive → DriveMethod Unit
  | .execute => executeApplySequential host n ctx apply tasks
  | .resume => resumeApplySequential host n ctx apply tasks

/-- A sequential drive stores its apply as completed only when all tasks of the drive are stored as completed. This is
so in every run, whatever the drive has come to, as long as the engine reverts nothing, every unfinished task is among
those of the drive, and the site stays sound for the drive while the others only advance its tasks. -/
theorem sequential_drive_completes (drive : SequentialDrive) {host : Host} {ctx : Ctx} {apply : Apply}
    {tasks : List Task} (n : Nat) {rely : Site → Site → Prop} {w v : Site} {moves : List (Site × Site)}
    {q : Prog Site (Except StoreError Unit)} (hhost : host.NeverReverts) (hsound : w.Sound ctx apply.id tasks)
    (hcovered : w.store.Covered ctx apply.id tasks) (hrely : ∀ t u, t.Sound ctx apply.id tasks → rely t u →
      u.Sound ctx apply.id tasks ∧ t.store.Advances ctx apply.id u.store)
    (hrun : Prog.Partway rely (drive.method host n ctx apply tasks).run w moves q v) :
    ∀ m ∈ moves, Site.Completes apply.id m.1 m.2 →
      ∀ row ∈ m.2.store.driveTasks ctx apply.id, row.state = .completed := by
  have hdrive : Driven ctx apply.id tasks (Store.Covered ctx apply.id tasks)
      (fun _ _ => True) (drive.method host n ctx apply tasks) := by
    cases drive with
    | resume =>
      exact .bind (ends_callParent _ (by grind)).triple fun _ => triple_runSequential hhost n true apply
    | execute =>
      refine .bind (ends_callParent _ (by grind)).triple fun _ => ?_
      have hstart : Driven ctx apply.id tasks (Store.Covered ctx apply.id tasks) (fun _ s => s.Covered ctx apply.id tasks)
          (markApplyStarted ctx apply) := by
        refine .bind (.look (by grind)) fun now => ?_
        refine .bind (.attempt (ends_updateParent (by grind) fun _ hstate => by cases hstate)) fun _ => ?_
        exact .done (by grind) fun _ hw => hw
      exact .bind hstart fun a => triple_runSequential hhost n false a
  have hacts := hrun.acts
    (fun t u ht hstep => ⟨(hrely t u ht hstep).2, (hrely t u ht hstep).1⟩) (hdrive.acts hsound hcovered) hsound
  intro m hm hdone row hrow
  rcases (hacts.1 m hm).1 hdone row hrow with hcompleted | ⟨-, task, htask, -⟩
  · exact hcompleted
  · exact absurd htask List.not_mem_nil

namespace Sample

def sequentialApply : Apply :=
  { id := 1, applyIdentifier := "apply-1", databaseType := databaseTypeMySQL, leaseToken := 7 }

def sequentialTask : Task :=
  { id := 1, taskIdentifier := "task-1", applyId := 1, applyOperationId := some 1, tableName := "users" }

def sequentialCtx : Ctx := { applyLease := some { applyId := 1, token := 7 }, operationLease := none }

def sequentialSite (stored : TaskState) : Site where
  store :=
    { applies := [sequentialApply]
      operations := [{ id := 1, applyId := 1, deployment := "a", state := .running }]
      tasks := [{ sequentialTask with state := stored }]
      now := 9 }

def sequentialHost : Host where
  database := "app"
  databaseType := databaseTypeMySQL
  engineApply _ := ([], .accepted none false)
  progress _ := [some { state := .running }, some { state := .completed }]
  plan _ := none

def sequentialEnd (w : Site) : Site :=
  ((executeApplySequential sequentialHost 0 sequentialCtx sequentialApply [sequentialTask]).call w).1

def unreadableSite : Site := { sequentialSite .pending with fails := fun read => read = .taskReady }

end Sample

open Sample in
/-- Two drives that complete their apply without its task: one cannot read the task, the other finds it cancelled.
Neither has called the engine. -/
theorem sequential_drive_completes_unfinished :
    ((sequentialEnd unreadableSite).store.applies.map (·.state) = [.completed] ∧
      ((sequentialEnd unreadableSite).store.driveTasks sequentialCtx 1).map (·.state) = [.pending] ∧
      (sequentialEnd unreadableSite).calls = []) ∧
    ((sequentialEnd (sequentialSite .cancelled)).store.applies.map (·.state) = [.completed] ∧
      ((sequentialEnd (sequentialSite .cancelled)).store.driveTasks sequentialCtx 1).map (·.state) = [.cancelled] ∧
      (sequentialEnd (sequentialSite .cancelled)).calls = []) := by
  decide +kernel

open Sample in
/-- The conditions hold of a drive that nobody disturbs: its apply is completed, and so is its task when that
happens. -/
theorem undisturbed_drive_completes :
    ((SequentialDrive.execute.method sequentialHost 0 sequentialCtx sequentialApply [sequentialTask]).call
      (sequentialSite .pending)).1.store.applies.map (·.state) = [.completed] ∧
    ∀ m ∈ (SequentialDrive.execute.method sequentialHost 0 sequentialCtx sequentialApply [sequentialTask]).run.moves
        (sequentialSite .pending), Site.Completes 1 m.1 m.2 →
      ∀ row ∈ m.2.store.driveTasks sequentialCtx 1, row.state = .completed := by
  have hhost : sequentialHost.NeverReverts := by
    intro task poll hpoll result hresult
    rcases List.mem_cons.1 hpoll with rfl | hpoll
    · cases hresult; decide
    · rcases List.mem_singleton.1 hpoll with rfl
      cases hresult; decide
  have hsound : (sequentialSite .pending).Sound sequentialCtx sequentialApply.id [sequentialTask] :=
    { readable := rfl
      held := by
        rintro task (_ | ⟨_, ⟨⟩⟩)
        exact ⟨.apply { applyId := 1, token := 7 }, rfl, by decide⟩
      unique := by decide
      named := by decide
      ofApply := by decide }
  have hcovered : (sequentialSite .pending).store.Covered sequentialCtx sequentialApply.id [sequentialTask] := by
    unfold Store.Covered
    decide
  have hrun := Prog.partway_exec (fun _ _ => False)
    (SequentialDrive.execute.method sequentialHost 0 sequentialCtx sequentialApply [sequentialTask]).run
    (sequentialSite .pending)
  exact ⟨by decide +kernel,
    sequential_drive_completes .execute 0 hhost hsound hcovered (fun _ _ _ h => h.elim) hrun⟩

end SchemaBot
