import SchemaBot.Tern.Completion

/-!
# What a stop leaves alone

A stop reaches an apply in three ways.
-/

namespace SchemaBot

open Concurrent

/-! ## What a stop is about -/

structure StopView where
  tasks : List Task
  states : List ApplyState

def Store.stopView (applyId : Nat) (s : Store) : StopView where
  tasks := s.tasks.filter (·.applyId = applyId)
  states := (s.applies.filter (·.id = applyId)).map (·.state)

def StopView.Settled (v : StopView) : Prop :=
  (∃ st ∈ v.states, st = .stopped ∨ st = .cancelled) → ∀ row ∈ v.tasks, row.state.isInFlight = false

structure Store.SparesOver (s t : Store) : Prop where
  tasks : ∀ row ∈ s.tasks, row.state.isTerminal = true ∨ row.state = .revertWindow → row ∈ t.tasks
  applies : ∀ a ∈ s.applies, a.state.isTerminal = true → ∃ b ∈ t.applies, b.id = a.id ∧ b.state = a.state

structure Store.StopOwned (ctx : Ctx) (apply : Apply) (s : Store) : Prop where
  held : ∀ task : Task, task.applyId = apply.id → ∃ guard, taskWriteGuardFromContext ctx task = .ok guard ∧
    ∀ row ∈ s.tasks, row.applyId = apply.id → guard.taskPredicate s row = true
  taskIds : (s.tasks.map (·.id)).Nodup
  applyIds : (s.applies.map (·.id)).Nodup
  named : ∀ a ∈ s.applies, a.applyIdentifier = apply.applyIdentifier ↔ a.id = apply.id

section
variable {ctx : Ctx} {apply a : Apply} {applyId : Nat} {s t : Store}

theorem Store.SparesOver.refl (s : Store) : s.SparesOver s :=
  ⟨fun _ hrow _ => hrow, fun a ha _ => ⟨a, ha, rfl, rfl⟩⟩

theorem Store.Idle.sparesOver (h : s.Idle t) : s.SparesOver t := by
  refine ⟨fun row hrow _ => ?_, fun a ha _ => ⟨a, ?_, rfl, rfl⟩⟩
  · rw [h.tasks]
    exact hrow
  · rw [h.applies]
    exact ha

theorem Store.Idle.stopView (h : s.Idle t) : t.stopView applyId = s.stopView applyId := by
  unfold Store.stopView
  rw [h.tasks, h.applies]

theorem Store.StopOwned.framed (hs : s.StopOwned ctx apply) (h : s.Framed t)
    (hnames : t.applies.map (fun a => (a.id, a.applyIdentifier)) = s.applies.map fun a => (a.id, a.applyIdentifier)) :
    t.StopOwned ctx apply where
  held task htask := by
    obtain ⟨guard, hguard, hpass⟩ := hs.held task htask
    refine ⟨guard, hguard, fun row' hrow' happly => ?_⟩
    obtain ⟨row, hrow, hsame⟩ := h.mem_tasks hrow'
    have happly' : row.applyId = apply.id := (congrArg TaskIdentity.applyId hsame).trans happly
    exact h.taskPredicate hsame (hpass row hrow happly')
  taskIds := by
    have hmap : t.tasks.map (·.id) = s.tasks.map (·.id) := by
      have := congrArg (List.map TaskIdentity.id) h.tasks
      rwa [List.map_map, List.map_map] at this
    rw [hmap]
    exact hs.taskIds
  applyIds := by
    have hmap : t.applies.map (·.id) = s.applies.map (·.id) := by
      have := congrArg (List.map Prod.fst) hnames
      rwa [List.map_map, List.map_map] at this
    rw [hmap]
    exact hs.applyIds
  named b hb := by
    have hmem : (b.id, b.applyIdentifier) ∈ s.applies.map fun a => (a.id, a.applyIdentifier) := by
      rw [← hnames]
      exact List.mem_map_of_mem hb
    obtain ⟨a, ha, heq⟩ := List.mem_map.1 hmem
    obtain ⟨hid, hname⟩ := Prod.mk.inj heq
    rw [← hid, ← hname]
    exact hs.named a ha

theorem Store.StopOwned.eq_of_id (hs : s.StopOwned ctx apply) {row row' : Task} (hrow : row ∈ s.tasks)
    (hrow' : row' ∈ s.tasks) (hid : row.id = row'.id) : row = row' :=
  List.inj_on_of_nodup_map hs.taskIds hrow hrow' hid

theorem Store.StopOwned.state_eq (hs : s.StopOwned ctx apply) (ha : a ∈ s.applies) (hid : a.id = apply.id) :
    ∀ st ∈ (s.stopView apply.id).states, st = a.state := by
  intro st hst
  obtain ⟨b, hb, rfl⟩ := List.mem_map.1 hst
  obtain ⟨hb, hbid⟩ := List.mem_filter.1 hb
  rw [List.inj_on_of_nodup_map hs.applyIds hb ha ((of_decide_eq_true hbid).trans hid.symm)]

end

/-! ## The statements of a stop -/

def Site.stopping (ctx : Ctx) (apply : Apply) : Evolution Site where
  inv w := w.store.StopOwned ctx apply
  le v w := w.store.stopView apply.id = v.store.stopView apply.id
  move v w := v.store.SparesOver w.store ∧ (v.store.StopOwned ctx apply → w.store.StopOwned ctx apply)
  refl _ := rfl
  trans h h' := h'.trans h
  stay v := ⟨.refl v.store, id⟩
  keep h hmove := hmove.2 h

/-- What a stop handler makes of the view of the apply. -/
abbrev Halting {α : Type} (ctx : Ctx) (apply : Apply) (P : StopView → Prop) (Q : α → StopView → Prop)
    (m : DriveMethod α) : Prop :=
  Method.Triple (Site.stopping ctx apply) (fun w => P (w.store.stopView apply.id))
    (fun a w => Q a (w.store.stopView apply.id)) m

section
variable {α : Type} {host : Host} {ctx : Ctx} {apply a : Apply} {P : Site → Prop} {s t : Store} {v w : Site}
  {R : List Task → Prop} {newState : TaskState}

@[grind =]
theorem Site.stopping_le :
    (Site.stopping ctx apply).le v w = (w.store.stopView apply.id = v.store.stopView apply.id) := rfl

instance : Restful (Site.stopping ctx apply) where
  rest hv h _ := ⟨⟨h.sparesOver, fun _ => hv.framed h.framed (by rw [h.applies])⟩, h.stopView⟩

theorem stopping_reads {f : Store → α} {Q : α → StopView → Prop}
    (hP : (Site.stopping ctx apply).Stable P)
    (h : ∀ w, w.store.StopOwned ctx apply → P w → Q (f w.store) (w.store.stopView apply.id)) :
    Method.Triple (Site.stopping ctx apply) P (fun a w => Q a (w.store.stopView apply.id)) (onStore (Method.read f)) :=
  .read hP (by grind) h

/-! ### The apply -/

theorem Store.UpdatesApply.sparesOver (h : s.UpdatesApply a t)
    (hover : ∀ st ∈ (s.stopView a.id).states, st.isTerminal = true → st = a.state) : s.SparesOver t := by
  rcases h with rfl | ⟨lease, rfl⟩
  · exact .refl _
  refine ⟨fun row hrow _ => hrow, fun b hb hterminal => ?_⟩
  refine ⟨_, List.mem_map_of_mem hb, ?_⟩
  split
  · next hrow =>
    simp only [updateRow, Bool.and_eq_true, decide_eq_true_eq] at hrow
    have hmem : b.state ∈ (s.stopView a.id).states :=
      List.mem_map_of_mem (List.mem_filter.2 ⟨hb, decide_eq_true hrow.1⟩)
    exact ⟨rfl, (hover _ hmem hterminal).symm⟩
  · exact ⟨rfl, rfl⟩

theorem Store.UpdatesApply.stopView (h : s.UpdatesApply a t) : (t.stopView a.id).tasks = (s.stopView a.id).tasks ∧
      ∀ st ∈ (t.stopView a.id).states, st = a.state ∨ st ∈ (s.stopView a.id).states := by
  rcases h with rfl | ⟨lease, rfl⟩
  · exact ⟨rfl, fun st hst => .inr hst⟩
  refine ⟨rfl, fun st hst => ?_⟩
  obtain ⟨b', hb', rfl⟩ := List.mem_map.1 hst
  obtain ⟨hb', hid⟩ := List.mem_filter.1 hb'
  obtain ⟨b, hb, rfl⟩ := List.mem_map.1 hb'
  by_cases hrow : updateRow lease a b = true
  · rw [if_pos hrow]
    exact .inl rfl
  · rw [if_neg hrow] at hid ⊢
    exact .inr (List.mem_map_of_mem (List.mem_filter.2 ⟨hb, hid⟩))

theorem Store.UpdatesApply.names (h : s.UpdatesApply a t) :
    t.applies.map (fun a => (a.id, a.applyIdentifier)) = s.applies.map fun a => (a.id, a.applyIdentifier) := by
  rcases h with rfl | ⟨lease, rfl⟩
  · rfl
  · exact Table.map_update _ fun _ => rfl

theorem stopping_updateParent {R : List Task → Prop} (hid : a.id = apply.id) :
    Halting ctx apply (fun v => R v.tasks ∧ ∀ st ∈ v.states, st.isTerminal = true → st = a.state)
      (fun _ v => R v.tasks) (updateParent ctx a) := by
  refine .post (Q := fun _ w => R (w.store.stopView apply.id).tasks ∧
    ∀ st ∈ (w.store.stopView apply.id).states, st.isTerminal = true → st = a.state) ?_ fun _ _ _ h => h.1
  refine .bind (Q := fun _ w => R (w.store.stopView apply.id).tasks ∧
    ∀ st ∈ (w.store.stopView apply.id).states, st.isTerminal = true → st = a.state)
    (.write (by grind) (by grind) fun w _ hw => ⟨⟨.refl _, id⟩, hw⟩) fun _ => ?_
  refine Method.Ends.triple (ends_onStore (by grind) (always_updatesApply ctx a) fun v s hv hpre hwrites => ?_)
  rw [← hid] at hpre
  obtain ⟨htasks, hstates⟩ := hwrites.stopView
  refine ⟨⟨hwrites.sparesOver hpre.2, fun hown => hown.framed hwrites.framed hwrites.names⟩, ?_⟩
  rw [← hid]
  refine ⟨by rw [htasks]; exact hpre.1, fun st hst hterminal => ?_⟩
  rcases hstates st hst with rfl | hst
  · rfl
  · exact hpre.2 st hst hterminal

/-! ### The tasks -/

def StopView.Ahead (rest : List Task) (v : StopView) : Prop :=
  (∀ task ∈ rest, task ∈ v.tasks) ∧ ∀ row ∈ v.tasks, row ∈ rest ∨ row.state.isInFlight = false

theorem Store.StopOwned.writeTask (hs : s.StopOwned ctx apply) {task task' : Task} {guard : WriteGuard}
    (htask : task ∈ s.tasks) (hid : task'.id = task.id) (hlive : task.state.isTerminal = false)
    (hwindow : task.state ≠ .revertWindow) :
    s.SparesOver (s.writeTask guard task') ∧ (s.writeTask guard task').StopOwned ctx apply := by
  have hframed : s.Framed (s.writeTask guard task') := ⟨rfl, Table.map_update _ fun _ => rfl, rfl⟩
  refine ⟨⟨fun row hrow hover => ?_, fun a ha _ => ⟨a, ha, rfl, rfl⟩⟩, hs.framed hframed rfl⟩
  have hkept : row.id ≠ task'.id := by
    intro hsame
    rcases hs.eq_of_id hrow htask (hsame.trans hid) with rfl
    rcases hover with hover | hover
    · rw [hlive] at hover
      cases hover
    · exact hwindow hover
  refine List.mem_map.2 ⟨row, hrow, if_neg ?_⟩
  simp [hkept]

theorem StopView.Ahead.writeTask {task task' : Task} {rest : List Task} {guard : WriteGuard}
    (hpass : ∀ row ∈ s.tasks, row.applyId = apply.id → guard.taskPredicate s row = true)
    (hid : task'.id = task.id) (hdistinct : ∀ other ∈ rest, other.id ≠ task.id)
    (hnew : task'.state.isInFlight = false) (h : (s.stopView apply.id).Ahead (task :: rest)) :
    ((s.writeTask guard task').stopView apply.id).Ahead rest := by
  constructor
  · intro other hother
    obtain ⟨hmem, happly⟩ := List.mem_filter.1 (h.1 other (.tail _ hother))
    refine List.mem_filter.2 ⟨List.mem_map.2 ⟨other, hmem, if_neg ?_⟩, happly⟩
    simp [hid, hdistinct other hother]
  · intro row' hrow'
    obtain ⟨hrow', happly⟩ := List.mem_filter.1 hrow'
    obtain ⟨row, hrow, rfl⟩ := List.mem_map.1 hrow'
    have happly' : row.applyId = apply.id := by
      split at happly
      · exact of_decide_eq_true happly
      · exact of_decide_eq_true happly
    by_cases hown : row.id = task'.id
    · have hwritten : (decide (row.id = task'.id) && guard.taskPredicate s row) = true := by
        rw [hpass row hrow happly', decide_eq_true hown]
        rfl
      rw [if_pos hwritten]
      exact .inr hnew
    · have hkept : ¬ (decide (row.id = task'.id) && guard.taskPredicate s row) = true := by
        rw [decide_eq_false hown, Bool.false_and]
        decide
      rw [if_neg hkept]
      rcases h.2 row (List.mem_filter.2 ⟨hrow, decide_eq_true happly'⟩) with hahead | hdone
      · rcases List.mem_cons.1 hahead with rfl | hahead
        · exact absurd hid.symm hown
        · exact .inl hahead
      · exact .inr hdone

theorem stopping_transitionTaskState {task task' : Task} {rest : List Task}
    {R : List ApplyState → Prop} (hid : task'.id = task.id) (happly : task'.applyId = apply.id)
    (hlive : task.state.isTerminal = false) (hwindow : task.state ≠ .revertWindow)
    (hdistinct : ∀ other ∈ rest, other.id ≠ task.id) (hnew : newState.isInFlight = false) :
    Halting ctx apply (fun v => v.Ahead (task :: rest) ∧ R v.states) (fun _ v => v.Ahead rest ∧ R v.states)
      (onStore (transitionTaskState ctx task' newState)) := by
  have hwrite (guard : WriteGuard) (hguard : taskWriteGuardFromContext ctx { task' with state := newState } = .ok guard) :
      Method.Ends (Site.stopping ctx apply)
        (fun w => (w.store.stopView apply.id).Ahead (task :: rest) ∧ R (w.store.stopView apply.id).states)
        (fun w => (w.store.stopView apply.id).Ahead rest ∧ R (w.store.stopView apply.id).states)
        (onStore (updateTask ctx { task' with state := newState })) := by
    refine ends_updateTask_of hguard (by grind) (by grind) (fun v hv hpv => ?_) fun hQ _ _ hv hpre hidle => Restful.keeps hQ hv hpre hidle rfl
    obtain ⟨guard₁, hguard₁, hpass⟩ := hv.held { task' with state := newState } happly
    cases hguard.symm.trans hguard₁
    have htask : task ∈ v.store.tasks := (List.mem_filter.1 (hpv.1.1 task (.head _))).1
    obtain ⟨hspares, howned⟩ := @Store.StopOwned.writeTask ctx apply v.store hv task
      { task' with state := newState } guard htask hid hlive hwindow
    exact ⟨⟨hspares, fun _ => howned⟩, StopView.Ahead.writeTask hpass hid hdistinct hnew hpv.1, hpv.2⟩
  rw [onStore_transitionTaskState]
  refine .bind (.attempt fun w hw hpre => ?_) fun _ => .done (by grind) fun _ hw => hw
  obtain ⟨guard, hguard, -⟩ := hw.held { task' with state := newState } happly
  exact hwrite guard hguard w hw hpre

theorem stopping_markTasksWithState {R : List ApplyState → Prop} (snapshot : Task → Option TaskProgress)
    (hnew : newState.isInFlight = false) (ts : List Task) (hids : (ts.map (·.id)).Nodup)
    (happly : ∀ t ∈ ts, t.applyId = apply.id) (hwindow : ∀ t ∈ ts, t.state ≠ .revertWindow) :
    Halting ctx apply (fun v => v.Ahead ts ∧ R v.states) (fun _ v => v.Ahead [] ∧ R v.states)
      (onStore (markTasksWithState ctx snapshot newState ts)) := by
  induction ts with
  | nil => exact .done (by grind) fun _ hw => hw
  | cons t ts ih =>
    rw [List.map_cons, List.nodup_cons] at hids
    have hrest := ih hids.2 (fun u hu => happly u (.tail _ hu)) fun u hu => hwindow u (.tail _ hu)
    by_cases hover : t.state.isTerminal = true
    · have hcall : markTasksWithState ctx snapshot newState (t :: ts) =
          markTasksWithState ctx snapshot newState ts >>= fun r => pure (r.1, r.2 + 1) := if_pos hover
      rw [hcall, onStore_bind]
      refine .bind (.pre (fun w _ hw => ⟨⟨fun u hu => hw.1.1 u (.tail _ hu), fun row hrow => ?_⟩, hw.2⟩) hrest)
        fun r => .done (by grind) fun _ hw => hw
      rcases hw.1.2 row hrow with hahead | hdone
      · rcases List.mem_cons.1 hahead with rfl | hahead
        · refine .inr ?_
          cases hstate : row.state <;> rw [hstate] at hover <;> first | rfl | cases hover
        · exact .inl hahead
      · exact .inr hdone
    · have hcall : markTasksWithState ctx snapshot newState (t :: ts) = (do
          let _ ← transitionTaskState ctx ((snapshot t).elim t (withSnapshot t)) newState
          let r ← markTasksWithState ctx snapshot newState ts
          pure (r.1 + 1, r.2)) := if_neg hover
      have hcopy : ((snapshot t).elim t (withSnapshot t)).id = t.id ∧
          ((snapshot t).elim t (withSnapshot t)).applyId = t.applyId := by
        cases snapshot t <;> exact ⟨rfl, rfl⟩
      have hdistinct : ∀ other ∈ ts, other.id ≠ t.id := by
        intro other hother hsame
        exact hids.1 (hsame ▸ List.mem_map_of_mem hother)
      rw [hcall, onStore_bind]
      refine .bind (stopping_transitionTaskState hcopy.1 (hcopy.2.trans (happly t (.head _)))
        (Bool.eq_false_iff.2 hover) (hwindow t (.head _)) hdistinct hnew) fun _ => ?_
      rw [onStore_bind]
      exact .bind hrest fun r => .done (by grind) fun _ hw => hw

/-! ### The stop of the owner -/

theorem stopping_loadForStop (purpose : String) (hP : (Site.stopping ctx apply).Stable P) :
    Method.Triple (Site.stopping ctx apply) P
      (fun a w => (a.id = apply.id ∧ ∀ st ∈ (w.store.stopView apply.id).states, st = a.state) ∧ P w)
      (loadForStop apply.id purpose) := by
  refine .bind (Q := fun found w => (∀ a ∈ found, a.id = apply.id ∧
    ∀ st ∈ (w.store.stopView apply.id).states, st = a.state) ∧ P w)
    (.read hP (by grind) fun w hw hv => ⟨fun a ha => ?_, hv⟩) fun found => ?_
  · have hid : a.id = apply.id := by simpa using List.find?_some ha
    exact ⟨hid, hw.state_eq (List.mem_of_find?_eq_some ha) hid⟩
  · cases found with
    | none => exact .throw _
    | some a => exact .done (by grind) fun w hw => ⟨hw.1 a rfl, hw.2⟩

theorem stopping_markApplyStopped :
    Halting ctx apply (fun v => R v.tasks) (fun _ v => R v.tasks) (markApplyStopped ctx apply.id) := by
  refine .bind (stopping_loadForStop _ (by grind)) fun a => ?_
  refine .ite (fun _ => .done (by grind) fun w hw => hw.2) fun hlive => ?_
  refine .known (fun w hw => ⟨hw.1.1, hw⟩) fun hid =>
    .pre (fun w _ hw => ⟨hw.2, fun st hst hterminal => ?_⟩) (stopping_updateParent hid)
  rw [hw.1.2 st hst] at hterminal ⊢
  exact not_not.1 fun hnot => hlive ⟨hterminal, hnot⟩

theorem stopping_markApplyCancelled :
    Halting ctx apply (fun v => R v.tasks ∧ ∀ st ∈ v.states, st.isTerminal = true → st = .cancelled)
      (fun _ v => R v.tasks) (markApplyCancelled ctx apply.id) := by
  refine .bind (stopping_loadForStop _ (by grind)) fun a => .bind (.look (by grind)) fun now => ?_
  exact .known (fun w hw => ⟨hw.1.1, hw.2⟩)
    (@stopping_updateParent ctx apply { a with state := .cancelled, completedAt := some now } R)

theorem stopping_handleStopAllTasksTerminal :
    Halting ctx apply (fun v => R v.tasks) (fun _ v => R v.tasks) (handleStopAllTasksTerminal ctx apply.id) := by
  refine .bind (stopping_loadForStop _ (by grind)) fun a => ?_
  refine .ite (fun _ => .done (by grind) fun w hw => hw.2) fun hlive => ?_
  refine .bind (.look (by grind)) fun tasks => .bind (.look (by grind)) fun now => ?_
  refine .known (fun w hw => ⟨hw.1.1, hw⟩) fun hid =>
    .pre (fun w _ hw => ⟨hw.2, fun st hst hterminal => ?_⟩) (@stopping_updateParent ctx apply _ R hid)
  rw [hw.1.2 st hst] at hterminal
  exact absurd hterminal hlive

def StopView.Resting (v : StopView) : Prop := ∀ row ∈ v.tasks, row.state.isInFlight = false

def StopView.Cancellable (host : Host) (states : List ApplyState) : Prop :=
  host.databaseType = databaseTypeVitess → ∀ st ∈ states, st.isTerminal = true → st = .cancelled

theorem StopView.Ahead.resting {v : StopView} (h : v.Ahead []) : v.Resting := by
  intro row hrow
  rcases h.2 row hrow with hahead | hdone
  · exact absurd hahead List.not_mem_nil
  · exact hdone

structure StopView.AsRead (host : Host) (applyId : Nat) (all : List Task) (v : StopView) : Prop where
  tasks : all.filter (·.applyId = applyId) = v.tasks
  ids : (all.map (·.id)).Nodup
  cancellable : StopView.Cancellable host v.states

theorem stopping_markRead {all : List Task} (hids : (all.map (·.id)).Nodup)
    (hwindow : ¬ (all.filter (·.applyId = apply.id)).any (·.state = .revertWindow) = true)
    (snapshot : Task → Option TaskProgress) (hnew : newState.isInFlight = false) :
    Halting ctx apply (fun v => v.AsRead host apply.id all)
      (fun _ v => v.Ahead [] ∧ StopView.Cancellable host v.states)
      (onStore (markTasksWithState ctx snapshot newState (all.filter (·.applyId = apply.id)))) := by
  have hlive : ∀ t ∈ all.filter (·.applyId = apply.id), t.state ≠ .revertWindow :=
    fun t ht hstate => hwindow (List.any_eq_true.2 ⟨t, ht, decide_eq_true hstate⟩)
  refine .pre (fun w _ hw => ⟨⟨fun task htask => ?_, fun row hrow => .inl ?_⟩, hw.cancellable⟩)
    (stopping_markTasksWithState snapshot hnew _ ((List.filter_sublist.map _).nodup hids)
      (fun t ht => of_decide_eq_true (List.mem_filter.1 ht).2) hlive)
  · rw [← hw.tasks]
    exact htask
  · rw [hw.tasks]
    exact hrow

theorem stopping_stopOwnedApply :
    Halting ctx apply (fun v => StopView.Cancellable host v.states) (fun _ v => v.Resting)
      (stopOwnedApply host ctx apply) := by
  refine .bind (stopping_reads (Q := fun all v => v.AsRead host apply.id all) (by grind) fun w hw hv => ⟨rfl, hw.taskIds, hv⟩)
    fun all => ?_
  refine .bind (stopping_reads (Q := fun found v =>
    (∀ target ∈ found, target.id = apply.id) ∧ v.AsRead host apply.id all) (by grind)
    fun w hs hv => ⟨fun target htarget => ?_, hv⟩) fun found => ?_
  · have hname : target.applyIdentifier = apply.applyIdentifier := by simpa using List.find?_some htarget
    exact (hs.named target (List.mem_of_find?_eq_some htarget)).1 hname
  cases found with
  | none => exact .throw _
  | some target =>
    refine .known (fun w hw => ⟨hw.1 target rfl, hw.2⟩) fun hid => .known (fun w hw => ⟨hw.ids, hw⟩) fun hids => ?_
    dsimp only
    rw [hid]
    refine .ite (fun _ => .throw _) fun hwindow => .bind (.lift (by grind)) fun asked => ?_
    have hmark : Halting ctx apply (fun v => v.AsRead host apply.id all)
        (fun _ v => v.Ahead [] ∧ StopView.Cancellable host v.states)
        (onStore (if host.databaseType = databaseTypeVitess then
            markTasksWithState ctx (fun _ => none) .cancelled (all.filter (·.applyId = apply.id))
          else markTasksWithState ctx (fun task => if asked then host.snapshotEngineProgress task else none) .stopped
            (all.filter (·.applyId = apply.id)))) := by
      split
      · exact stopping_markRead hids hwindow _ rfl
      · exact stopping_markRead hids hwindow _ rfl
    refine .bind hmark fun r => .ite (fun _ => ?_) fun _ => .ite (fun _ => .throw _) fun _ => .ite (fun _ => ?_)
      fun _ => ?_
    · refine .ite (fun hvitess => .bind (.pre (fun w _ hw => ?_) (stopping_markApplyCancelled
          (R := fun tasks => ∀ row ∈ tasks, row.state.isInFlight = false))) fun _ => .done (by grind) fun _ hw => hw)
        fun _ => .bind (.pre (fun w _ hw => hw.1.resting) (stopping_markApplyStopped
          (R := fun tasks => ∀ row ∈ tasks, row.state.isInFlight = false))) fun _ => .done (by grind) fun _ hw => hw
      exact ⟨hw.1.resting, hw.2 hvitess⟩
    · exact .done (by grind) fun _ hw => hw.1.resting
    · exact .bind (.pre (fun w _ hw => hw.1.resting) (stopping_handleStopAllTasksTerminal
        (R := fun tasks => ∀ row ∈ tasks, row.state.isInFlight = false))) fun _ => .done (by grind) fun _ hw => hw

/-! ### Requests -/

theorem stopping_completePendingStop (hP : (Site.stopping ctx apply).Stable P) :
    Method.Triple (Site.stopping ctx apply) P
      (fun stored w => (stored = none → ∀ st ∈ (w.store.stopView apply.id).states, st.isTerminal = false) ∧ P w)
      (onStore (completePendingStopIfStoredApplyResolved ctx apply)) := by
  unfold completePendingStopIfStoredApplyResolved
  rw [onStore_bind]
  refine .bind (Q := fun found w =>
    (∀ a ∈ found, ∀ st ∈ (w.store.stopView apply.id).states, st = a.state) ∧ P w)
    (.read hP (by grind) fun w hw hv => ⟨fun a ha => ?_, hv⟩) fun found => ?_
  · have hid : a.id = apply.id := by simpa using List.find?_some ha
    exact hw.state_eq (List.mem_of_find?_eq_some ha) hid
  cases found with
  | none => exact .throw _
  | some stored =>
    dsimp only
    split
    · rw [onStore_bind]
      exact .bind (triple_settlePending (by grind)) fun _ => .done (by grind) fun _ hw => ⟨nofun, hw.2⟩
    · next hlive =>
      refine .done (by grind) fun _ hw => ⟨fun _ st hst => ?_, hw.2⟩
      rw [hw.1 stored rfl st hst]
      exact Bool.eq_false_iff.2 hlive

theorem stopping_processPendingStop :
    Halting ctx apply StopView.Settled (fun _ => StopView.Settled) (processPendingStopControlRequest host ctx apply) := by
  refine .bind (.look (by grind)) fun request => ?_
  cases request with
  | none => exact .done (by grind) fun _ hw => hw
  | some _ =>
    refine .bind (stopping_completePendingStop (by grind)) fun resolved => ?_
    cases resolved with
    | some stored =>
      exact .mono (fun _ _ hw => hw.2) (triple_stopHandledUnlessStartPending stored (by grind)) fun _ _ _ hr => hr.2
    | none =>
      refine .ite (fun _ => .pre (fun _ _ hw => hw.2) ?_) fun _ => ?_
      · exact .bind (triple_settlePending (by grind)) fun _ => .post (triple_stopHandledUnlessStartPending apply (by grind)) fun _ _ _ hr => hr.2
      refine .bind (.look (by grind)) fun window => ?_
      refine .ite (fun _ => .pre (fun _ _ hw => hw.2) ?_) fun _ => ?_
      · exact .bind (triple_settlePending (by grind)) fun _ => .done (by grind) fun _ hw => hw
      -- The apply is not over, so that the owner may cancel it.
      refine .bind (.pre (fun w _ hw _ st hst hterminal => ?_) stopping_stopOwnedApply) fun accepted => ?_
      · rw [hw.1 rfl st hst] at hterminal
        cases hterminal
      refine .ite (fun _ => ?_) fun _ => .throw _
      refine .bind (stopping_completePendingStop (by grind)) fun resolved => ?_
      cases resolved with
      | none => exact .throw _
      | some stored =>
        exact .done (by grind) fun _ hw _ => hw.2

theorem idle_requestStop (applyIdentifier : String) :
    Method.Only Store.Idle (requestStop host applyIdentifier) := by
  have hresolve : Method.Only Store.Idle (resolveStopApply host applyIdentifier) := by
    refine .ite (fun _ => .bind (.read Store.Idle.refl _) fun found => ?_)
      fun _ => .bind (.read Store.Idle.refl _) fun task => ?_
    · cases found with
      | none => exact .throw _
      | some a => exact .pure _
    · cases task with
      | none => exact .throw _
      | some task =>
        refine .bind (.read Store.Idle.refl _) fun found => ?_
        cases found with
        | none => exact .throw _
        | some a => exact .pure _
  refine .bind hresolve fun a => .bind (.read Store.Idle.refl _) fun window => ?_
  refine .ite (fun _ => .throw _) fun _ => .bind (.step fun s => ?_) fun _ => .pure _
  split
  · split
    · exact .refl s
    · exact ⟨rfl, rfl, rfl⟩
  · exact ⟨rfl, rfl, rfl⟩

end

/-! ## Handling a stop -/

/-- The ways in which a stop is handled: the owner's stop, the pending request that the owner finds, and the request of
a client, for the apply that it names or for the active one. -/
inductive StopHandling
  | owner
  | pending
  | immediate (applyIdentifier : String)
  deriving DecidableEq

def StopHandling.method (host : Host) (ctx : Ctx) (apply : Apply) : StopHandling → DriveMethod Unit
  | .owner => do
    let _ ← stopOwnedApply host ctx apply
    pure ()
  | .pending => do
    let _ ← processPendingStopControlRequest host ctx apply
    pure ()
  | .immediate applyIdentifier => onStore (requestStop host applyIdentifier)

/-- Where a handling starts: the owner of a Vitess apply does not stop one that has come to another end, and a request
does not find an apply that was stopped around tasks in flight. -/
def StopHandling.Starts (host : Host) (v : StopView) : StopHandling → Prop
  | .owner => StopView.Cancellable host v.states
  | .pending | .immediate _ => v.Settled

namespace Sample

def stopHost (databaseType : String) : Host where
  database := "app"
  databaseType := databaseType
  engineApply _ := ([], .accepted none false)
  plan _ := none

def stopSite (stored : ApplyState) : Site where
  store :=
    { applies := [{ sequentialApply with state := stored }]
      operations := [{ id := 1, applyId := 1, deployment := "a", state := .running }]
      tasks := [{ sequentialTask with state := .running },
        { sequentialTask with id := 2, taskIdentifier := "task-2", tableName := "orders", state := .completed }]
      controlRequests := [{ id := 1, applyId := 1, operation := .stop }]
      now := 9 }

def stopEnd (handling : StopHandling) (databaseType : String) (stored : ApplyState) : Store :=
  ((handling.method (stopHost databaseType) sequentialCtx sequentialApply).call (stopSite stored)).1.store

end Sample

end SchemaBot
