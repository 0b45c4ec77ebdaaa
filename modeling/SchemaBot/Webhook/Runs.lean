import SchemaBot.Webhook.Handlers

/-!
# Runs of the deployments

Every step of a `World` keeps all deployments sound and is a step forward for each of them (`World.Sound.step`).
-/

namespace SchemaBot.Webhook

open Concurrent

variable {cfg : Nat → ServerConfig} {i : Nat} {w : World} {me : Handle}

/-! ## What happens around the handlings -/

section
variable {h : Hub}

theorem mem_turnApply {s : Instance} (hs : Table.KeysUnique PRApply.id s.applies) {state : ApplyState}
    {apply a' : PRApply} (happly : apply ∈ s.applies) (ha' : a' ∈ (s.turnApply apply state).applies) :
    a' ∈ s.applies ∨ a' = { apply with state := state } := by
  obtain ⟨a, ha, rfl⟩ := Table.mem_update.1 ha'
  split
  · next hid =>
    rw [hs.eq ha happly (of_decide_eq_true hid)]
    exact .inr rfl
  · exact .inl ha

section
variable {state : ApplyState} {apply : PRApply}

theorem Hub.Sound.later_turnApply (hs : h.Sound cfg i) (happly : apply ∈ h.inst.applies)
    (hne : apply.state ≠ .completed) : h.Later { h with inst := h.inst.turnApply apply state } := by
  refine .setInst (fun _ _ hp => hp) (List.prefix_append _ _) fun a ha => ?_
  by_cases hid : a.id = apply.id
  · refine ⟨{ a with state := state }, Table.mem_update_of_pos ha (decide_eq_true hid), rfl, fun hc => ?_⟩
    rw [hs.applyIds.eq ha happly hid] at hc
    exact absurd hc hne
  · exact ⟨a, Table.mem_update_of_neg ha (decide_eq_false hid), .refl a⟩

theorem Hub.Sound.turnApply (hs : h.Sound cfg i) (happly : apply ∈ h.inst.applies)
    (hne : apply.state ≠ .completed) : Hub.Sound cfg i { h with inst := h.inst.turnApply apply state } :=
  have hl : h.Later { h with inst := h.inst.turnApply apply state } := hs.later_turnApply happly hne
  { hs with
    pinned := fun l hm => (hs.pinned l hm).later hl
    checks := fun c hc => (hs.checks c hc).later hl
    applyIds := hs.applyIds.update fun _ => rfl
    applyIdsBelow := hs.applyIdsBelow.update_key fun _ => rfl
    applyIdsPos := fun a' ha' => by
      rcases mem_turnApply hs.applyIds happly ha' with ha | rfl
      · exact hs.applyIdsPos _ ha
      · have hpos := hs.applyIdsPos _ happly
        exact hpos
    stored := fun a' ha' => by
      rcases mem_turnApply hs.applyIds happly ha' with ha | rfl
      · obtain ⟨e, he, hrest⟩ := hs.stored a' ha
        exact ⟨e, List.mem_append_left _ he, hrest⟩
      · obtain ⟨e, he, b, hb, hf⟩ := hs.stored apply happly
        refine ⟨e, List.mem_append_left _ he, b, hb, ?_, fun hc => absurd (hf.completed hc) hne⟩
        rw [hf.same]
    turned := fun a' ha' hfin => by
      rcases mem_turnApply hs.applyIds happly ha' with ha | rfl
      · exact (hs.turned _ ha hfin).later hl
      · exact ⟨_, List.mem_append_right _ (List.mem_singleton_self _), rfl, hfin⟩
    entries := fun e he => by
      rcases List.mem_append.1 he with he | he
      · exact (hs.entries e he).later hl
      · rw [List.mem_singleton.1 he]
        trivial }

end

theorem Instance.setApplyState_cases (s : Instance) (id : Nat) (state : ApplyState) :
    s.setApplyState id state = s ∨ ∃ apply ∈ s.applies, apply.state ≠ .completed ∧
      s.setApplyState id state = s.turnApply apply state := by
  unfold Instance.setApplyState
  split
  · exact .inl rfl
  · next apply hfind =>
    split
    · exact .inl rfl
    · next hne => exact .inr ⟨apply, List.mem_of_find?_eq_some hfind, hne, rfl⟩

theorem Hub.Sound.setApplyState (hs : h.Sound cfg i) (id : Nat) (state : ApplyState) :
    h.Later { h with inst := h.inst.setApplyState id state } ∧
      Hub.Sound cfg i { h with inst := h.inst.setApplyState id state } := by
  rcases h.inst.setApplyState_cases id state with heq | ⟨apply, happly, hne, heq⟩
  · rw [heq]
    exact ⟨.refl h, hs⟩
  · rw [heq]
    exact ⟨hs.later_turnApply happly hne, hs.turnApply happly hne⟩

theorem repins_changeLocks (c : Change) (s : LockDb) :
    Repins (fun l => l.pendingPlanId = "") s (changeLocks s c) := by
  have hkeep : ∀ l ∈ s.locks, (∃ l' ∈ s.locks, SamePin l l') ∨ l.pendingPlanId = "" :=
    fun l hl => .inl ⟨l, hl, .refl l⟩
  cases c with
  | apiLock lock => exact fun l hl => (repins_insertLock _ s l hl).imp_right fun hpin => hpin.2.2.2
  | apiUnlock database dbType => exact fun l hl => hkeep l (List.mem_of_mem_filter hl)
  | _ => exact hkeep

theorem Hub.Sound.change (hs : h.Sound cfg i) (c : Change) : h.Later (h.change c) ∧ (h.change c).Sound cfg i := by
  have hlocks : h.Later { h with inst := { h.inst with locks := changeLocks h.inst.locks c } } ∧
      Hub.Sound cfg i { h with inst := { h.inst with locks := changeLocks h.inst.locks c } } :=
    ⟨.setLocks _, hs.setLocks fun l hl => (repins_changeLocks c h.inst.locks l hl).imp_right .inl⟩
  cases c with
  | push repo pr headSHA =>
    have hl : h.Later (h.change (.push repo pr headSHA)) :=
      .setGithub (Nat.le_refl _) fun r hr _ => ⟨r, hr, rfl, rfl, rfl⟩
    exact ⟨hl, hs.setGithub hl hs.runIds fun r hr => .inl hr⟩
  | outside answers =>
    have hl : h.Later (h.change (.outside answers)) :=
      .setInst (fun _ _ hp => hp) List.prefix_rfl fun a ha => ⟨a, ha, .refl a⟩
    exact ⟨hl, { hs with
      pinned := fun l hm => (hs.pinned l hm).later hl
      checks := fun c hc => (hs.checks c hc).later hl
      entries := fun e he => (hs.entries e he).later hl }⟩
  | applyState id state => exact hs.setApplyState id state
  | foreignRun run => exact ⟨.addRun _, hs.addRun ⟨fun _ happ => absurd rfl happ, fun _ => rfl⟩⟩
  | apiPlan plan => exact ⟨.addPlan plan, hs.addPlan plan⟩
  | apiApply plan rollback =>
    exact ⟨.addApply _ _, hs.addApply rfl rfl rfl ⟨_, List.mem_concat_self, .refl _⟩⟩
  | apiLock lock | apiUnlock database dbType | lockConflict => exact hlocks

end

/-! ## Worlds -/

section
variable {h' : Hub}

@[simp] theorem World.hub_put_self : (w.put i h').hub i = h' := by
  unfold World.put World.hub
  simp

theorem World.hub_put_of_ne {j : Nat} (hne : j ≠ i) :
    (w.put i h').hub j = ⟨h'.github, h'.notes, w.instances j⟩ := by
  unfold World.put World.hub
  simp [hne]

theorem World.later_put (hl : (w.hub i).Later h') (j : Nat) : (w.hub j).Later ((w.put i h').hub j) := by
  by_cases hj : j = i
  · subst hj
    rw [World.hub_put_self]
    exact hl
  · rw [World.hub_put_of_ne hj]
    exact hl.share

theorem World.sound_put (hw : ∀ j, (w.hub j).Sound cfg j) (hs : h'.Sound cfg i) (hl : (w.hub i).Later h')
    (j : Nat) : ((w.put i h').hub j).Sound cfg j := by
  by_cases hj : j = i
  · subst hj
    rw [World.hub_put_self]
    exact hs
  · rw [World.hub_put_of_ne hj]
    exact (hw j).share hs hl

theorem World.quiet_put {other : Handle} (hq : other.deployment = i → Quiet other (w.hub i) h') :
    Quiet other (w.hub other.deployment) ((w.put i h').hub other.deployment) := by
  by_cases hj : other.deployment = i
  · have hquiet := hq hj
    rw [hj, World.hub_put_self]
    exact hquiet
  · rw [World.hub_put_of_ne hj]
    exact .of_log_eq rfl

end

def DeedsBelow (i n : Nat) (log : List Entry) : Prop :=
  ∀ e ∈ log, ∀ handling, e.deedOf = some handling → handling.deployment = i ∧ handling.number < n

structure World.Sound (cfg : Nat → ServerConfig) (w : World) : Prop where
  hubs : ∀ i, (w.hub i).Sound cfg i
  acts : ∀ (n i : Nat) (p : Prog Hub (Except Reply Unit)), w.handlings[n]? = some (i, p) →
    Prog.Acts (evolution cfg ⟨i, n⟩) (fun _ _ => True) p (w.hub i)
  deeds : ∀ i, DeedsBelow i w.handlings.length (w.instances i).log

theorem World.sound_init (cfg : Nat → ServerConfig) : ({} : World).Sound cfg where
  hubs _ :=
    { numbered := fun _ hp => absurd hp List.not_mem_nil
      pinned := fun _ hl => absurd hl List.not_mem_nil
      checks := fun _ hc => absurd hc List.not_mem_nil
      keys := List.nodup_nil
      applyIds := List.nodup_nil
      applyIdsBelow := fun _ ha => absurd ha List.not_mem_nil
      applyIdsPos := fun _ ha => absurd ha List.not_mem_nil
      nextApplyPos := Nat.one_pos
      stored := fun _ ha => absurd ha List.not_mem_nil
      turned := fun _ ha => absurd ha List.not_mem_nil
      entries := fun _ he => absurd he List.not_mem_nil
      evidence := fun _ _ _ _ _ hn => absurd hn List.not_mem_nil
      runIds := fun _ hr => absurd hr List.not_mem_nil
      runs := fun _ _ hr => absurd hr List.not_mem_nil
      computed := fun _ hr => absurd hr List.not_mem_nil }
  acts n i p hp := by cases hp
  deeds _ _ he := absurd he List.not_mem_nil

/-! ## Steps -/

section
variable {h h' : Hub} {other : Handle}

theorem Deed.quiet (hd : Deed cfg me h h') (hne : other ≠ me) : Quiet other h h' := by
  have hown : ∀ e : Entry, e.deedOf = some me → h'.inst.log = h.inst.log ++ [e] → Quiet other h h' := by
    intro e he hlog e' he' hdeed
    rw [hlog] at he'
    rcases List.mem_append.1 he' with he' | he'
    · exact he'
    · rw [List.mem_singleton.1 he', he] at hdeed
      exact absurd (Option.some.inj hdeed).symm hne
  cases hd with
  | create origin plan lockId rollback | start origin a check => exact hown _ rfl rfl

theorem DeedsBelow.move {n : Nat} (hb : DeedsBelow me.deployment n h.inst.log) (hme : me.number < n)
    (hm : (evolution cfg me).move h h') : DeedsBelow me.deployment n h'.inst.log := by
  intro e he handling hdeed
  by_cases hself : handling = me
  · rw [hself]
    exact ⟨rfl, hme⟩
  · have hquiet : Quiet handling h h' := hm.elim (·.quiet) (·.quiet hself)
    exact hb e (hquiet e he hdeed) handling hdeed

theorem Hub.change_quiet (c : Change) : Quiet other h (h.change c) := by
  cases c with
  | applyState id state =>
    rcases h.inst.setApplyState_cases id state with heq | ⟨apply, -, -, heq⟩
    · exact .of_log_eq (congrArg Instance.log heq)
    · refine .of_append (congrArg Instance.log heq) fun e he => ?_
      rw [List.mem_singleton.1 he]
      rfl
  | apiApply plan rollback =>
    refine .of_append rfl fun e he => ?_
    rw [List.mem_singleton.1 he]
    rfl
  | _ => exact .of_log_eq rfl

theorem World.Sound.idle (hw : w.Sound cfg) (i : Nat) : Idle ⟨i, w.handlings.length⟩ (w.hub i) :=
  fun e he hdeed => Nat.lt_irrefl _ (hw.deeds i e he _ hdeed).2

theorem World.Sound.deliver (hw : w.Sound cfg) (i : Nat) (event : Event) :
    (w.step cfg (.deliver i event)).Sound cfg where
  hubs := hw.hubs
  acts n j p hp := by
    simp only [World.step] at hp
    rcases Nat.lt_trichotomy n w.handlings.length with hlt | rfl | hgt
    · rw [List.getElem?_append_left hlt] at hp
      exact hw.acts n j p hp
    · rw [List.getElem?_concat_length] at hp
      cases hp
      have hprog : Method.Acts (evolution cfg ⟨i, w.handlings.length⟩) (fun _ _ => True)
          (event.program (cfg i) ⟨i, w.handlings.length⟩) (w.hub i) := acts_program (hw.idle i)
      exact Prog.Acts.mono (fun _ _ _ _ => trivial) hprog
    · rw [List.getElem?_eq_none] at hp
      · cases hp
      · rw [List.length_append]
        exact hgt
  deeds j e he handling hdeed := by
    obtain ⟨hdep, hlt⟩ := hw.deeds j e he handling hdeed
    refine ⟨hdep, Nat.lt_of_lt_of_le hlt ?_⟩
    simp [World.step]

theorem World.Sound.put {i : Nat} {handlings : List (Nat × Prog Hub (Except Reply Unit))} (hw : w.Sound cfg)
    (hs : h'.Sound cfg i) (hl : (w.hub i).Later h') (hlen : handlings.length = w.handlings.length)
    (hdeeds : DeedsBelow i w.handlings.length h'.inst.log)
    (hacts : ∀ (n j : Nat) (p : Prog Hub (Except Reply Unit)), handlings[n]? = some (j, p) →
      (j = i ∧ Prog.Acts (evolution cfg ⟨j, n⟩) (fun _ _ => True) p h') ∨
        w.handlings[n]? = some (j, p) ∧ (j = i → Quiet ⟨j, n⟩ (w.hub i) h')) :
    World.Sound cfg { w.put i h' with handlings := handlings } where
  hubs := World.sound_put hw.hubs hs hl
  acts n j p hp := by
    have hput : ∀ k, ({ w.put i h' with handlings := handlings } : World).hub k = (w.put i h').hub k :=
      fun _ => rfl
    rw [hput]
    rcases hacts n j p hp with ⟨rfl, hact⟩ | ⟨hold, hquiet⟩
    · rw [World.hub_put_self]
      exact hact
    · have hle : (evolution cfg ⟨j, n⟩).le (w.hub j) ((w.put i h').hub j) :=
        ⟨World.later_put hl j, World.quiet_put hquiet⟩
      exact (hw.acts n j p hold).later hle
  deeds j := by
    show DeedsBelow j handlings.length ((w.put i h').hub j).inst.log
    rw [hlen]
    by_cases hj : j = i
    · subst hj
      rw [World.hub_put_self]
      exact hdeeds
    · rw [World.hub_put_of_ne hj]
      exact hw.deeds j

theorem World.Sound.advance (hw : w.Sound cfg) (n : Nat) : (w.step cfg (.advance n)).Sound cfg := by
  simp only [World.step]
  split
  · exact hw
  · next i p hn =>
    have hnext := (hw.acts n i p hn).next (hw.hubs i)
    have hlt : n < w.handlings.length := (List.getElem?_eq_some_iff.1 hn).1
    have hl : (w.hub i).Later (p.next (w.hub i)).1 := hnext.1.elim (·.later) (·.later)
    have hs : (p.next (w.hub i)).1.Sound cfg i := hnext.1.elim (·.sound (hw.hubs i)) (·.sound (hw.hubs i))
    refine hw.put hs hl (List.length_set ..) ((hw.deeds i).move hlt hnext.1) fun m j q hm => ?_
    by_cases hmn : m = n
    · subst hmn
      rw [List.getElem?_set_self hlt] at hm
      cases hm
      exact .inl ⟨rfl, hnext.2⟩
    · rw [List.getElem?_set_ne (Ne.symm hmn)] at hm
      refine .inr ⟨hm, fun hj => ?_⟩
      have hne : (⟨j, m⟩ : Handle) ≠ ⟨i, n⟩ := fun he => hmn (Handle.mk.inj he).2
      exact hnext.1.elim (·.quiet) (·.quiet hne)

theorem World.Sound.change (hw : w.Sound cfg) (i : Nat) (c : Change) : (w.step cfg (.change i c)).Sound cfg := by
  obtain ⟨hl, hs⟩ := (hw.hubs i).change c
  refine hw.put hs hl rfl (fun e he handling hdeed => ?_) fun n j p hp => .inr ⟨hp, fun _ => Hub.change_quiet c⟩
  exact hw.deeds i e (Hub.change_quiet c e he hdeed) handling hdeed

theorem World.Sound.step (hw : w.Sound cfg) (a : Action) : (w.step cfg a).Sound cfg := by
  cases a with
  | deliver i event => exact hw.deliver i event
  | advance n => exact hw.advance n
  | change i c => exact hw.change i c

theorem World.sound_after (actions : List Action) : (World.after cfg actions).Sound cfg :=
  Transition.run_invariant (fun _ a hw => hw.step a) (World.sound_init cfg)

theorem World.Sound.later_step (hw : w.Sound cfg) (a : Action) (i : Nat) : (w.hub i).Later ((w.step cfg a).hub i) := by
  cases a with
  | deliver j event => exact .refl _
  | advance n =>
    simp only [World.step]
    split
    · exact .refl _
    · next j p hn =>
      have hmove := ((hw.acts n j p hn).next (hw.hubs j)).1
      exact World.later_put (hmove.elim (·.later) (·.later)) i
  | change j c => exact World.later_put ((hw.hubs j).change c).1 i

/-- The check of a database that is in progress is that of an apply on it which a handling has started. -/
def Instance.RunsOwned (s : Instance) : Prop :=
  ∀ c ∈ s.checks, c.isAggregate = false → c.status = .inProgress →
    (∃ a ∈ s.applies, a.id = c.applyId ∧ a.isOf c = true) ∧
      ∃ handling now row, Entry.started handling c.applyId now row ∈ s.log

theorem running_checks_owned (cfg : Nat → ServerConfig) (actions : List Action) (i : Nat) :
    ((World.after cfg actions).hub i).inst.RunsOwned := by
  intro c hc hdb hrun
  have hgood := ((World.sound_after actions).hubs i).checks c hc
  exact hgood.owned (hgood.running hdb hrun)

end

/-! ## The ledger -/

structure Books where
  applies : List PRApply := []
  checks : List Check := []
  log : List Entry := []

def Instance.books (s : Instance) : Books := ⟨s.applies, s.checks, s.log⟩

inductive Ledger (cfg : Nat → ServerConfig) (i : Nat) (h : Hub) : Books → Prop
  | same : Ledger cfg i h h.inst.books
  | remark (e : Entry) (hr : e.isRemark = true) (hb : e.Backed cfg i h) :
      Ledger cfg i h ⟨h.inst.applies, h.inst.checks, h.inst.log ++ [e]⟩
  | missed (apply : PRApply) (hfin : apply.isFinished = true) (htold : h.inst.Told apply)
      (hnone : ∀ c ∈ h.inst.checks, apply.isOf c = false) :
      Ledger cfg i h ⟨h.inst.applies, h.inst.checks, h.inst.log ++ [.delivered apply false]⟩
  | rows (w : RowWrite) (entries : List Entry) (hw : Written h w entries) :
      Ledger cfg i h ⟨h.inst.applies, h.inst.writtenRows w, h.inst.log ++ entries⟩
  | create (me : Handle) (origin : Origin) (plan : StoredPlan) (lockId : Nat) (rollback : Bool)
      (hc : Creates cfg i h me origin plan rollback) (hidle : Idle me h) :
      Ledger cfg i h ⟨h.inst.applies ++ [plan.newApply h.inst.nextApply lockId rollback], h.inst.checks,
        h.inst.log ++ [.created me origin (plan.newApply h.inst.nextApply lockId rollback)]⟩
  | start (me : Handle) (origin : Origin) (a : PRApply) (check : Check)
      (ha : Entry.created me origin a ∈ h.inst.log) (hof : a.isOf check = true) (hid : check.applyId = a.id)
      (hstatus : check.status = .inProgress) (hconcl : check.conclusion = .none)
      (hfirst : ∀ id now row, Entry.started me id now row ∉ h.inst.log) :
      Ledger cfg i h ⟨h.inst.applies, h.inst.writtenRows (.upsert check),
        h.inst.log ++ [.started me a.id (h.inst.apply a.id) (h.inst.stored check)]⟩
  | turned (apply : PRApply) (state : ApplyState) (happly : apply ∈ h.inst.applies)
      (hne : apply.state ≠ .completed) : Ledger cfg i h (h.inst.turnApply apply state).books
  | queued (plan : StoredPlan) (lockId : Nat) (rollback : Bool) :
      Ledger cfg i h ⟨h.inst.applies ++ [plan.newApply h.inst.nextApply lockId rollback], h.inst.checks,
        h.inst.log ++ [.queued (plan.newApply h.inst.nextApply lockId rollback)]⟩

section
variable {h h' : Hub}

theorem Move.ledger (hm : Move cfg me h h') : Ledger cfg me.deployment h h'.inst.books := by
  cases hm with
  | remark e hr hb => exact .remark e hr hb
  | missed apply hfin htold hnone => exact .missed apply hfin htold hnone
  | rows w entries hw => exact .rows w entries hw
  | _ => exact .same

theorem Deed.ledger (hd : Deed cfg me h h') : Ledger cfg me.deployment h h'.inst.books := by
  cases hd with
  | create origin plan lockId rollback hc hidle => exact .create me origin plan lockId rollback hc hidle
  | start origin a check ha hof hid hstatus hconcl _ hfirst =>
    exact .start me origin a check ha hof hid hstatus hconcl hfirst

theorem Hub.change_ledger (c : Change) : Ledger cfg i h (h.change c).inst.books := by
  cases c with
  | applyState id state =>
    show Ledger cfg i h (h.inst.setApplyState id state).books
    rcases h.inst.setApplyState_cases id state with heq | ⟨apply, happly, hne, heq⟩
    · rw [heq]
      exact .same
    · rw [heq]
      exact .turned apply state happly hne
  | apiApply plan rollback => exact .queued plan _ rollback
  | _ => exact .same

theorem World.Sound.ledger (hw : w.Sound cfg) (a : Action) (j : Nat) :
    Ledger cfg j (w.hub j) ((w.step cfg a).instances j).books := by
  have hput : ∀ {i : Nat} {h' : Hub}, Ledger cfg i (w.hub i) h'.inst.books →
      Ledger cfg j (w.hub j) ((w.put i h').hub j).inst.books := by
    intro i h' hl
    by_cases hj : j = i
    · subst hj
      rw [World.hub_put_self]
      exact hl
    · rw [World.hub_put_of_ne hj]
      exact .same
  cases a with
  | deliver i event => exact .same
  | change i c => exact hput (Hub.change_ledger c)
  | advance n =>
    simp only [World.step]
    split
    · exact .same
    · next i p hn =>
      have hmove := ((hw.acts n i p hn).next (hw.hubs i)).1
      exact hput (hmove.elim (·.ledger) (·.ledger))

theorem ledger_run {J : Nat → Books → Prop} (hinit : ∀ i, J i {})
    (hstep : ∀ i h b, h.Sound cfg i → Ledger cfg i h b → J i h.inst.books → J i b) (actions : List Action)
    (i : Nat) : J i ((World.after cfg actions).instances i).books := by
  have hrun : (World.after cfg actions).Sound cfg ∧ ∀ j, J j ((World.after cfg actions).instances j).books :=
    Transition.run_invariant (I := fun w : World => w.Sound cfg ∧ ∀ j, J j (w.instances j).books)
      (fun w a hw => ⟨hw.1.step a, fun j => hstep j (w.hub j) _ (hw.1.hubs j) (hw.1.ledger a j) (hw.2 j)⟩)
      ⟨World.sound_init cfg, fun j => hinit j⟩
  exact hrun.2 i

theorem Ledger.log_grows {b : Books} (hl : Ledger cfg i h b) : h.inst.log <+: b.log := by
  cases hl with
  | same => exact List.prefix_rfl
  | _ => exact List.prefix_append _ _

end

end SchemaBot.Webhook
