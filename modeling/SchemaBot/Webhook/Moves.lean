import SchemaBot.Lib.Evolving
import SchemaBot.Webhook.Invariants

/-!
# The moves of a handling

`Move` lists what the statements of a handling do to a deployment, each with what the handling knows when it makes
it.
-/

namespace SchemaBot.Webhook

open Concurrent

variable {cfg : Nat → ServerConfig} {i : Nat} {entries : List Entry} {me : Handle}

/-! ## Locks -/

def SamePin (l l' : Lock) : Prop :=
  l.databaseName = l'.databaseName ∧ l.databaseType = l'.databaseType ∧ l.owner = l'.owner ∧
    l.pendingPlanId = l'.pendingPlanId

def Repins (new : Lock → Prop) (s t : LockDb) : Prop :=
  ∀ l ∈ t.locks, (∃ l' ∈ s.locks, SamePin l l') ∨ new l

theorem SamePin.refl (l : Lock) : SamePin l l := ⟨rfl, rfl, rfl, rfl⟩

theorem Pinned.of_samePin {conf : ServerConfig} {i : Nat} {h : Hub} {l l' : Lock} (hp : Pinned conf i h l')
    (he : SamePin l l') : Pinned conf i h l := by
  obtain ⟨hd, ht, ho, hid⟩ := he
  rcases hp with hnone | ⟨plan, hplan, hpin⟩ | ⟨plan, hc⟩
  · exact .inl (hid.trans hnone)
  · exact .inr (.inl ⟨plan, hid.trans hplan, hpin⟩)
  · exact .inr (.inr ⟨plan, hid ▸ hc.stored, ho.trans hc.owner, hc.database.trans hd.symm,
      hc.databaseType.trans ht.symm, hc.promoted⟩)

/-! ## Writes of rows -/

structure PlanRow (h : Hub) (check : Check) : Prop where
  good : check.Good h
  unowned : check.applyId = 0
  completed : check.status = .completed
  unchanged : check.conclusion = .success → check.hasChanges = false

inductive Written (h : Hub) : RowWrite → List Entry → Prop
  | aggregate {check : Check} (hgood : check.Good h) (hagg : check.isAggregate = true)
      (hnone : check.applyId = 0) : Written h (.upsert check) []
  | insertPlan {check : Check} (hrow : PlanRow h check) : Written h (.insertPlan check) []
  | updatePlan {check : Check} (hrow : PlanRow h check) : Written h (.updatePlan check) []
  | markStale {check : Check} (hrow : PlanRow h check) : Written h (.markStale check) []
  | recover {check : Check} (hrow : PlanRow h check) (hnoop : check.successfulNoOpPlanResult = true) :
      Written h (.recover check) [.recovered check]
  | complete {c : Check} {apply : PRApply} (hgood : c.Good h) (hof : apply.isOf c = true)
      (hrec : Entry.recorded apply ∈ h.inst.log) (hnote : Note.finished apply c ∈ h.notes) :
      Written h (.complete (c.finishApply apply) apply)
        [.delivered apply (h.inst.changesRows (.complete (c.finishApply apply) apply))]
  | requireAction {c : Check} {apply : PRApply} (hgood : c.Good h) (hof : apply.isOf c = true)
      (htold : h.inst.Told apply) (hroll : apply.rollback = true ∧ apply.state = .completed) :
      Written h (.requireAction c.requireReapply apply)
        [.delivered apply (h.inst.changesRows (.requireAction c.requireReapply apply))]
  | delete (repo : String) (pr : Nat) : Written h (.delete repo pr) []
  | block {c : Check} (headSHA : String) (hgood : c.Good h) (hdb : c.isAggregate = false)
      (howned : c.applyId ≠ 0) :
      Written h (.upsert (c.blockRemoved headSHA)) [.blocked c (h.inst.stored c)]

/-! ## Moves and deeds -/

def Entry.isRemark : Entry → Bool
  | .held _ _ | .confirming _ _ _ _ | .replanned _ _ | .pinned _ _ _ _ | .takenUp _ _ | .observed _
  | .recorded _ => true
  | _ => false

structure KeepsRun (f : CheckRun → CheckRun) : Prop where
  id : ∀ r, (f r).id = r.id
  repository : ∀ r, (f r).repository = r.repository
  headSHA : ∀ r, (f r).headSHA = r.headSHA

structure Publishable (h : Hub) (r : CheckRun) : Prop where
  fresh : Current h.notes → r.app ≠ "" → r.conclusion = .success → r.basis = r.headSHA
  computed : r.conclusion = .success → r.Computed h.notes

inductive Move (cfg : Nat → ServerConfig) (me : Handle) (h : Hub) : Hub → Prop
  | stay : Move cfg me h h
  | note (n : Note) (hn : Current (h.notes ++ [n]) → ∀ handling request priorEnv evidence,
      n = .passed handling request priorEnv evidence → evidence.basis = request.headSHA) :
      Move cfg me h { h with notes := h.notes ++ [n] }
  | addRun (run : CheckRun) (hrun : Publishable h run) :
      Move cfg me h { h with github := h.github.addRun run }
  | setRun (id : Nat) (f : CheckRun → CheckRun) (hf : KeepsRun f)
      (hrun : ∀ r ∈ h.github.runs, r.id = id → Publishable h (f r)) :
      Move cfg me h { h with github := h.github.setRun id f }
  | setLocks (locks : LockDb)
      (hr : Repins (Pinned (cfg me.deployment) me.deployment h) h.inst.locks locks) :
      Move cfg me h { h with inst := { h.inst with locks := locks } }
  | addPlan (plan : StoredPlan) : Move cfg me h { h with inst := h.inst.addPlan plan }
  | remark (e : Entry) (hr : e.isRemark = true) (hb : e.Backed cfg me.deployment h) :
      Move cfg me h { h with inst := h.inst.enter [e] }
  | missed (apply : PRApply) (hfin : apply.isFinished = true) (htold : h.inst.Told apply)
      (hnone : ∀ c ∈ h.inst.checks, apply.isOf c = false) :
      Move cfg me h { h with inst := h.inst.enter [.delivered apply false] }
  | rows (w : RowWrite) (entries : List Entry) (hw : Written h w entries) :
      Move cfg me h { h with inst := h.inst.writeChecks w entries }

inductive Deed (cfg : Nat → ServerConfig) (me : Handle) (h : Hub) : Hub → Prop
  | create (origin : Origin) (plan : StoredPlan) (lockId : Nat) (rollback : Bool)
      (hc : Creates cfg me.deployment h me origin plan rollback)
      (hidle : ∀ e ∈ h.inst.log, e.deedOf ≠ some me) :
      Deed cfg me h { h with inst := (h.inst.addApply (plan.newApply h.inst.nextApply lockId rollback)
        (.created me origin (plan.newApply h.inst.nextApply lockId rollback))) }
  | start (origin : Origin) (a : PRApply) (check : Check) (ha : Entry.created me origin a ∈ h.inst.log)
      (hof : a.isOf check = true) (hid : check.applyId = a.id) (hstatus : check.status = .inProgress)
      (hconcl : check.conclusion = .none)
      (hlinked : check.checkRunId ≠ 0 →
        check.isAggregate = true ∧ h.github.Holds check.checkRunId check.repository check.headSHA)
      (hfirst : ∀ id now row, Entry.started me id now row ∉ h.inst.log) :
      Deed cfg me h { h with inst := (h.inst.writeChecks (.upsert check)
        [.started me a.id (h.inst.apply a.id) (h.inst.stored check)]) }

/-! ## Notes and check runs -/

section
variable {h : Hub} {run : CheckRun} {f : CheckRun → CheckRun} {g : GitHub} {id : Nat}

theorem Hub.Later.addNote (n : Note) : h.Later { h with notes := h.notes ++ [n] } where
  notes _ hm := List.mem_append_left _ hm
  plans _ _ hp := hp
  log := List.prefix_rfl
  applies a ha := ⟨a, ha, .refl a⟩
  nextRun := Nat.le_refl _
  runs r hr _ := ⟨r, hr, rfl, rfl, rfl⟩

theorem Hub.Sound.addNote {n : Note} (hs : h.Sound cfg i)
    (hn : Current (h.notes ++ [n]) → ∀ handling request priorEnv evidence,
      n = .passed handling request priorEnv evidence → evidence.basis = request.headSHA) :
    Hub.Sound cfg i { h with notes := h.notes ++ [n] } :=
  have hl : h.Later { h with notes := h.notes ++ [n] } := .addNote n
  { hs with
    pinned := fun l hm => (hs.pinned l hm).later hl
    checks := fun c hc => (hs.checks c hc).later hl
    entries := fun e he => (hs.entries e he).later hl
    evidence := fun hcur handling request priorEnv evidence hm => by
      rcases List.mem_append.1 hm with hm | hm
      · exact hs.evidence (hcur.mono hl.notes) _ _ _ _ hm
      · exact hn hcur _ _ _ _ (List.mem_singleton.1 hm).symm
    runs := fun hcur => hs.runs (hcur.mono hl.notes)
    computed := fun r hr hsucc => (hs.computed r hr hsucc).mono hl.notes }

theorem Hub.Later.setGithub (hnext : h.github.nextRun ≤ g.nextRun)
    (hruns : ∀ r' ∈ g.runs, r'.id < h.github.nextRun →
      ∃ r ∈ h.github.runs, r.id = r'.id ∧ r.repository = r'.repository ∧ r.headSHA = r'.headSHA) :
    h.Later { h with github := g } where
  notes _ hn := hn
  plans _ _ hp := hp
  log := List.prefix_rfl
  applies a ha := ⟨a, ha, .refl a⟩
  nextRun := hnext
  runs := hruns

theorem Hub.Sound.setGithub (hs : h.Sound cfg i) (hl : h.Later { h with github := g })
    (hids : ∀ r ∈ g.runs, r.id < g.nextRun)
    (hruns : ∀ r ∈ g.runs, r ∈ h.github.runs ∨ Publishable h r) :
    Hub.Sound cfg i { h with github := g } :=
  { hs with
    pinned := fun l hm => (hs.pinned l hm).later hl
    checks := fun c hc => (hs.checks c hc).later hl
    entries := fun e he => (hs.entries e he).later hl
    runIds := hids
    runs := fun hcur r hr happ hsucc => by
      rcases hruns r hr with hold | hnew
      · exact hs.runs hcur r hold happ hsucc
      · exact hnew.fresh hcur happ hsucc
    computed := fun r hr hsucc => by
      rcases hruns r hr with hold | hnew
      · exact hs.computed r hold hsucc
      · exact hnew.computed hsucc }

theorem GitHub.mem_addRun {r : CheckRun} :
    r ∈ (g.addRun run).runs ↔ r ∈ g.runs ∨ r = { run with id := g.nextRun } := by
  unfold GitHub.addRun
  rw [List.mem_append, List.mem_singleton]

theorem Hub.Later.addRun (run : CheckRun) : h.Later { h with github := h.github.addRun run } := by
  refine .setGithub (Nat.le_succ _) fun r hr hlt => ?_
  rcases GitHub.mem_addRun.1 hr with hr | rfl
  · exact ⟨r, hr, rfl, rfl, rfl⟩
  · exact absurd hlt (Nat.lt_irrefl _)

theorem Hub.Sound.addRun (hs : h.Sound cfg i) (hrun : Publishable h run) :
    Hub.Sound cfg i { h with github := h.github.addRun run } := by
  refine hs.setGithub (.addRun run) (fun r hr => ?_) fun r hr => ?_
  · rcases GitHub.mem_addRun.1 hr with hr | rfl
    · exact Nat.lt_succ_of_lt (hs.runIds r hr)
    · exact Nat.lt_succ_self _
  · rcases GitHub.mem_addRun.1 hr with hr | rfl
    · exact .inl hr
    · exact .inr ⟨hrun.fresh, hrun.computed⟩

theorem GitHub.mem_setRun {r' : CheckRun} :
    r' ∈ (g.setRun id f).runs ↔ ∃ r ∈ g.runs, r' = if r.id = id then f r else r := by
  unfold GitHub.setRun
  simp only [Table.mem_update, decide_eq_true_eq]

theorem Hub.Later.setRun (hf : KeepsRun f) : h.Later { h with github := h.github.setRun id f } := by
  refine .setGithub (Nat.le_refl _) fun r' hr' _ => ?_
  obtain ⟨r, hr, rfl⟩ := GitHub.mem_setRun.1 hr'
  refine ⟨r, hr, ?_⟩
  split
  · exact ⟨(hf.id r).symm, (hf.repository r).symm, (hf.headSHA r).symm⟩
  · exact ⟨rfl, rfl, rfl⟩

theorem Hub.Sound.setRun (hs : h.Sound cfg i) (hf : KeepsRun f)
    (hrun : ∀ r ∈ h.github.runs, r.id = id → Publishable h (f r)) :
    Hub.Sound cfg i { h with github := h.github.setRun id f } := by
  refine hs.setGithub (.setRun hf) (fun r' hr' => ?_) fun r' hr' => ?_
  · obtain ⟨r, hr, rfl⟩ := GitHub.mem_setRun.1 hr'
    split
    · rw [hf.id r]
      exact hs.runIds r hr
    · exact hs.runIds r hr
  · obtain ⟨r, hr, rfl⟩ := GitHub.mem_setRun.1 hr'
    split
    · exact .inr (hrun r hr ‹_›)
    · exact .inl hr

end

/-! ## Storage -/

section
variable {h : Hub}

theorem Hub.Later.setInst {inst : Instance} (hp : ∀ id p, h.inst.plan id = some p → inst.plan id = some p)
    (hlog : h.inst.log <+: inst.log) (ha : ∀ a ∈ h.inst.applies, inst.Knows a) :
    h.Later { h with inst := inst } where
  notes _ hn := hn
  plans := hp
  log := hlog
  applies := ha
  nextRun := Nat.le_refl _
  runs r hr _ := ⟨r, hr, rfl, rfl, rfl⟩

theorem Hub.Later.setLocks (locks : LockDb) : h.Later { h with inst := { h.inst with locks := locks } } :=
  .setInst (fun _ _ hp => hp) List.prefix_rfl fun a ha => ⟨a, ha, .refl a⟩

theorem Hub.Sound.setLocks {locks : LockDb} (hs : h.Sound cfg i)
    (hr : Repins (Pinned (cfg i) i h) h.inst.locks locks) :
    Hub.Sound cfg i { h with inst := { h.inst with locks := locks } } :=
  have hl : h.Later { h with inst := { h.inst with locks := locks } } := .setLocks locks
  { hs with
    pinned := fun l hm => by
      have hp : Pinned (cfg i) i h l := by
        rcases hr l hm with ⟨l', hl', he⟩ | hn
        · exact (hs.pinned l' hl').of_samePin he
        · exact hn
      exact hp.later hl
    checks := fun c hc => (hs.checks c hc).later hl
    entries := fun e he => (hs.entries e he).later hl }

theorem Hub.Later.addPlan (plan : StoredPlan) : h.Later { h with inst := h.inst.addPlan plan } := by
  refine .setInst (fun id p hp => ?_) List.prefix_rfl fun a ha => ⟨a, ha, .refl a⟩
  unfold Instance.plan Instance.addPlan
  rw [List.find?_append]
  unfold Instance.plan at hp
  rw [hp]
  rfl

theorem Hub.Sound.addPlan (hs : h.Sound cfg i) (plan : StoredPlan) :
    Hub.Sound cfg i { h with inst := h.inst.addPlan plan } :=
  have hl : h.Later { h with inst := h.inst.addPlan plan } := .addPlan plan
  { hs with
    numbered := fun p hp => by
      rcases List.mem_append.1 hp with hp | hp
      · obtain ⟨k, hk, hid⟩ := hs.numbered p hp
        exact ⟨k, Nat.lt_succ_of_lt hk, hid⟩
      · rw [List.mem_singleton.1 hp]
        exact ⟨_, Nat.lt_succ_self _, rfl⟩
    pinned := fun l hm => (hs.pinned l hm).later hl
    checks := fun c hc => (hs.checks c hc).later hl
    entries := fun e he => (hs.entries e he).later hl }

theorem Hub.Later.setRows (rows : List Check) (entries : List Entry) :
    h.Later { h with inst := { h.inst with checks := rows, log := h.inst.log ++ entries } } :=
  .setInst (fun _ _ hp => hp) (List.prefix_append _ _) fun a ha => ⟨a, ha, .refl a⟩

theorem Hub.Sound.setRows {rows : List Check} {entries : List Entry} (hs : h.Sound cfg i)
    (hrows : ∀ c ∈ rows, c.Good
      { h with inst := { h.inst with checks := rows, log := h.inst.log ++ entries } })
    (hkeys : (rows.map Check.key).Nodup)
    (hentries : ∀ e ∈ entries, e.Backed cfg i
      { h with inst := { h.inst with checks := rows, log := h.inst.log ++ entries } }) :
    Hub.Sound cfg i { h with inst := { h.inst with checks := rows, log := h.inst.log ++ entries } } :=
  have hl : h.Later { h with inst := { h.inst with checks := rows, log := h.inst.log ++ entries } } :=
    .setRows rows entries
  { hs with
    pinned := fun l hm => (hs.pinned l hm).later hl
    checks := hrows
    keys := hkeys
    stored := fun a ha => by
      obtain ⟨e, he, hrest⟩ := hs.stored a ha
      exact ⟨e, List.mem_append_left _ he, hrest⟩
    turned := fun a ha hf => (hs.turned a ha hf).later hl
    entries := fun e he => by
      rcases List.mem_append.1 he with he | he
      · exact (hs.entries e he).later hl
      · exact hentries e he }

theorem Hub.Later.addApply (apply : PRApply) (entry : Entry) :
    h.Later { h with inst := h.inst.addApply apply entry } :=
  .setInst (fun _ _ hp => hp) (List.prefix_append _ _) fun a ha => ⟨a, List.mem_append_left _ ha, .refl a⟩

theorem Hub.Sound.addApply {apply : PRApply} {entry : Entry} (hs : h.Sound cfg i)
    (hid : apply.id = h.inst.nextApply) (hstate : apply.state = .pending) (hcr : entry.creates = some apply)
    (hb : entry.Backed cfg i { h with inst := h.inst.addApply apply entry }) :
    Hub.Sound cfg i { h with inst := h.inst.addApply apply entry } :=
  have hl : h.Later { h with inst := h.inst.addApply apply entry } := .addApply apply entry
  { hs with
    pinned := fun l hm => (hs.pinned l hm).later hl
    checks := fun c hc => (hs.checks c hc).later hl
    applyIds := hs.applyIds.append hs.applyIdsBelow hid
    applyIdsBelow := hs.applyIdsBelow.append hid
    applyIdsPos := fun a ha => by
      rcases List.mem_append.1 ha with ha | ha
      · exact hs.applyIdsPos a ha
      · rw [List.mem_singleton.1 ha, hid]
        exact hs.nextApplyPos
    nextApplyPos := Nat.succ_pos _
    stored := fun a ha => by
      rcases List.mem_append.1 ha with ha | ha
      · obtain ⟨e, he, hrest⟩ := hs.stored a ha
        exact ⟨e, List.mem_append_left _ he, hrest⟩
      · rw [List.mem_singleton.1 ha]
        exact ⟨entry, List.mem_append_right _ (List.mem_singleton_self _), apply, hcr, .refl apply⟩
    turned := fun a ha hf => by
      rcases List.mem_append.1 ha with ha | ha
      · exact (hs.turned a ha hf).later hl
      · rw [List.mem_singleton.1 ha, PRApply.isFinished, hstate] at hf
        cases hf
    entries := fun e he => by
      rcases List.mem_append.1 he with he | he
      · exact (hs.entries e he).later hl
      · rw [List.mem_singleton.1 he]
        exact hb }

end

/-! ## Rows that are written -/

section
variable {h h' : Hub} {c check : Check} {apply : PRApply} {w : RowWrite}

theorem PlanRow.release (hp : PlanRow h c) : ({ c with applyId := 0 } : Check).Good h where
  linked := hp.good.linked
  settled := hp.good.settled
  fresh := hp.good.fresh
  owned hne := absurd rfl hne
  done hne := absurd rfl hne
  running _ hrun := absurd (hp.completed.symm.trans hrun) (by decide)

theorem PRApply.conclusion_cases (apply : PRApply) (c : Check) :
    apply.conclusion c = .success ∨ apply.conclusion c = .failure ∨ apply.conclusion c = .actionRequired := by
  unfold PRApply.conclusion
  split
  · split
    · exact .inr (.inr rfl)
    · exact .inl rfl
  · exact .inr (.inl rfl)

theorem PRApply.completed_of_success (hs : apply.conclusion c = .success) : apply.state = .completed := by
  unfold PRApply.conclusion at hs
  split at hs
  · assumption
  · cases hs

theorem Check.Good.finish {o : Check} (hc : c.Good h) (ho : o.Good h) (hid : o.applyId = apply.id)
    (hk : o.key = c.key) (hrec : Entry.recorded apply ∈ h.inst.log) (hnote : Note.finished apply c ∈ h.notes) :
    ({ c.finishApply apply with applyId := apply.id, basis := apply.headSHA } : Check).Good h where
  linked := hc.linked
  settled := .inr ⟨rfl, apply.conclusion_cases c⟩
  fresh hcur _ := (of_decide_eq_true (hcur _ hnote)).symm
  owned hne := by
    obtain ⟨⟨a, ha, haid, hof⟩, handling, now, row, hstart⟩ := ho.owned (hid ▸ hne)
    refine ⟨⟨a, ha, haid.trans hid, PRApply.isOf_iff.2 ?_⟩, handling, now, row, hid ▸ hstart⟩
    exact hk.symm.trans (PRApply.isOf_iff.1 hof)
  done _ _ hs := ⟨apply, hrec, rfl, PRApply.completed_of_success hs⟩
  running _ hrun := by cases hrun

theorem Check.Good.requireReapply (hc : c.Good h) : ({ c.requireReapply with applyId := 0 } : Check).Good h where
  linked := hc.linked
  settled := .inr ⟨rfl, .inr (.inr rfl)⟩
  fresh _ hs := by cases hs
  owned hne := absurd rfl hne
  done hne := absurd rfl hne
  running _ hrun := by cases hrun

theorem Check.blockRemoved_conclusion (headSHA : String) : (c.blockRemoved headSHA).conclusion ≠ .success := by
  unfold Check.blockRemoved
  split
  · exact fun hs => by cases hs
  · exact fun hs => by cases hs

theorem Check.Good.blockRemoved (hc : c.Good h) (hdb : c.isAggregate = false) (headSHA : String) :
    (c.blockRemoved headSHA).Good h where
  linked hne := by
    have hagg := (hc.linked hne).1
    rw [hdb] at hagg
    cases hagg
  settled := by
    unfold Check.blockRemoved Check.Settled
    split
    · exact .inl ⟨rfl, rfl⟩
    · exact .inr ⟨rfl, .inr (.inr rfl)⟩
  fresh _ hs := absurd hs (Check.blockRemoved_conclusion headSHA)
  owned := hc.owned
  done _ _ hs := absurd hs (Check.blockRemoved_conclusion headSHA)
  running _ hrun := by
    refine hc.running hdb ?_
    by_contra hne
    unfold Check.blockRemoved at hrun
    rw [if_neg hne] at hrun
    cases hrun

theorem Written.good (hw : Written h w entries) (hs : h.Sound cfg i)
    (hrow : w.row = some check) (hk : c = w.result check)
    (hfrom : (∃ o ∈ h.inst.checks, o.key = c.key ∧ h.inst.matched w o = true) ∨ c ∈ h.inst.inserted w) :
    c.Good h := by
  subst hk
  cases hw with
  | aggregate hgood =>
    cases hrow
    exact hgood
  | insertPlan hp | updatePlan hp | markStale hp | recover hp =>
    cases hrow
    exact hp.release
  | complete hgood hof hrec hnote =>
    cases hrow
    rcases hfrom with ⟨o, ho, hk, hm⟩ | hins
    · simp only [Instance.matched, Bool.and_eq_true, decide_eq_true_eq] at hm
      exact hgood.finish (hs.checks o ho) hm.1.2 hk hrec hnote
    · exact absurd hins List.not_mem_nil
  | requireAction hgood =>
    cases hrow
    exact hgood.requireReapply
  | delete => cases hrow
  | block headSHA hgood hdb =>
    cases hrow
    exact hgood.blockRemoved hdb headSHA

theorem PRApply.isFinished_of_completed (hc : apply.state = .completed) : apply.isFinished = true := by
  unfold PRApply.isFinished
  rw [hc]
  rfl

theorem Written.backed (hw : Written h w entries) (hs : h.Sound cfg i)
    {e : Entry} (he : e ∈ entries) : e.Backed cfg i h := by
  cases hw with
  | recover =>
    rw [List.mem_singleton.1 he]
    trivial
  | complete _ _ hrec =>
    rw [List.mem_singleton.1 he]
    exact (hs.entries _ hrec).1
  | requireAction _ _ htold hroll =>
    rw [List.mem_singleton.1 he]
    exact ⟨PRApply.isFinished_of_completed hroll.2, htold⟩
  | block =>
    rw [List.mem_singleton.1 he]
    trivial
  | _ => exact absurd he List.not_mem_nil

theorem Hub.Sound.writeChecks (hs : h.Sound cfg i) (hgood : ∀ c ∈ h.inst.writtenRows w, c ∈ h.inst.checks ∨
      c.Good { h with inst := h.inst.writeChecks w entries })
    (hback : ∀ e ∈ entries, e.Backed cfg i { h with inst := h.inst.writeChecks w entries }) :
    Hub.Sound cfg i { h with inst := h.inst.writeChecks w entries } := by
  refine hs.setRows (fun c hc => ?_) (Instance.keys_writtenRows hs.keys) hback
  rcases hgood c hc with hold | hnew
  · exact (hs.checks c hold).later (.setRows _ _)
  · exact hnew

end

/-! ## Soundness -/

section
variable {h h' : Hub}

theorem Move.later (hm : Move cfg me h h') : h.Later h' := by
  cases hm with
  | stay => exact .refl h
  | note n => exact .addNote n
  | addRun run => exact .addRun run
  | setRun id f hf => exact .setRun hf
  | setLocks locks => exact .setLocks locks
  | addPlan plan => exact .addPlan plan
  | remark e | missed apply | rows w entries => exact .setRows _ _

theorem Deed.later (hd : Deed cfg me h h') : h.Later h' := by
  cases hd with
  | create => exact .addApply _ _
  | start => exact .setRows _ _

theorem Move.sound (hm : Move cfg me h h') (hs : h.Sound cfg me.deployment) : h'.Sound cfg me.deployment := by
  cases hm with
  | stay => exact hs
  | note n hn => exact hs.addNote hn
  | addRun run hrun => exact hs.addRun hrun
  | setRun id f hf hrun => exact hs.setRun hf hrun
  | setLocks locks hr => exact hs.setLocks hr
  | addPlan plan => exact hs.addPlan plan
  | remark e hr hb =>
    refine hs.setRows (fun c hc => (hs.checks c hc).later (.setRows _ _)) hs.keys fun e' he' => ?_
    rw [List.mem_singleton.1 he']
    exact hb.later (.setRows _ _)
  | missed apply hfin htold =>
    refine hs.setRows (fun c hc => (hs.checks c hc).later (.setRows _ _)) hs.keys fun e' he' => ?_
    rw [List.mem_singleton.1 he']
    have hb : (Entry.delivered apply false).Backed cfg me.deployment h := ⟨hfin, htold⟩
    exact hb.later (.setRows _ _)
  | rows w entries hw =>
    refine hs.writeChecks (fun c hc => ?_) fun e he => (hw.backed hs he).later (.setRows _ _)
    rcases Instance.mem_writtenRows hc with ⟨hold, -⟩ | ⟨check, hrow, hres, -, hfrom⟩
    · exact .inl hold
    · have hfrom' := hfrom.imp_right And.left
      exact .inr ((hw.good hs hrow hres hfrom').later (.setRows _ _))

theorem Deed.sound (hd : Deed cfg me h h') (hs : h.Sound cfg me.deployment) : h'.Sound cfg me.deployment := by
  cases hd with
  | create origin plan lockId rollback hc =>
    refine hs.addApply rfl rfl rfl ⟨⟨_, List.mem_append_right _ (List.mem_singleton_self _), .refl _⟩, ?_⟩
    exact ⟨plan, rollback, rfl, hc.later (.addApply _ _)⟩
  | start origin a check ha hof hid hstatus hconcl hlinked =>
    have hmem : ∀ e ∈ h.inst.log, e ∈ h.inst.log ++ [Entry.started me a.id (h.inst.apply a.id)
        (h.inst.stored check)] := fun e he => List.mem_append_left _ he
    refine hs.writeChecks (fun c hc => ?_) fun e he => ?_
    · rcases Instance.mem_writtenRows hc with ⟨hold, -⟩ | ⟨check', hrow, rfl, -⟩
      · exact .inl hold
      cases hrow
      obtain ⟨a', ha', hf⟩ := (hs.entries _ ha).1
      refine .inr ⟨hlinked, .inl ⟨hstatus, hconcl⟩, fun _ hsucc => ?_, fun _ => ⟨⟨a', ha', ?_, ?_⟩, ?_⟩,
        fun _ hdone => ?_, fun _ _ => ?_⟩
      · exact absurd (hconcl.symm.trans hsucc) (by decide)
      · exact hf.id_eq.trans hid.symm
      · exact (hf.isOf_eq check).trans hof
      · have hin : Entry.started me a.id (h.inst.apply a.id) (h.inst.stored check) ∈
            h.inst.log ++ [Entry.started me a.id (h.inst.apply a.id) (h.inst.stored check)] :=
          List.mem_append_right _ (List.mem_singleton_self _)
        exact ⟨me, h.inst.apply a.id, h.inst.stored check, hid ▸ hin⟩
      · exact absurd (hstatus.symm.trans hdone) (by decide)
      · have hpos := hs.applyIdsPos a' ha'
        rw [hf.id_eq.trans hid.symm] at hpos
        exact Nat.ne_of_gt hpos
    · rw [List.mem_singleton.1 he]
      exact ⟨origin, a, hmem _ ha, rfl⟩

end

/-! ## The evolution of a deployment -/

def Quiet (me : Handle) (h h' : Hub) : Prop := ∀ e ∈ h'.inst.log, e.deedOf = some me → e ∈ h.inst.log

section
variable {h h' : Hub}

theorem Quiet.of_log_eq (hlog : h'.inst.log = h.inst.log) : Quiet me h h' := fun _ he _ => hlog ▸ he

theorem Quiet.of_append (hlog : h'.inst.log = h.inst.log ++ entries)
    (hq : ∀ e ∈ entries, e.deedOf = none) : Quiet me h h' := by
  intro e he hdeed
  rw [hlog] at he
  rcases List.mem_append.1 he with he | he
  · exact he
  · rw [hq e he] at hdeed
    cases hdeed

theorem Entry.deedOf_of_isRemark {e : Entry} (hr : e.isRemark = true) : e.deedOf = none := by
  cases e with
  | created | started => cases hr
  | _ => rfl

theorem Written.quiet {w : RowWrite} (hw : Written h w entries) : ∀ e ∈ entries, e.deedOf = none := by
  intro e he
  cases hw with
  | recover | complete | requireAction | block => rw [List.mem_singleton.1 he]; rfl
  | _ => exact absurd he List.not_mem_nil

theorem Move.quiet (hm : Move cfg me h h') {other : Handle} : Quiet other h h' := by
  cases hm with
  | remark e hr =>
    refine .of_append rfl fun e' he' => ?_
    rw [List.mem_singleton.1 he']
    exact Entry.deedOf_of_isRemark hr
  | missed apply =>
    refine .of_append rfl fun e' he' => ?_
    rw [List.mem_singleton.1 he']
    rfl
  | rows w entries hw => exact .of_append rfl hw.quiet
  | _ => exact .of_log_eq rfl

def evolution (cfg : Nat → ServerConfig) (me : Handle) : Evolution Hub where
  inv := Hub.Sound cfg me.deployment
  le h h' := h.Later h' ∧ Quiet me h h'
  move h h' := Move cfg me h h' ∨ Deed cfg me h h'
  refl h := ⟨.refl h, .of_log_eq rfl⟩
  trans h₁ h₂ := ⟨h₁.1.trans h₂.1, fun e he hd => h₁.2 e (h₂.2 e he hd) hd⟩
  stay _ := .inl .stay
  keep hs hm := hm.elim (·.sound hs) (·.sound hs)

abbrev Carried {α : Type} (cfg : Nat → ServerConfig) (me : Handle) (Q : α → Hub → Prop) (m : Handling α)
    (h : Hub) : Prop :=
  Method.Carries (evolution cfg me) Q m h

end

end SchemaBot.Webhook
