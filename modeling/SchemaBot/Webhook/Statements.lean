import SchemaBot.Webhook.Moves

/-!
# The statements of the handlers

One rule for each statement: which `Move` it is, what has to be known for that, and what is known afterwards.
-/

namespace SchemaBot.Webhook

open Concurrent

variable {cfg : Nat → ServerConfig} {me : Handle} {h : Hub} {α β : Type}

def Keeps (cfg : Nat → ServerConfig) (me : Handle) (m : Handling α) : Prop :=
  ∀ h, Carried cfg me (fun _ _ => True) m h

namespace Keeps

theorem pure (a : α) : Keeps cfg me (pure a) := fun _ => Method.Carries.done

theorem throw (r : Reply) : Keeps cfg me (throw r : Handling α) := fun _ => Method.Carries.throw r

theorem bind {m : Handling α} {g : α → Handling β} (hm : Keeps cfg me m) (hg : ∀ a, Keeps cfg me (g a)) :
    Keeps cfg me (m >>= g) := fun h => (hm h).andThen fun a t _ _ _ => hg a t

theorem discard {m : Handling α} (hm : Keeps cfg me m) : Keeps cfg me (discard m) :=
  bind hm fun _ => pure _

theorem readStore (f : Instance → α) : Keeps cfg me (readStore f) :=
  fun _ => Method.Carries.read fun _ _ _ _ _ _ => trivial

theorem ite {c : Prop} [Decidable c] {m m' : Handling α} (hm : Keeps cfg me m) (hm' : Keeps cfg me m') :
    Keeps cfg me (if c then m else m') := fun h => Method.Carries.ite (fun _ => hm h) fun _ => hm' h

theorem forM {f : β → Handling PUnit} {xs : List β} (hf : ∀ x, Keeps cfg me (f x)) : Keeps cfg me (xs.forM f) :=
  fun _ => (Method.Carries.forM fun x _ t _ _ => hf x t).mono fun _ _ _ _ _ => trivial

end Keeps

theorem carries_write {f : Hub → Hub × α} {Q : α → Hub → Prop}
    (hm : ∀ t, h.Later t → t.Sound cfg me.deployment → Move cfg me t (f t).1)
    (hQ : ∀ t u, h.Later t → t.Sound cfg me.deployment → (f t).1.Later u → u.Sound cfg me.deployment →
      Q (f t).2 u) :
    Carried cfg me Q (Method.write f : Handling α) h := by
  refine .write fun t ht hs => ?_
  have hmove := hm t ht.1 hs
  exact ⟨.inl hmove, ⟨hmove.later, hmove.quiet⟩, fun u hu hsu => hQ t u ht.1 hs hu.1 hsu⟩

theorem carries_readStore {f : Instance → α} {Q : α → Hub → Prop}
    (hQ : ∀ t u, h.Later t → t.Sound cfg me.deployment → t.Later u → u.Sound cfg me.deployment →
      Q (f t.inst) u) : Carried cfg me Q (readStore f) h :=
  Method.Carries.read fun t u ht hs hu hsu => hQ t u ht.1 hs hu.1 hsu

theorem keeps_fetchPullRequestNoCache (repo : String) (pr : Nat) : Keeps cfg me (fetchPullRequestNoCache repo pr) :=
  fun _ => Method.Carries.read fun _ _ _ _ _ _ => trivial

theorem keeps_fetchPullRequest (cached : Option String) (repo : String) (pr : Nat) :
    Keeps cfg me (fetchPullRequest cached repo pr) := by
  cases cached with
  | none => exact keeps_fetchPullRequestNoCache repo pr
  | some headSHA => exact Keeps.pure _

/-! ## Notes and entries -/

theorem carries_leaveNote {n : Note} (hn : ∀ t, h.Later t → t.Sound cfg me.deployment → Current (t.notes ++ [n]) →
      ∀ handling request priorEnv evidence, n = .passed handling request priorEnv evidence →
        evidence.basis = request.headSHA) :
    Carried cfg me (fun _ t => n ∈ t.notes) (leaveNote n) h :=
  carries_write (fun t ht hs => .note n (hn t ht hs)) fun _ _ _ _ hu _ =>
    hu.notes n (List.mem_append_right _ (List.mem_singleton_self n))

theorem carries_noteGathered (headSHA : String) (rows : List Check) :
    Carried cfg me (fun _ t => Note.gathered headSHA rows ∈ t.notes)
      (leaveNote (.gathered headSHA rows)) h :=
  carries_leaveNote fun _ _ _ _ _ _ _ _ hn => by cases hn

theorem carries_noteFinished (apply : PRApply) (row : Check) :
    Carried cfg me (fun _ t => Note.finished apply row ∈ t.notes)
      (leaveNote (.finished apply row)) h :=
  carries_leaveNote fun _ _ _ _ _ _ _ _ hn => by cases hn

theorem carries_leaveEntry {e : Entry} (hr : e.isRemark = true) (hb : e.Backed cfg me.deployment h) :
    Carried cfg me (fun _ t => e ∈ t.inst.log) (leaveEntry e) h :=
  carries_write (fun _ ht _ => .remark e hr (hb.later ht)) fun _ _ _ _ hu _ =>
    hu.mem_log (List.mem_append_right _ (List.mem_singleton_self e))

/-! ## Rows of `checks` -/

section
variable {c check : Check} {apply : PRApply}

theorem PlanRow.later {t : Hub} (hp : PlanRow h check) (hl : h.Later t) : PlanRow t check :=
  ⟨hp.good.later hl, hp.unowned, hp.completed, hp.unchanged⟩

theorem carries_writeRows {w : RowWrite} {entries : Instance → List Entry}
    (hw : ∀ t, h.Later t → Written t w (entries t.inst)) :
    Carried cfg me (fun _ _ => True) (writeRows w entries) h :=
  carries_write (fun t ht _ => .rows w _ (hw t ht)) fun _ _ _ _ _ _ => trivial

theorem carries_checksUpsert (hc : check.Good h) (hagg : check.isAggregate = true)
    (hnone : check.applyId = 0) : Carried cfg me (fun _ _ => True) (checksUpsert check) h :=
  (carries_writeRows fun _ ht => .aggregate (hc.later ht) hagg hnone).discard

theorem carries_checksUpsertPlanResult (hp : PlanRow h check) :
    Carried cfg me (fun _ _ => True) (checksUpsertPlanResult check) h := by
  refine (carries_writeRows fun t ht => .insertPlan (hp.later ht)).andThen fun inserted t ht _ _ => ?_
  refine .ite (fun _ => .done) fun _ => ?_
  exact (carries_writeRows fun u hu => .updatePlan ((hp.later ht.1).later hu)).discard

theorem carries_checksRecoverApplyOwned (hp : PlanRow h check) :
    Carried cfg me (fun _ _ => True) (checksRecoverApplyOwned check) h := by
  refine .ite (fun hnoop => ?_) fun _ => Method.Carries.done
  exact carries_writeRows fun t ht => .recover (hp.later ht) hnoop

theorem carries_checksGet (repo : String) (pr : Nat) (environment dbType database : String) : Carried cfg me
      (fun r t => ∀ c, r = some c → c.Good t ∧ c.isFor repo pr environment dbType database = true)
      (checksGet repo pr environment dbType database) h := by
  refine carries_readStore fun t u _ hs hu _ c hc => ⟨?_, ?_⟩
  · exact (hs.checks c (List.mem_of_find?_eq_some hc)).later hu
  · exact List.find?_some hc

theorem carries_checksGetByPR (repo : String) (pr : Nat) :
    Carried cfg me (fun rows t => (∀ c ∈ rows, c.Good t) ∧ Note.read repo pr rows ∈ t.notes)
      (checksGetByPR repo pr) h := by
  refine carries_write (fun t _ _ => .note _ fun _ _ _ _ _ hn => by cases hn) fun t u _ hs hu _ => ⟨?_, ?_⟩
  · intro c hc
    exact ((hs.checks c (List.mem_of_mem_filter hc)).later (.addNote _)).later hu
  · exact hu.notes _ (List.mem_append_right _ (List.mem_singleton_self _))

theorem carries_checksGetForResult (hterm : apply.state.isTerminal = true) (htold : h.inst.Told apply) :
    Carried cfg me
      (fun r t => ∀ c, r = some c → c.Good t ∧ apply.isOf c = true)
      (checksGetForResult apply.repository apply.pullRequest apply) h := by
  refine carries_write (fun t ht hs => ?_) fun t u _ hs hu _ c hc => ?_
  · dsimp only
    split
    · exact .stay
    · next hnone =>
      split
      · exact .stay
      · next hstop =>
        refine .missed apply ?_ (htold.later ht) fun c hc => ?_
        · rw [PRApply.isFinished, hterm, Bool.true_and, decide_eq_true hstop]
        · exact Bool.eq_false_iff.2 (List.find?_eq_none.1 hnone c hc)
  · dsimp only at hc hu
    split at hc
    · next found hfound =>
      cases hc
      rw [hfound] at hu
      exact ⟨(hs.checks c (List.mem_of_find?_eq_some hfound)).later hu, List.find?_some hfound⟩
    · cases hc

theorem carries_checksMarkStalePlanSuccessful (hp : PlanRow h check) :
    Carried cfg me (fun _ _ => True) (checksMarkStalePlanSuccessful check) h := by
  refine (carries_writeRows fun t ht => .markStale (hp.later ht)).andThen fun changed t _ _ _ => ?_
  refine .ite (fun _ => .done) fun _ => ?_
  refine (carries_checksGet _ _ _ _ _).andThen fun current _ _ _ _ => ?_
  cases current with
  | none | some c => exact .done

theorem carries_checksCompleteForApply (hc : c.Good h) (hof : apply.isOf c = true)
    (hrec : Entry.recorded apply ∈ h.inst.log) (hnote : Note.finished apply c ∈ h.notes) :
    Carried cfg me (fun _ _ => True)
      (checksCompleteForApply (c.finishApply apply) apply) h :=
  carries_writeRows fun _ ht => .complete (hc.later ht) hof (ht.mem_log hrec) (ht.notes _ hnote)

theorem carries_checksMarkActionRequiredForApply (hc : c.Good h) (hof : apply.isOf c = true)
    (htold : h.inst.Told apply) (hroll : apply.rollback = true ∧ apply.state = .completed) :
    Carried cfg me (fun _ _ => True)
      (checksMarkActionRequiredForApply c.requireReapply apply) h :=
  carries_writeRows fun _ ht => .requireAction (hc.later ht) hof (htold.later ht) hroll

theorem carries_checksUpsertBlock (hc : c.Good h) (hdb : c.isAggregate = false) (howned : c.applyId ≠ 0)
    (headSHA : String) : Carried cfg me (fun _ _ => True) (checksUpsertBlock c (c.blockRemoved headSHA)) h :=
  (carries_writeRows fun _ ht => .block headSHA (hc.later ht) hdb howned).discard

theorem keeps_checksDelete (repo : String) (pr : Nat) :
    Keeps cfg me (checksDeleteByPRExcludingApplyOwned repo pr) :=
  fun _ => (carries_writeRows fun _ _ => .delete repo pr).discard

end

/-! ## Check runs -/

section
variable {repo headSHA name basis : String} {status : CheckStatus} {conclusion : Conclusion} {made : Made}

structure MayPublish (h : Hub) (repo headSHA : String) (conclusion : Conclusion) (basis : String)
    (made : Made) : Prop where
  fresh : Current h.notes → conclusion = .success → basis = headSHA
  computed : conclusion = .success →
    ∀ r : CheckRun, r.repository = repo → r.made = made → r.Computed h.notes

theorem MayPublish.later {t : Hub} (hp : MayPublish h repo headSHA conclusion basis made) (hl : h.Later t) :
    MayPublish t repo headSHA conclusion basis made where
  fresh hcur := hp.fresh (hcur.mono hl.notes)
  computed hs r hrepo hmade := (hp.computed hs r hrepo hmade).mono hl.notes

theorem MayPublish.of_ne (hne : conclusion ≠ .success) : MayPublish h repo headSHA conclusion basis made where
  fresh _ hs := absurd hs hne
  computed hs := absurd hs hne

theorem Hub.Sound.holds_addRun {i : Nat} {run : CheckRun} (hs : h.Sound cfg i) :
    (h.github.addRun run).Holds h.github.nextRun run.repository run.headSHA := by
  refine ⟨Nat.lt_succ_self _, fun r hr hid => ?_⟩
  rcases GitHub.mem_addRun.1 hr with hr | rfl
  · exact absurd hid (Nat.ne_of_lt (hs.runIds r hr))
  · exact ⟨rfl, rfl⟩

theorem carries_createCheckRun {conf : ServerConfig} (hp : MayPublish h repo headSHA conclusion basis made) :
    Carried cfg me (fun r t => ∀ id, r = some id → t.github.Holds id repo headSHA)
      (createCheckRun conf repo headSHA name status conclusion basis made) h := by
  refine carries_write (fun t ht _ => ?_) fun t u _ hs hu _ id hid => ?_
  · split
    · exact .stay
    · exact .addRun _ ⟨fun hcur _ => (hp.later ht).fresh hcur, fun hsucc =>
        (hp.later ht).computed hsucc _ rfl rfl⟩
  · split at hid
    · cases hid
    · next hup =>
      cases hid
      rw [if_neg hup] at hu
      exact hs.holds_addRun.later hu

theorem carries_updateCheckRun {id : Nat} (hheld : h.github.Holds id repo headSHA)
    (hp : MayPublish h repo headSHA conclusion basis made) :
    Carried cfg me (fun r t => ∀ id', r = some id' → t.github.Holds id' repo headSHA)
      (updateCheckRun id name status conclusion basis made) h := by
  refine carries_write (fun t ht _ => ?_) fun t u ht _ hu _ id' hid => ?_
  · split
    · exact .stay
    · refine .setRun id _ ⟨fun _ => rfl, fun _ => rfl, fun _ => rfl⟩ fun r hr hid => ?_
      obtain ⟨hrepo, hhead⟩ := (hheld.later ht).2 r hr hid
      exact ⟨fun hcur _ hsucc => ((hp.later ht).fresh hcur hsucc).trans hhead.symm, fun hsucc =>
        (hp.later ht).computed hsucc _ hrepo rfl⟩
  · split at hid
    · cases hid
    · next hup =>
      cases hid
      rw [if_neg hup] at hu
      have hset : t.Later { t with github := t.github.setRun id fun r =>
          { r with
            name := name, status := status, conclusion := conclusion, basis := basis, made := made } } :=
        .setRun ⟨fun _ => rfl, fun _ => rfl, fun _ => rfl⟩
      exact ((hheld.later ht).later hset).later hu

end

/-! ## Locks -/

section
variable {new : Lock → Prop} {lock : Lock}

theorem Repins.refl (s : LockDb) : Repins new s s := fun l hl => .inl ⟨l, hl, .refl l⟩

theorem repins_insertLock (lock : Lock) (s : LockDb) : Repins (SamePin · lock) s (insertLock id lock s).1 := by
  unfold insertLock
  split
  · exact Repins.refl s
  · intro l hl
    rcases List.mem_append.1 hl with hl | hl
    · exact .inl ⟨l, hl, .refl l⟩
    · rw [List.mem_singleton.1 hl]
      exact .inr ⟨rfl, rfl, rfl, rfl⟩

theorem repins_updatePendingPlan (lock : Lock) (s : LockDb) :
    Repins (SamePin · lock) s (updatePendingPlan id lock s).1 := by
  intro l hl
  obtain ⟨o, ho, rfl⟩ := Table.mem_update.1 hl
  split
  · next hp =>
    unfold Lock.isHeldBy Lock.isFor at hp
    simp only [Bool.and_eq_true, decide_eq_true_eq] at hp
    exact .inr ⟨hp.1.1, hp.1.2, hp.2, rfl⟩
  · exact .inl ⟨o, ho, .refl o⟩

theorem repins_deleteLock (database dbType owner : String) (s : LockDb) :
    Repins new s (deleteLock id database dbType owner s).1 :=
  fun l hl => .inl ⟨l, List.mem_of_mem_filter hl, .refl l⟩

theorem always_writeLocks {f : LockDb → LockDb × α} (hf : ∀ s, Repins new s (f s).1) :
    Method.Only (Repins new) (writeLocks f) := by
  refine .step fun s => ?_
  split
  · exact Repins.refl s
  · exact hf s

theorem always_acquireExisting (lock existing : Lock) :
    Method.Only (Repins (SamePin · lock)) (acquireExisting id lock existing) := by
  unfold acquireExisting refreshPendingPlanID
  split
  · exact .throw _
  split
  · exact .pure _
  refine .bind (always_writeLocks (repins_updatePendingPlan lock)) fun rows => ?_
  cases rows with
  | none => exact .throw _
  | some rows =>
    dsimp only
    split
    · exact .pure _
    refine .bind (.read Repins.refl _) fun current => ?_
    cases current with
    | none => exact .throw _
    | some current =>
      dsimp only
      split
      · exact .pure _
      · exact .throw _

theorem always_acquireOnce (lock : Lock) : Method.Only (Repins (SamePin · lock)) (acquireOnce id lock) := by
  refine .bind (.read Repins.refl _) fun existing => ?_
  cases existing with
  | some existing => exact always_acquireExisting lock existing
  | none =>
    refine .bind (always_writeLocks (repins_insertLock lock)) fun inserted => ?_
    rcases inserted with _ | _ | _
    · exact .throw _
    · refine .bind (.read Repins.refl _) fun winner => ?_
      cases winner with
      | none => exact .throw _
      | some winner => exact always_acquireExisting lock winner
    · exact .pure _

theorem always_acquireLock (lock : Lock) : Method.Only (Repins (SamePin · lock)) (acquireLock id lock) := by
  unfold acquireLock
  generalize lockRetryMaxAttempts = n
  induction n with
  | zero => exact .throw _
  | succ n ih =>
    refine Prog.Ensures.bind (Prog.Ensures.mono (fun r _ => ?_) (always_acquireOnce lock))
    rcases r with e | a
    · cases e with
      | lockConflict => exact ih
      | held | notFound | notOwned => trivial
    · trivial

theorem always_releaseLock (database dbType owner : String) :
    Method.Only (Repins fun _ => False) (releaseLock id database dbType owner) := by
  refine .bind (always_writeLocks (repins_deleteLock database dbType owner)) fun rows => ?_
  cases rows with
  | none => exact .throw _
  | some rows =>
    dsimp only
    split
    · refine .bind (.read Repins.refl _) fun current => ?_
      cases current with
      | none | some _ => exact .throw _
    · exact .pure _

theorem carries_callLocks {m : LockMethod α} (hm : Method.Only (Repins new) m)
    (hnew : ∀ t, h.Later t → ∀ l, new l → Pinned (cfg me.deployment) me.deployment t l) :
    Carried cfg me (fun _ _ => True) (callLocks m) h := by
  refine Prog.Carries.bind (Prog.Carries.mono (fun _ _ _ _ _ _ _ _ => trivial)
    (Prog.Ensures.zoom_carries hm fun u locks hu _ hr => ?_))
  have hmove : Move cfg me u { u with inst := { u.inst with locks := locks } } :=
    .setLocks locks fun l hl => (hr l hl).imp_right (hnew u hu.1 l)
  exact ⟨.inl hmove, hmove.later, hmove.quiet⟩

theorem carries_locksAcquire (hp : Pinned (cfg me.deployment) me.deployment h lock) :
    Carried cfg me (fun _ _ => True) (locksAcquire lock) h :=
  carries_callLocks (always_acquireLock lock) fun _ ht _ he => (hp.later ht).of_samePin he

theorem keeps_locksRelease (database dbType owner : String) : Keeps cfg me (locksRelease database dbType owner) :=
  fun _ => carries_callLocks (always_releaseLock database dbType owner) fun _ _ _ => False.elim

theorem keeps_locksForceRelease (database dbType : String) : Keeps cfg me (locksForceRelease database dbType) :=
  fun _ => carries_write (fun _ _ _ => .setLocks _ fun l hl => .inl ⟨l, List.mem_of_mem_filter hl, .refl l⟩)
    fun _ _ _ _ _ _ => trivial

theorem carries_locksGet (database dbType : String) : Carried cfg me
      (fun r t => ∀ l, r = some l → Pinned (cfg me.deployment) me.deployment t l ∧
        l.databaseName = database ∧ l.databaseType = dbType)
      (locksGet database dbType) h := by
  refine carries_readStore fun t u _ hs hu _ l hl => ⟨?_, ?_⟩
  · exact (hs.pinned l (List.mem_of_find?_eq_some hl)).later hu
  · have hfor := List.find?_some hl
    unfold Lock.isFor at hfor
    simpa only [id_eq, Bool.and_eq_true, decide_eq_true_eq] using hfor

theorem carries_locksGetByPR (repo : String) (pr : Nat) : Carried cfg me
      (fun r t => ∀ l ∈ r, Pinned (cfg me.deployment) me.deployment t l) (locksGetByPR repo pr) h :=
  carries_readStore fun _ _ _ hs hu _ l hl => (hs.pinned l (List.mem_of_mem_filter hl)).later hu

end

/-! ## Plans and applies -/

theorem repr_inj {m n : Nat} (hmn : m.repr = n.repr) : m = n := by
  rw [Nat.repr_eq_ofList_toDigits, Nat.repr_eq_ofList_toDigits, String.ofList_inj] at hmn
  calc m = Nat.ofDigitChars 10 (Nat.toDigits 10 m) 0 := Nat.ofDigitChars_ten_toDigits.symm
    _ = Nat.ofDigitChars 10 (Nat.toDigits 10 n) 0 := by rw [hmn]
    _ = n := Nat.ofDigitChars_ten_toDigits

theorem planIdentifier_inj {m n : Nat} (hmn : planIdentifier m = planIdentifier n) : m = n :=
  repr_inj ((String.append_right_inj _).1 hmn)

section
variable {plan : StoredPlan} {origin : Origin} {a : PRApply} {i : Nat} {t : Hub}

theorem Hub.Sound.plan_fresh (hs : h.Sound cfg i) : h.inst.plan (planIdentifier h.inst.nextPlan) = none := by
  refine List.find?_eq_none.2 fun p hp => ?_
  obtain ⟨k, hk, hid⟩ := hs.numbered p hp
  rw [hid, decide_eq_true_eq]
  exact fun he => Nat.ne_of_lt hk (planIdentifier_inj he)

theorem carries_plansCreate : Carried cfg me
      (fun id t => t.inst.plan id = some { plan with planIdentifier := id } ∧ ∃ k, id = planIdentifier k)
      (plansCreate plan) h := by
  refine carries_write (fun _ _ _ => .addPlan plan) fun t u _ hs hu _ => ⟨hu.plans _ _ ?_, _, rfl⟩
  have hfresh := hs.plan_fresh
  unfold Instance.plan at hfresh
  unfold Instance.plan Instance.addPlan
  rw [List.find?_append, hfresh]
  simp

theorem carries_plansGet (id : String) :
    Carried cfg me (fun r t => ∀ p, r = some p → t.inst.plan id = some p) (plansGet id) h :=
  carries_readStore fun _ _ _ _ hu _ p hp => hu.plans id p hp

theorem Instance.plan_identifier {s : Instance} {id : String} (hp : s.plan id = some plan) :
    plan.planIdentifier = id := by
  have hfound := List.find?_some hp
  exact of_decide_eq_true hfound

theorem Hub.Sound.told (hs : h.Sound cfg i) (ha : a ∈ h.inst.applies) (hl : h.Later t) : t.inst.Told a :=
  Instance.Told.later ⟨⟨a, ha, .refl a⟩, hs.turned a ha⟩ hl

def Idle (me : Handle) (h : Hub) : Prop := ∀ e ∈ h.inst.log, e.deedOf ≠ some me

def Begun (me : Handle) (a : PRApply) (h : Hub) : Prop :=
  (∃ origin, Entry.created me origin a ∈ h.inst.log) ∧
    ∀ id now row, Entry.started me id now row ∉ h.inst.log

theorem Idle.later (hi : Idle me h) (hl : (evolution cfg me).le h t) : Idle me t :=
  fun e he hd => hi e (hl.2 e he hd) hd

theorem Begun.later (hb : Begun me a h) (hl : (evolution cfg me).le h t) : Begun me a t := by
  obtain ⟨⟨origin, ha⟩, hfirst⟩ := hb
  exact ⟨⟨origin, hl.1.mem_log ha⟩, fun id now row he => hfirst id now row (hl.2 _ he rfl)⟩

theorem acts_appliesCreate {rollback : Bool} {lockId : Nat} (hidle : Idle me h)
    (hc : Creates cfg me.deployment h me origin plan rollback) : Method.Acts (evolution cfg me)
      (fun a t => Begun me a t ∧ ∃ id lockId, a = plan.newApply id lockId rollback)
      (appliesCreate me origin plan lockId rollback) h := by
  refine .write fun t ht _ => ⟨.inr ?_, fun u hu _ => ⟨Begun.later ⟨⟨origin, ?_⟩, ?_⟩ hu, _, _, rfl⟩⟩
  · exact .create origin plan lockId rollback (hc.later ht.1) (hidle.later ht)
  · exact List.mem_append_right _ (List.mem_singleton_self _)
  · intro id now row he
    rcases List.mem_append.1 he with he | he
    · exact hidle.later ht _ he rfl
    · cases List.mem_singleton.1 he

theorem acts_checksUpsertStart {check : Check} (hb : Begun me a h) (hof : a.isOf check = true)
    (hlinked : check.checkRunId ≠ 0 →
      check.isAggregate = true ∧ h.github.Holds check.checkRunId check.repository check.headSHA) :
    Method.Acts (evolution cfg me) (fun _ _ => True)
      (checksUpsertStart me a.id (check.startApply a.id)) h := by
  refine .bind (Method.Acts.write fun t ht _ => ⟨.inr ?_, fun _ _ _ =>
    Method.Acts.done⟩)
  obtain ⟨⟨origin, ha⟩, hfirst⟩ := hb.later ht
  refine .start origin a _ ha hof rfl rfl rfl (fun hne => ?_) hfirst
  exact ⟨(hlinked hne).1, (hlinked hne).2.later ht.1⟩

end

end SchemaBot.Webhook
