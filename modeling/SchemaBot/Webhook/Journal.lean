import SchemaBot.Lib.History
import SchemaBot.Webhook.Runs

/-!
# The order in which things happen

The log of a deployment is its history. `Entry.Due` says what must be in the log before an entry is made.
-/

namespace SchemaBot.Webhook

open Concurrent History

/-! ## What an entry rests on -/

def World.Enters (cfg : Nat → ServerConfig) (w : World) (act : Action) (i : Nat) (e : Entry) : Prop :=
  e ∉ (w.instances i).log ∧ e ∈ ((w.step cfg act).instances i).log

instance {cfg : Nat → ServerConfig} {w : World} {act : Action} {i : Nat} {e : Entry} :
    Decidable (w.Enters cfg act i e) := inferInstanceAs (Decidable (_ ∧ _))

def PRApply.Newest (log : List Entry) (a : PRApply) : Prop :=
  ∀ e ∈ log, ∀ b, e.creates = some b → b.id < a.id

def Newer (log : List Entry) (key : String × Nat × String × String × String) (id : Nat) : Prop :=
  ∃ e ∈ log, ∃ b, e.creates = some b ∧ b.key = key ∧ id < b.id

def Owner (log : List Entry) (key : String × Nat × String × String × String) (id : Nat) : Prop :=
  ∃ me origin b now row, Entry.created me origin b ∈ log ∧ Entry.started me id now row ∈ log ∧ b.id = id ∧
    b.key = key

def StoredPlan.scope (p : StoredPlan) : String × String × String := (p.database, p.databaseType, p.environment)

def PRApply.scope (a : PRApply) : String × String × String := (a.database, a.databaseType, a.environment)

def Origin.Due (log : List Entry) (me : Handle) (a : PRApply) : Origin → Prop
  | .apply => True
  | .applyConfirm lock pending => Entry.confirming me a.environment lock pending ∈ log
  | .rollbackConfirm => ∃ plan, Entry.takenUp me plan ∈ log ∧ plan.planIdentifier = a.planIdentifier ∧
      plan.scope = a.scope

def Entry.Due (log : List Entry) : Entry → Prop
  | .created me origin a =>
    a.Newest log ∧ (∀ e ∈ log, e.deedOf ≠ some me) ∧
      HasHeld log me a.repository a.pullRequest a.database a.databaseType ∧ origin.Due log me a
  | .queued a => a.Newest log
  | .turned a => ∃ e ∈ log, ∃ b, e.creates = some b ∧ b.id = a.id
  | .started me id now row =>
    (∀ id now row, Entry.started me id now row ∉ log) ∧
      (∀ a, now = some a → a.isFinished = true → TurnedFinished log id) ∧
      ∃ origin a, Entry.created me origin a ∈ log ∧ a.id = id ∧
        ∀ c, row = some c → c.applyId ≠ 0 → Owner log a.key c.applyId
  | .recorded a => TurnedFinished log a.id
  | .delivered a updated => TurnedFinished log a.id ∧ (updated = true → ¬ Newer log a.key a.id)
  | _ => True

section
variable {cfg : Nat → ServerConfig} {i : Nat} {h : Hub} {b : Books} {a : PRApply} {c : Check}
  {entries : List Entry} {w : RowWrite}

theorem Hub.Sound.knows (hs : h.Sound cfg i) {e : Entry} (he : e ∈ h.inst.log)
    (ha : e.creates = some a) : h.inst.Knows a := by
  cases e with
  | created handling origin a =>
    cases ha
    exact (hs.entries _ he).1
  | queued a =>
    cases ha
    have hq := hs.entries _ he
    exact hq
  | _ => cases ha

theorem Hub.Sound.newest (hs : h.Sound cfg i) (hid : a.id = h.inst.nextApply) : a.Newest h.inst.log := by
  intro e he b hb
  obtain ⟨a', ha', hf⟩ := hs.knows he hb
  rw [hid, ← hf.id_eq]
  exact hs.applyIdsBelow a' ha'

theorem PRApply.Follows.key_eq {a a' : PRApply} (hf : a'.Follows a) : a'.key = a.key := by
  rw [hf.same]
  rfl

theorem Hub.Sound.hasNewerApply_iff (hs : h.Sound cfg i) {id : Nat} :
    h.inst.hasNewerApply c id = true ↔ Newer h.inst.log c.key id := by
  unfold Instance.hasNewerApply
  simp only [List.any_eq_true, Bool.and_eq_true, decide_eq_true_eq, PRApply.isOf_iff]
  constructor
  · rintro ⟨a, ha, hkey, hlt⟩
    obtain ⟨e, he, b, hb, hf⟩ := hs.stored a ha
    exact ⟨e, he, b, hb, hf.key_eq.symm.trans hkey.symm, hf.id_eq ▸ hlt⟩
  · rintro ⟨e, he, b, hb, hkey, hlt⟩
    obtain ⟨a, ha, hf⟩ := hs.knows he hb
    exact ⟨a, ha, hkey.symm.trans hf.key_eq.symm, hf.id_eq.symm ▸ hlt⟩

theorem Hub.Sound.owner (hs : h.Sound cfg i) (hc : c ∈ h.inst.checks) (hne : c.applyId ≠ 0) :
    Owner h.inst.log c.key c.applyId := by
  obtain ⟨⟨a, ha, hid, hof⟩, me, now, row, hstart⟩ := (hs.checks c hc).owned hne
  obtain ⟨origin, b, hcr, hbid⟩ := hs.entries _ hstart
  obtain ⟨a', ha', hf⟩ := (hs.entries _ hcr).1
  have heq : a' = a := hs.applyIds.eq ha' ha (hf.id_eq.trans (hbid.trans hid.symm))
  subst heq
  exact ⟨me, origin, b, now, row, hcr, hstart, hbid, hf.key_eq.symm.trans (PRApply.isOf_iff.1 hof).symm⟩

/-- A result that changes a row finds one of its apply, with no newer apply of the row, that is in progress or
that a rollback has to release. -/
theorem Written.changed_row (hw : Written h w entries) (he : Entry.delivered a true ∈ entries) :
    ∃ o ∈ h.inst.checks, h.inst.matched w o = true ∧ o.key = a.key ∧ o.applyId = a.id ∧
      h.inst.hasNewerApply o a.id = false ∧ (o.status = .inProgress ∨ a.rollback = true ∧ a.state = .completed) := by
  cases hw with
  | @complete c apply hgood hof =>
    simp only [List.mem_singleton, Entry.delivered.injEq] at he
    obtain ⟨rfl, hchanges⟩ := he
    rcases Instance.exists_of_changesRows hchanges.symm with ⟨o, ho, hmatch⟩ | hno
    · have hm := hmatch
      simp only [Instance.matched, Bool.and_eq_true, decide_eq_true_eq, Bool.not_eq_true'] at hm
      exact ⟨o, ho, hmatch, (Check.sameKey_iff.1 hm.1.1.1).trans (PRApply.isOf_iff.1 hof), hm.1.2, hm.2, .inl hm.1.1.2⟩
    · exact absurd rfl hno
  | @requireAction c apply hgood hof htold hroll =>
    simp only [List.mem_singleton, Entry.delivered.injEq] at he
    obtain ⟨rfl, hchanges⟩ := he
    rcases Instance.exists_of_changesRows hchanges.symm with ⟨o, ho, hmatch⟩ | hno
    · have hm := hmatch
      simp only [Instance.matched, Bool.and_eq_true, decide_eq_true_eq, Bool.not_eq_true'] at hm
      exact ⟨o, ho, hmatch, (Check.sameKey_iff.1 hm.1.1).trans (PRApply.isOf_iff.1 hof), hm.1.2, hm.2, .inr hroll⟩
    · exact absurd rfl hno
  | recover | block => simp at he
  | _ => exact absurd he List.not_mem_nil

theorem Written.due (hw : Written h w entries) (hs : h.Sound cfg i) :
    entries = [] ∨ ∃ e, entries = [e] ∧ e.Due h.inst.log := by
  have hdelivered : ∀ {a : PRApply} {updated : Bool}, Entry.delivered a updated ∈ entries →
      (Entry.delivered a updated).Due h.inst.log := by
    intro a updated he
    have hback := hw.backed hs he
    refine ⟨hback.2.2 hback.1, fun hup hnewer => ?_⟩
    subst hup
    obtain ⟨o, -, -, hkey, -, hno, -⟩ := hw.changed_row he
    rw [← hkey, ← hs.hasNewerApply_iff, hno] at hnewer
    cases hnewer
  cases hw with
  | recover => exact .inr ⟨_, rfl, trivial⟩
  | complete | requireAction => exact .inr ⟨_, rfl, hdelivered (List.mem_singleton_self _)⟩
  | block => exact .inr ⟨_, rfl, trivial⟩
  | _ => exact .inl rfl

theorem Ledger.due (hl : Ledger cfg i h b) (hs : h.Sound cfg i) :
    b.log = h.inst.log ∨ ∃ e, b.log = h.inst.log ++ [e] ∧ e.Due h.inst.log := by
  cases hl with
  | same => exact .inl rfl
  | remark e hr hb =>
    refine .inr ⟨e, rfl, ?_⟩
    cases e with
    | recorded a => exact hb.1.2.2 hb.1.1
    | created | queued | started | delivered | turned => cases hr
    | _ => trivial
  | missed apply hfin htold =>
    refine .inr ⟨_, rfl, htold.2 hfin, fun hup => ?_⟩
    cases hup
  | rows w entries hw =>
    rcases hw.due hs with rfl | ⟨e, rfl, he⟩
    · exact .inl (List.append_nil _)
    · exact .inr ⟨e, rfl, he⟩
  | create me origin plan lockId rollback hc hidle =>
    refine .inr ⟨_, rfl, hs.newest rfl, hidle, hc.held, ?_⟩
    cases origin with
    | apply => trivial
    | applyConfirm lock pending => exact hc.backed.1
    | rollbackConfirm => exact ⟨plan, hc.backed, rfl, rfl⟩
  | start me origin a check ha hof hid hstatus hconcl hfirst =>
    refine .inr ⟨_, rfl, hfirst, fun x hx hfin => ?_, origin, a, ha, rfl, fun c hc hne => ?_⟩
    · have hxid : x.id = a.id := by simpa using List.find?_some hx
      rw [← hxid]
      exact hs.turned x (List.mem_of_find?_eq_some hx) hfin
    · have hmem : c ∈ h.inst.checks := List.mem_of_find?_eq_some hc
      have hkey : c.key = check.key := Check.sameKey_iff.1 (List.find?_some hc)
      rw [← PRApply.isOf_iff.1 hof, ← hkey]
      exact hs.owner hmem hne
  | turned apply state happly =>
    obtain ⟨e, he, a, ha, hf⟩ := hs.stored apply happly
    exact .inr ⟨_, rfl, e, he, a, ha, hf.id_eq.symm⟩
  | queued plan lockId rollback => exact .inr ⟨_, rfl, hs.newest rfl⟩

theorem Ledger.delivered {updated : Bool} (hl : Ledger cfg i h b)
    (hlog : b.log = h.inst.log ++ [.delivered a updated]) :
    (∃ w, Written h w [.delivered a updated] ∧ b.checks = h.inst.writtenRows w) ∨
      b.checks = h.inst.checks ∧ updated = false ∧ h.inst.Told a ∧ ∀ c ∈ h.inst.checks, a.isOf c = false := by
  have hlast : ∀ {entries : List Entry}, h.inst.log ++ entries = h.inst.log ++ [.delivered a updated] →
      entries = [.delivered a updated] := List.append_cancel_left
  cases hl with
  | rows w entries hw =>
    rw [hlast hlog] at hw
    exact .inl ⟨w, hw, rfl⟩
  | missed apply hfin htold hnone =>
    cases hlast hlog
    exact .inr ⟨rfl, rfl, htold, hnone⟩
  | same => exact absurd hlog (by simp [Instance.books])
  | remark e hr =>
    cases hlast hlog
    cases hr
  | _ => cases hlast hlog

theorem journal (cfg : Nat → ServerConfig) (actions : List Action) (i : Nat) :
    Recorded Entry.Due (logAfter cfg actions i) :=
  ledger_run (J := fun _ b => Recorded Entry.Due b.log) (fun _ => recorded_nil)
    (fun _ _ _ hs hl hj => hj.extend (hl.due hs)) actions i

theorem journal_run {J : Nat → Books → Prop} (hinit : ∀ i, J i {})
    (hstep : ∀ i h b, h.Sound cfg i → Ledger cfg i h b → Recorded Entry.Due h.inst.log → J i h.inst.books → J i b)
    (actions : List Action) (i : Nat) : J i ((World.after cfg actions).instances i).books :=
  (ledger_run (J := fun i b => Recorded Entry.Due b.log ∧ J i b) (fun i => ⟨recorded_nil, hinit i⟩)
    (fun i h b hs hl hj => ⟨hj.1.extend (hl.due hs), hstep i h b hs hl hj.1 hj.2⟩) actions i).2

end

/-! ## What follows from the order -/

section
variable {log pre : List Entry} {me me' : Handle} {origin origin' : Origin} {a a' : PRApply} {id : Nat}
  {now now' : Option PRApply} {row row' : Option Check}

theorem Entry.Due.newest {e : Entry} (hd : e.Due log) (ha : e.creates = some a) : a.Newest log := by
  cases e with
  | created =>
    cases ha
    exact hd.1
  | queued =>
    cases ha
    exact hd
  | _ => cases ha

theorem creates_before (hj : Recorded Entry.Due log) {e e' : Entry} (he : e ∈ log)
    (hp : pre ++ [e'] <+: log) (ha : e.creates = some a) (ha' : e'.creates = some a') (hlt : a.id < a'.id) :
    e ∈ pre := by
  obtain ⟨pre', hpre'⟩ := exists_beginning he
  rcases beginning_cases hp hpre' with heq | hmem | hafter
  · rw [heq, ha] at ha'
    cases ha'
    omega
  · exact hmem
  · have hmem : e' ∈ pre' := hafter.subset List.mem_concat_self
    have hlt' := (hj.last hpre').newest ha e' hmem a' ha'
    omega

theorem creates_eq (hj : Recorded Entry.Due log) {e e' : Entry} (he : e ∈ log) (he' : e' ∈ log)
    (ha : e.creates = some a) (ha' : e'.creates = some a') (hid : a.id = a'.id) : e = e' := by
  rcases before_or_after he he' with heq | ⟨pre, hpre, hmem⟩ | ⟨pre, hpre, hmem⟩
  · exact heq
  · have hlt := (hj.last hpre).newest ha' e hmem a ha
    omega
  · have hlt := (hj.last hpre).newest ha e' hmem a' ha'
    omega

theorem started_once (hj : Recorded Entry.Due log) (hp : pre ++ [Entry.started me id now row] <+: log) :
    Entry.started me' id now' row' ∉ pre := by
  intro hmem
  obtain ⟨hfirst, -, origin, a, hcr, hid, -⟩ := hj.last hp
  have hpre : Recorded Entry.Due pre := hj.beginning ((List.prefix_append _ _).trans hp)
  obtain ⟨pre', hpre'⟩ := exists_beginning hmem
  obtain ⟨-, -, origin', a', hcr', hid', -⟩ := hpre.last hpre'
  have hmem' : Entry.created me' origin' a' ∈ pre := hpre'.subset (List.mem_append_left _ hcr')
  have heq := creates_eq hpre hcr hmem' rfl rfl (hid.trans hid'.symm)
  injection heq with hme
  subst hme
  exact hfirst _ _ _ hmem

end

end SchemaBot.Webhook
