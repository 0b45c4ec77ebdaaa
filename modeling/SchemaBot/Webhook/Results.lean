import SchemaBot.Webhook.Conclusions

/-!
# Starts and results of applies

The start of an apply and its results come to the row of `checks` from independent handlings. A result is guarded.
-/

namespace SchemaBot.Webhook

open Concurrent History

/-! ## Conditions -/

def Entry.commandApply : Entry → Option PRApply
  | .created _ _ a => some a
  | _ => none

def Entry.starts (id : Nat) : Entry → Bool
  | .started _ id' _ _ => id' = id
  | _ => false

def Entry.delivers (id : Nat) : Entry → Bool
  | .delivered a _ => a.id = id
  | _ => false

def Entry.InOrder (log : List Entry) : Entry → Prop
  | .turned b => b.isFinished = true →
      ∀ e ∈ log, ∀ a ∈ e.commandApply, a.id = b.id → ∃ x ∈ log, x.starts b.id = true
  | .blocked row stored => stored = some row
  | _ => True

def Entry.OneByOne (log : List Entry) (e : Entry) : Prop :=
  ∀ b ∈ e.creates, ∀ x ∈ log, ∀ a ∈ x.commandApply, a.key = b.key → ∃ d ∈ log, d.delivers a.id = true

instance (log : List Entry) (e : Entry) : Decidable (e.InOrder log) :=
  match e with
  | .turned _ => instDecidableForall
  | .blocked row stored => inferInstanceAs (Decidable (stored = some row))
  | .created .. | .queued _ | .held .. | .confirming .. | .replanned .. | .pinned .. | .takenUp .. | .started ..
  | .recovered _ | .observed _ | .recorded _ | .delivered .. => instDecidableTrue

instance (log : List Entry) (e : Entry) : Decidable (e.OneByOne log) := by
  unfold Entry.OneByOne
  infer_instance

section
variable {log pre : List Entry} {me : Handle} {origin : Origin} {a : PRApply} {id : Nat} {e : Entry}

theorem Entry.exists_of_starts (he : e.starts id = true) : ∃ me now row, e = .started me id now row := by
  unfold Entry.starts at he
  split at he
  · rw [← of_decide_eq_true he]
    exact ⟨_, _, _, rfl⟩
  · cases he

theorem Entry.exists_of_delivers (he : e.delivers id = true) :
    ∃ a updated, e = .delivered a updated ∧ a.id = id := by
  unfold Entry.delivers at he
  split at he
  · exact ⟨_, _, rfl, of_decide_eq_true he⟩
  · cases he

theorem started_by (hj : Recorded Entry.Due log) (hcr : Entry.created me origin a ∈ log)
    (he : e ∈ log) (hs : e.starts a.id = true) : ∃ now row, Entry.started me a.id now row ∈ log := by
  obtain ⟨me', now, row, rfl⟩ := Entry.exists_of_starts hs
  obtain ⟨pre, hpre⟩ := exists_beginning he
  obtain ⟨-, -, origin', a', hcr', hid, -⟩ := hj.last hpre
  have hmem : Entry.created me' origin' a' ∈ log := hpre.subset (List.mem_append_left _ hcr')
  have heq := creates_eq hj hcr hmem rfl rfl hid.symm
  injection heq with hme
  subst hme
  exact ⟨now, row, he⟩

theorem started_of_finished (hj : Recorded Entry.Due log) (ho : Recorded Entry.InOrder log)
    (hcr : Entry.created me origin a ∈ log) (hfin : TurnedFinished log a.id) :
    ∃ now row, Entry.started me a.id now row ∈ log := by
  obtain ⟨b, hb, hid, hbfin⟩ := hfin
  obtain ⟨pre, hpre⟩ := exists_beginning hb
  have hsub : ∀ e ∈ pre, e ∈ log := fun e he => hpre.subset (List.mem_append_left _ he)
  -- the apply was stored before it ended, so its start was recorded before it ended
  obtain ⟨e, he, a', ha', hid'⟩ := hj.last hpre
  have heq : e = Entry.created me origin a := creates_eq hj (hsub e he) hcr ha' rfl (hid'.trans hid)
  obtain ⟨x, hx, hstart⟩ := ho.last hpre hbfin e he a (by rw [heq]; rfl) hid.symm
  exact started_by hj hcr (hsub x hx) (hid ▸ hstart)

theorem started_of_delivered (hj : Recorded Entry.Due log) (ho : Recorded Entry.InOrder log)
    (hcr : Entry.created me origin a ∈ log) (he : e ∈ log) (hd : e.delivers a.id = true) :
    ∃ now row, Entry.started me a.id now row ∈ log := by
  obtain ⟨b, updated, rfl, hid⟩ := Entry.exists_of_delivers hd
  obtain ⟨pre, hpre⟩ := exists_beginning he
  obtain ⟨x, hx, hxid, hfin⟩ := (hj.last hpre).1
  refine started_of_finished hj ho hcr ⟨x, hpre.subset (List.mem_append_left _ hx), hxid.trans hid, hfin⟩

end

/-! ## Where the row of an apply comes from -/

inductive RowSource (h : Hub) (c : Check) : Prop
  | kept (o : Check) (ho : o ∈ h.inst.checks) (hkey : o.key = c.key) (hid : o.applyId = c.applyId)
      (hstatus : o.status = c.status)
  | finished (o : Check) (ho : o ∈ h.inst.checks) (hkey : o.key = c.key) (hid : o.applyId = c.applyId)
      (hrun : o.status = .inProgress) (hdone : c.status = .completed) (hnew : ¬ Newer h.inst.log c.key c.applyId)
  | begun (me : Handle) (origin : Origin) (a : PRApply) (hcr : Entry.created me origin a ∈ h.inst.log)
      (hid : c.applyId = a.id) (hkey : c.key = a.key) (hrun : c.status = .inProgress)
      (hfirst : ∀ id now row, Entry.started me id now row ∉ h.inst.log)

section
variable {cfg : Nat → ServerConfig} {i : Nat} {h : Hub} {b : Books} {c check : Check}

theorem Check.blockRemoved_status (hset : c.Settled) (headSHA : String) :
    (c.blockRemoved headSHA).status = c.status := by
  unfold Check.blockRemoved
  rcases hset with ⟨hrun, -⟩ | ⟨hdone, -⟩
  · rw [hrun]
    rfl
  · rw [hdone]
    rfl

theorem Written.source {w : RowWrite} {entries : List Entry} (hw : Written h w entries) (hs : h.Sound cfg i)
    (hblock : ∀ row stored, Entry.blocked row stored ∈ entries → stored = some row)
    (hrow : w.row = some check) (hres : c = w.result check) (hne : c.applyId ≠ 0)
    (hfrom : (∃ o ∈ h.inst.checks, o.key = c.key ∧ h.inst.matched w o = true) ∨ c ∈ h.inst.inserted w) :
    RowSource h c := by
  subst hres
  cases hw with
  | aggregate hgood hagg hnone =>
    cases hrow
    exact absurd hnone hne
  | complete hgood hof =>
    cases hrow
    rcases hfrom with ⟨o, ho, hk, hm⟩ | hins
    · simp only [Instance.matched, Bool.and_eq_true, decide_eq_true_eq, Bool.not_eq_true'] at hm
      refine .finished o ho hk hm.1.2 hm.1.1.2 rfl fun hnewer => ?_
      rw [← hk] at hnewer
      have hyes := hs.hasNewerApply_iff.2 hnewer
      have hno := hm.2
      exact absurd (hno.symm.trans hyes) (by decide)
    · exact absurd hins List.not_mem_nil
  | @block c headSHA hgood hdb =>
    cases hrow
    have hmem : c ∈ h.inst.checks :=
      List.mem_of_find?_eq_some (hblock c (h.inst.stored c) (List.mem_singleton_self _))
    exact .kept c hmem rfl rfl (Check.blockRemoved_status hgood.settled headSHA).symm
  | delete => cases hrow
  | _ => exact absurd rfl hne

theorem Ledger.source (hl : Ledger cfg i h b) (hs : h.Sound cfg i) (ho : Recorded Entry.InOrder b.log)
    (hc : c ∈ b.checks) (hne : c.applyId ≠ 0) : RowSource h c := by
  have hold : c ∈ h.inst.checks → RowSource h c := fun hmem => .kept c hmem rfl rfl rfl
  cases hl with
  | rows w entries hw =>
    rcases Instance.mem_writtenRows hc with ⟨hmem, -⟩ | ⟨check, hrow, hres, -, hfrom⟩
    · exact hold hmem
    · refine hw.source hs (fun row stored he => ?_) hrow hres hne (hfrom.imp_right And.left)
      obtain ⟨pre, hpre⟩ := exists_beginning (List.mem_append_right h.inst.log he)
      exact ho.last hpre
  | start me origin a check hcr hof hid hstatus hconcl hfirst =>
    rcases Instance.mem_writtenRows hc with ⟨hmem, -⟩ | ⟨check', hrow, rfl, -⟩
    · exact hold hmem
    · cases hrow
      exact .begun me origin a hcr hid (PRApply.isOf_iff.1 hof) hstatus hfirst
  | _ => exact hold hc

end

/-! ## What is left in progress -/

/-- Every result that has come to a row, to a row in progress or one that `S` wants released, has come too
late: there was a newer apply of the row. -/
def Resolved (S : PRApply → Prop) (b : Books) : Prop :=
  ∀ pre a updated, pre ++ [Entry.delivered a updated] <+: b.log → ∀ c ∈ b.checks, c.applyId = a.id →
    (c.status = .inProgress ∨ S a) → Newer pre c.key a.id

section
variable {cfg : Nat → ServerConfig} {i : Nat} {h : Hub} {b : Books} {c : Check} {a : PRApply}
  {S : PRApply → Prop} {updated : Bool}

theorem Newer.mono {log log' : List Entry} {key : String × Nat × String × String × String} {id : Nat}
    (hn : Newer log key id) (hsub : ∀ e ∈ log, e ∈ log') : Newer log' key id := by
  obtain ⟨e, he, hrest⟩ := hn
  exact ⟨e, hsub e he, hrest⟩

theorem Hub.Sound.id_pos (hs : h.Sound cfg i) (htold : h.inst.Told a) : 0 < a.id := by
  obtain ⟨a', ha', hf⟩ := htold.1
  rw [← hf.id_eq]
  exact hs.applyIdsPos a' ha'

theorem Hub.Sound.key_of_owned (hs : h.Sound cfg i) (hc : c ∈ h.inst.checks) (htold : h.inst.Told a)
    (hid : c.applyId = a.id) : c.key = a.key := by
  obtain ⟨a', ha', hf⟩ := htold.1
  have hpos := hs.id_pos htold
  have hne : c.applyId ≠ 0 := by omega
  obtain ⟨⟨x, hx, hxid, hof⟩, -⟩ := (hs.checks c hc).owned hne
  rw [hs.applyIds.eq hx ha' (hxid.trans (hid.trans hf.id_eq.symm))] at hof
  exact (PRApply.isOf_iff.1 hof).trans hf.key_eq

theorem Written.resolves {w : RowWrite} {entries : List Entry} (hw : Written h w entries)
    (hs : h.Sound cfg i) (hrec : ∀ a, Entry.recorded a ∈ h.inst.log → ¬ S a)
    (he : Entry.delivered a updated ∈ entries) (hc : c ∈ h.inst.writtenRows w) (hid : c.applyId = a.id)
    (hleft : c.status = .inProgress ∨ S a) : Newer h.inst.log c.key a.id := by
  have htold : h.inst.Told a := (hw.backed hs he).2
  cases hw with
  | @complete c₀ apply hgood hof hin =>
    simp only [List.mem_singleton] at he
    obtain ⟨rfl, -⟩ := he
    have hrun : c.status = .inProgress := hleft.resolve_right (hrec a hin)
    rcases Instance.mem_writtenRows hc with ⟨hmem, hm⟩ | ⟨check, hrow, rfl, -⟩
    · have hkey : (c₀.finishApply a).sameKey c = true :=
        Check.sameKey_iff.2 ((hs.key_of_owned hmem htold hid).trans (PRApply.isOf_iff.1 hof).symm)
      simp only [Instance.matched, hkey, hrun, hid, decide_true, Bool.and_self, Bool.true_and,
        Bool.not_eq_false'] at hm
      exact hs.hasNewerApply_iff.1 hm
    · cases hrow
      cases hrun
  | @requireAction c₀ apply hgood hof =>
    simp only [List.mem_singleton] at he
    obtain ⟨rfl, -⟩ := he
    rcases Instance.mem_writtenRows hc with ⟨hmem, hm⟩ | ⟨check, hrow, rfl, -⟩
    · have hkey : c₀.requireReapply.sameKey c = true :=
        Check.sameKey_iff.2 ((hs.key_of_owned hmem htold hid).trans (PRApply.isOf_iff.1 hof).symm)
      simp only [Instance.matched, hkey, hid, decide_true, Bool.and_self, Bool.true_and,
        Bool.not_eq_false'] at hm
      exact hs.hasNewerApply_iff.1 hm
    · have hzero : 0 = a.id := hid
      exact absurd (hs.id_pos htold) (by omega)
  | recover | block => simp at he
  | _ => exact absurd he List.not_mem_nil

theorem Ledger.resolves (hl : Ledger cfg i h b) (hs : h.Sound cfg i)
    (hrec : ∀ a, Entry.recorded a ∈ h.inst.log → ¬ S a) (hlog : b.log = h.inst.log ++ [.delivered a updated])
    (hc : c ∈ b.checks) (hid : c.applyId = a.id) (hleft : c.status = .inProgress ∨ S a) :
    Newer h.inst.log c.key a.id := by
  rcases hl.delivered hlog with ⟨w, hw, hrows⟩ | ⟨hrows, -, htold, hnone⟩
  · rw [hrows] at hc
    exact hw.resolves hs hrec (List.mem_singleton_self _) hc hid hleft
  · rw [hrows] at hc
    have hno := hnone c hc
    rw [PRApply.isOf_iff.2 (hs.key_of_owned hc htold hid)] at hno
    cases hno

theorem Resolved.step (hr : Resolved S h.inst.books) (hl : Ledger cfg i h b) (hs : h.Sound cfg i)
    (hj : Recorded Entry.Due h.inst.log) (ho : Recorded Entry.InOrder b.log)
    (hrec : ∀ a, Entry.recorded a ∈ h.inst.log → ¬ S a) : Resolved S b := by
  intro pre a updated hp c hc hid hleft
  have hdue := hl.due hs
  have hcase : pre ++ [Entry.delivered a updated] <+: h.inst.log ∨
      pre = h.inst.log ∧ b.log = h.inst.log ++ [.delivered a updated] := by
    rcases hdue with hlog | ⟨e, hlog, -⟩
    · exact .inl (hlog ▸ hp)
    · rw [hlog, List.prefix_concat_iff] at hp
      rcases hp with heq | hp
      · obtain ⟨rfl, he⟩ := List.append_inj' heq rfl
        exact .inr ⟨rfl, he ▸ hlog⟩
      · exact .inl hp
  rcases hcase with hp | ⟨rfl, hlog⟩
  · have hmem : Entry.delivered a updated ∈ h.inst.log := hp.subset List.mem_concat_self
    have hpos := hs.id_pos (hs.entries _ hmem).2
    have hne : c.applyId ≠ 0 := by omega
    have ho' : Recorded Entry.InOrder h.inst.log := ho.beginning hl.log_grows
    cases hl.source hs ho hc hne with
    | kept o homem hkey hoid hstatus =>
      rw [← hkey]
      exact hr pre a updated hp o homem (hoid.trans hid) (hleft.imp_left (hstatus.trans ·))
    | finished o homem hkey hoid hrun hdone hnew =>
      -- the row was in progress after the earlier result, which a newer apply had kept from it
      have hnewer := hr pre a updated hp o homem (hoid.trans hid) (.inl hrun)
      refine absurd (hnewer.mono fun e he => hp.subset (List.mem_append_left _ he)) ?_
      rw [hkey, ← hid]
      exact hnew
    | begun me origin x hcr hxid hkey hrun hfirst =>
      have hd : (Entry.delivered a updated).delivers x.id = true := decide_eq_true (hid.symm.trans hxid)
      obtain ⟨now, row, hstart⟩ := started_of_delivered hj ho' hcr hmem hd
      exact absurd hstart (hfirst _ _ _)
  · exact hl.resolves hs hrec hlog hc hid hleft

end

theorem resolved_nil {S : PRApply → Prop} : Resolved S {} :=
  fun _ _ _ hp => absurd (List.prefix_nil.1 hp) (by simp)

theorem resolved_after {cfg : Nat → ServerConfig} {actions : List Action} {i : Nat}
    (ho : Recorded Entry.InOrder (logAfter cfg actions i)) :
    Resolved (fun _ => False) ((World.after cfg actions).instances i).books := by
  have hrun := @journal_run cfg (fun _ b => Recorded Entry.InOrder b.log → Resolved (fun _ => False) b)
    (fun _ _ => resolved_nil) (fun i h b hs hl hj ih ho =>
      (ih (ho.beginning hl.log_grows)).step hl hs hj ho fun _ _ hno => hno) actions i
  exact hrun ho

/-! ## Applies one by one -/

section
variable {cfg : Nat → ServerConfig} {i : Nat} {h : Hub} {log pre : List Entry} {c : Check} {a : PRApply}
  {me : Handle} {id : Nat} {now : Option PRApply} {row : Option Check}

theorem Resolved.not_running (hr : Resolved (fun _ => False) h.inst.books) (hs : h.Sound cfg i)
    (hj : Recorded Entry.Due h.inst.log) (hone : Recorded Entry.OneByOne h.inst.log) {updated : Bool}
    (hd : Entry.delivered a updated ∈ h.inst.log) (hc : c ∈ h.inst.checks) (hid : c.applyId = a.id) :
    c.status ≠ .inProgress := by
  intro hrun
  have hpos := hs.id_pos (hs.entries _ hd).2
  obtain ⟨me, origin, x, now, row, hcr, -, hxid, hxkey⟩ := hs.owner hc (by omega)
  have hdel : ∃ e ∈ h.inst.log, e.delivers x.id = true := ⟨_, hd, decide_eq_true (by rw [hxid, hid])⟩
  -- a newer apply was there when the first result came, and so the result had come before
  obtain ⟨pre, e, hp, hfirst, hnone⟩ := exists_first hdel
  obtain ⟨a', updated', rfl, hid'⟩ := Entry.exists_of_delivers hfirst
  obtain ⟨e, he, y, hy, hykey, hlt⟩ := hr pre a' updated' hp c hc (hxid.symm.trans hid'.symm) (.inl hrun)
  obtain ⟨mid, hmid⟩ := exists_beginning he
  have hmid' : mid ++ [e] <+: h.inst.log := hmid.trans ((List.prefix_append _ _).trans hp)
  have hbefore : Entry.created me origin x ∈ mid := creates_before hj hcr hmid' rfl hy (hid' ▸ hlt)
  obtain ⟨d, hdmem, hddel⟩ := hone.last hmid' y hy _ hbefore x rfl (hxkey.trans hykey.symm)
  exact hnone d (hmid.subset (List.mem_append_left _ hdmem)) hddel

theorem start_running (hj : Recorded Entry.Due log) (ho : Recorded Entry.InOrder log)
    (hp : pre ++ [Entry.started me id now row] <+: log) (hnow : now = some a) : a.isFinished = false := by
  refine Bool.eq_false_iff.2 fun hfin => ?_
  have hpre : pre <+: log := (List.prefix_append _ _).trans hp
  obtain ⟨hfirst, hturned, origin, x, hcr, hid, -⟩ := hj.last hp
  subst hid
  obtain ⟨now', row', hstart⟩ :=
    started_of_finished (hj.beginning hpre) (ho.beginning hpre) hcr (hturned a hnow hfin)
  exact hfirst _ _ _ hstart

theorem start_not_older (hj : Recorded Entry.Due log) (ho : Recorded Entry.InOrder log)
    (hone : Recorded Entry.OneByOne log) (hp : pre ++ [Entry.started me id now row] <+: log)
    (hrow : row = some c) : c.applyId ≤ id := by
  by_contra hlt
  have hpre : pre <+: log := (List.prefix_append _ _).trans hp
  obtain ⟨hfirst, -, origin, x, hcr, hid, howned⟩ := hj.last hp
  obtain ⟨me', origin', y, now', row', hcr', -, hyid, hykey⟩ := howned c hrow (by omega)
  obtain ⟨mid, hmid⟩ := exists_beginning hcr'
  have hbefore : Entry.created me origin x ∈ mid :=
    creates_before (hj.beginning hpre) hcr hmid rfl rfl (by omega)
  obtain ⟨d, hd, hdel⟩ := (hone.beginning hpre).last hmid y rfl _ hbefore x rfl hykey.symm
  have hdmem : d ∈ pre := hmid.subset (List.mem_append_left _ hd)
  obtain ⟨now'', row'', hstart⟩ :=
    started_of_delivered (hj.beginning hpre) (ho.beginning hpre) hcr hdmem hdel
  exact hfirst _ _ _ hstart

end

def completedApply : PRApply :=
  { (Sample.plan "plan-2" "staging" "A").newApply 1 1 false with state := .completed }

def overtakenStartRun : List Action :=
  [Sample.push "A", Sample.plans fun _ => [Sample.tableChange],
    Sample.comment .apply { environment := "staging", autoConfirm := true }] ++ Sample.steps 0 30 ++
  [.change 0 (.applyState 1 .completed), .deliver 0 (.applyEnded 1 false)] ++ Sample.steps 1 12 ++
  Sample.steps 0 7

def Superseded (b : Books) : Prop :=
  ∀ c ∈ b.checks, c.applyId ≠ 0 → c.status = .completed → ∀ id, Owner b.log c.key id → id ≤ c.applyId

def FirstResults (log : List Entry) : Prop :=
  Recorded (fun pre e => ∀ a, e = .delivered a true →
    ∀ x updated, Entry.delivered x updated ∈ pre → x.id = a.id → x.state ≠ a.state) log

section
variable {cfg : Nat → ServerConfig} {i : Nat} {h : Hub} {b : Books} {c : Check} {a : PRApply}

theorem Owner.newer {log : List Entry} {key : String × Nat × String × String × String} {id n : Nat}
    (ho : Owner log key id) (hlt : n < id) : Newer log key n := by
  obtain ⟨me, origin, x, now, row, hcr, -, hid, hkey⟩ := ho
  exact ⟨_, hcr, x, rfl, hkey, hid ▸ hlt⟩

theorem Ledger.owner (hl : Ledger cfg i h b) (hs : h.Sound cfg i) (hj : Recorded Entry.Due h.inst.log)
    (hc : c ∈ b.checks) {id : Nat} (ho : Owner b.log c.key id) :
    Owner h.inst.log c.key id ∨ c.status = .inProgress := by
  obtain ⟨me, origin, x, now, row, hcr, hstart, hid, hkey⟩ := ho
  have hjb : Recorded Entry.Due b.log := hj.extend (hl.due hs)
  have hold : Entry.started me id now row ∈ h.inst.log → Owner h.inst.log c.key id := by
    intro hmem
    obtain ⟨pre, hpre⟩ := exists_beginning hmem
    obtain ⟨-, -, origin', y, hcr', hyid, -⟩ := hj.last hpre
    have hcrh : Entry.created me origin' y ∈ h.inst.log := hpre.subset (List.mem_append_left _ hcr')
    have heq := creates_eq hjb hcr (hl.log_grows.subset hcrh) rfl rfl (hid.trans hyid.symm)
    injection heq with _ horigin hxy
    subst horigin hxy
    exact ⟨me, origin, x, now, row, hcrh, hmem, hid, hkey⟩
  have hquiet : ∀ {entries : List Entry}, (∀ e ∈ entries, e.deedOf = none) →
      Entry.started me id now row ∈ h.inst.log ++ entries → Owner h.inst.log c.key id ∨ c.status = .inProgress := by
    intro entries hq hmem
    rcases List.mem_append.1 hmem with hmem | hmem
    · exact .inl (hold hmem)
    · cases hq _ hmem
  cases hl with
  | same => exact .inl (hold hstart)
  | remark e hr =>
    refine hquiet (fun x hx => ?_) hstart
    rw [List.mem_singleton.1 hx]
    exact Entry.deedOf_of_isRemark hr
  | rows w entries hw => exact hquiet hw.quiet hstart
  | start me' origin' a check hcr' hof hid' hstatus =>
    rcases List.mem_append.1 hstart with hmem | hmem
    · exact .inl (hold hmem)
    · have heq := List.mem_singleton.1 hmem
      injection heq with _ hida
      have hxa := creates_eq hjb hcr (List.mem_append_left _ hcr') rfl rfl (hid.trans hida)
      injection hxa with _ _ hxa
      have hck : c.key = check.key := by rw [← hkey, hxa, PRApply.isOf_iff.1 hof]
      rcases Instance.mem_writtenRows hc with ⟨-, hm⟩ | ⟨check', hrow, rfl, -⟩
      · rw [Instance.matched, Check.sameKey_iff.2 hck] at hm
        cases hm
      · cases hrow
        exact .inr hstatus
  | _ =>
    rcases List.mem_append.1 hstart with hmem | hmem
    · exact .inl (hold hmem)
    · cases List.mem_singleton.1 hmem

theorem Superseded.step (hsup : Superseded h.inst.books) (hl : Ledger cfg i h b) (hs : h.Sound cfg i)
    (hj : Recorded Entry.Due h.inst.log) (ho : Recorded Entry.InOrder b.log) : Superseded b := by
  intro c hc hne hdone id howner
  have howner' : Owner h.inst.log c.key id := by
    refine (hl.owner hs hj hc howner).resolve_right fun hrun => ?_
    exact absurd (hrun.symm.trans hdone) (by decide)
  cases hl.source hs ho hc hne with
  | kept o homem hkey hoid hstatus =>
    rw [← hoid]
    exact hsup o homem (hoid ▸ hne) (hstatus.trans hdone) id (hkey ▸ howner')
  | finished o homem hkey hoid hrun _ hnew => exact Nat.le_of_not_lt fun hlt => hnew (howner'.newer hlt)
  | begun me origin x hcr hxid hkey hrun => exact absurd (hrun.symm.trans hdone) (by decide)

theorem Ledger.changed_row (hl : Ledger cfg i h b) (hs : h.Sound cfg i)
    (hlog : b.log = h.inst.log ++ [.delivered a true]) :
    h.inst.Told a ∧ ∃ o ∈ h.inst.checks, o.key = a.key ∧ o.applyId = a.id ∧
      (o.status = .inProgress ∨ a.isRolledBack = true) := by
  rcases hl.delivered hlog with ⟨w, hw, -⟩ | ⟨-, hfalse, -⟩
  · have he : Entry.delivered a true ∈ [Entry.delivered a true] := List.mem_singleton_self _
    obtain ⟨o, ho, -, hkey, hid, -, hrun⟩ := hw.changed_row he
    exact ⟨(hw.backed hs he).2, o, ho, hkey, hid, hrun.imp_right PRApply.isRolledBack_iff.2⟩
  · cases hfalse

theorem Hub.Sound.rollback_eq (hs : h.Sound cfg i) {x : PRApply} (ha : h.inst.Told a) (hx : h.inst.Told x)
    (hid : x.id = a.id) : x.rollback = a.rollback := by
  obtain ⟨y, hy, hfx⟩ := hx.1
  have hfa : y.Follows a := hs.follows ha hy (hfx.id_eq.trans hid)
  have hxy : y.rollback = x.rollback := by rw [hfx.same]
  have hay : y.rollback = a.rollback := by rw [hfa.same]
  exact hxy.symm.trans hay

theorem FirstResults.step (hf : FirstResults h.inst.log) (hl : Ledger cfg i h b) (hs : h.Sound cfg i)
    (hr : Resolved (·.isRolledBack = true) h.inst.books) : FirstResults b.log := by
  rcases hl.due hs with hlog | ⟨e, hlog, hdue⟩
  · rw [hlog]
    exact hf
  · rw [hlog]
    refine recorded_concat.2 ⟨hf, fun a he x updated hx hid hstate => ?_⟩
    subst he
    obtain ⟨htold, o, ho, hkey, hoid, hrun⟩ := hl.changed_row hs hlog
    obtain ⟨pre, hpre⟩ := exists_beginning hx
    have hroll : a.isRolledBack = true → x.isRolledBack = true := by
      have heq := hs.rollback_eq htold (hs.entries _ hx).2 hid
      intro hroll
      obtain ⟨hrollback, hdone⟩ := PRApply.isRolledBack_iff.1 hroll
      exact PRApply.isRolledBack_iff.2 ⟨heq.trans hrollback, hstate.trans hdone⟩
    have hnewer := hr pre x updated hpre o ho (hoid.trans hid.symm) (hrun.imp_right hroll)
    rw [hkey, hid] at hnewer
    exact hdue.2 rfl (hnewer.mono fun e he => hpre.subset (List.mem_append_left _ he))

end

structure Ordered (b : Books) : Prop where
  resolved : Resolved (·.isRolledBack = true) b
  superseded : Superseded b
  first : FirstResults b.log

theorem Ordered.step {cfg : Nat → ServerConfig} {i : Nat} {h : Hub} {b : Books} (hb : Ordered h.inst.books)
    (hl : Ledger cfg i h b) (hs : h.Sound cfg i) (hj : Recorded Entry.Due h.inst.log)
    (ho : Recorded Entry.InOrder b.log) (hu : Unobserved h.inst.log) : Ordered b where
  resolved := hb.resolved.step hl hs hj ho fun a ha hroll => by
    rw [hu.recorded hs ha] at hroll
    cases hroll
  superseded := hb.superseded.step hl hs hj ho
  first := hb.first.step hl hs hb.resolved

theorem ordered_after {cfg : Nat → ServerConfig} {actions : List Action} {i : Nat}
    (ho : Recorded Entry.InOrder (logAfter cfg actions i)) (hu : Unobserved (logAfter cfg actions i)) :
    Ordered ((World.after cfg actions).instances i).books := by
  have hinit : Ordered {} := ⟨resolved_nil, fun _ hc => absurd hc List.not_mem_nil, recorded_nil⟩
  have hrun := @journal_run cfg (fun _ b => Recorded Entry.InOrder b.log → Unobserved b.log → Ordered b)
    (fun _ _ _ => hinit) (fun i h b hs hl hj ih ho hu => by
      have hu' : Unobserved h.inst.log := fun e he => hu e (hl.log_grows.subset he)
      exact (ih (ho.beginning hl.log_grows) hu').step hl hs hj ho hu') actions i
  exact hrun ho hu

/-- Where applies end after they were started, rows are blocked as they are stored, and no observer tells of the
end of a rollback, the results of applies may come late and more than once: a row never shows the result of an
apply that is older than one that has started on it, and a result that has come before changes nothing. -/
theorem results_in_order (cfg : Nat → ServerConfig) (actions : List Action) (i : Nat)
    (ho : Recorded Entry.InOrder (logAfter cfg actions i)) (hu : Unobserved (logAfter cfg actions i)) :
    Superseded ((World.after cfg actions).instances i).books ∧
      Recorded (fun pre e => ∀ a, e = .delivered a true → ∀ id, Owner pre a.key id → id ≤ a.id)
        (logAfter cfg actions i) ∧
      FirstResults (logAfter cfg actions i) := by
  have hb := ordered_after ho hu
  refine ⟨hb.superseded, (journal cfg actions i).mono fun pre e hdue a he id howner => ?_, hb.first⟩
  subst he
  exact Nat.le_of_not_lt fun hlt => hdue.2 rfl (howner.newer hlt)

theorem results_in_order_endedRun : Recorded Entry.InOrder (logAfter Sample.config Sample.endedRun 0) ∧
      Unobserved (logAfter Sample.config Sample.endedRun 0) ∧
      Entry.delivered completedApply true ∈ logAfter Sample.config Sample.endedRun 0 ∧
      FirstResults (logAfter Sample.config Sample.endedRun 0) := by
  have ho : Recorded Entry.InOrder (logAfter Sample.config Sample.endedRun 0) := by decide +kernel
  have hu : Unobserved (logAfter Sample.config Sample.endedRun 0) := by decide +kernel
  exact ⟨ho, hu, by decide +kernel, (results_in_order Sample.config Sample.endedRun 0 ho hu).2.2⟩

def redeliveredRun : List Action :=
  overtakenStartRun ++ [.deliver 0 (.applyEnded 1 false)] ++ Sample.steps 2 4

def staleBlockRun : List Action :=
  Sample.endedRun ++ [Sample.push "B", .deliver 0 (.cleanup "app" 1 "B" [])] ++ Sample.steps 2 2 ++
  [Sample.push "C", Sample.comment .apply { environment := "staging", autoConfirm := true }] ++
  Sample.steps 3 40 ++ Sample.steps 2 1

/-- The row of the older apply comes back after the newer one has started, and a result that comes again
changes its row. -/
theorem results_out_of_order : (logAfter Sample.config staleBlockRun 0).any (·.starts 2) = true ∧
      ({ Sample.row "staging" "A" with applyId := 1, conclusion := .success } : Check).blockRemoved "B" ∈
        ((World.after Sample.config staleBlockRun).instances 0).checks ∧
      Entry.delivered completedApply false ∈ logAfter Sample.config redeliveredRun 0 ∧
      (((World.after Sample.config redeliveredRun).step Sample.config (.advance 2)).instances 0).log =
        logAfter Sample.config redeliveredRun 0 ++ [.delivered completedApply true] := by
  decide +kernel

end SchemaBot.Webhook
