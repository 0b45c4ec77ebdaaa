import SchemaBot.Lib.Reports
import SchemaBot.Webhook.Journal
import SchemaBot.Webhook.Watch

/-!
# Rows whose schema change has left the pull request

When a database leaves a pull request after an apply of it has started, cleanup blocks its row.
-/

namespace SchemaBot.Webhook

open Concurrent History

/-! ## Steps that leave blocked rows blocked -/

def Check.resultRow (c : Check) (apply : PRApply) : Check :=
  { c.finishApply apply with applyId := apply.id, basis := apply.headSHA }

def Entry.result : Entry → Option PRApply
  | .delivered apply true => some apply
  | _ => none

def Entry.frees (row : Check) : Entry → Bool
  | .started _ id now _ => id ≠ row.applyId && now.any (·.key = row.key)
  | .recovered check => check.key = row.key
  | _ => false

def newEntries (s s' : Instance) : List Entry := s'.log.drop s.log.length

def Event.cleans : Event → Bool
  | .cleanup .. => true
  | _ => false

def Watch.cleans (v : Watch) : Action → Bool
  | .advance n => (v.events[n]?).any (·.2.cleans)
  | _ => false

/-- What a step does to the row of a block: the result that it brings to a blocked row is that of an apply, no
completed rollback, and computed from the row as it is stored; the plan result that it stores is not that of a
plan without changes; and the cleanup does not come to it once it is the row of a plan. -/
@[mk_iff]
structure Check.Steady (c : Check) (s s' : Instance) (cleaning : Bool) : Prop where
  results : c.blockedByRemovedSchemaAfterApply = true → ∀ apply ∈ (newEntries s s').filterMap Entry.result,
    ∀ c' ∈ s'.checks, c'.key = c.key → c' = c ∨ c' = c.resultRow apply
  plans : cleaning = false → newEntries s s' = [] → ∀ c' ∈ s'.checks, c'.key = c.key →
    c' = c ∨ c'.isPlanOnlySuccessful = false
  cleanups : cleaning = true → newEntries s s' = [] → c.applyId = 0 → ∀ c' ∈ s'.checks, c'.key = c.key → c' = c

instance {c : Check} {s s' : Instance} {cleaning : Bool} : Decidable (c.Steady s s' cleaning) :=
  have : DecidablePred fun apply => ∀ c' ∈ s'.checks, c'.key = c.key → c' = c ∨ c' = c.resultRow apply :=
    fun _ => inferInstance
  have : Decidable (∀ c' ∈ s'.checks, c'.key = c.key → c' = c ∨ c'.isPlanOnlySuccessful = false) := inferInstance
  have : Decidable (∀ c' ∈ s'.checks, c'.key = c.key → c' = c) := inferInstance
  decidable_of_iff' _ (Check.steady_iff ..)

def Watch.Steady (cfg : Nat → ServerConfig) (i : Nat) (row : Check) (v : Watch) (a : Action) : Prop :=
  ∀ c ∈ (v.world.instances i).checks, c.key = row.key →
    c.Steady (v.world.instances i) ((v.world.step cfg a).instances i) (v.cleans a)

instance {cfg : Nat → ServerConfig} {i : Nat} {row : Check} {v : Watch} {a : Action} :
    Decidable (v.Steady cfg i row a) :=
  inferInstanceAs (Decidable (∀ c ∈ _, _ → _))

/-! ## Cleanup -/

def KeepsOwned (h h' : Hub) : Prop :=
  h'.inst.log = h.inst.log → ∀ c ∈ h.inst.checks, c.applyId ≠ 0 → c.isAggregate = false → c ∈ h'.inst.checks

section
variable {cfg : ServerConfig} {cached : Option String} {repo headSHA : String} {pr : Nat} {affected : List String}
  {check : Check}

theorem keepsOwned_refl (h : Hub) : KeepsOwned h h := fun _ _ hc _ _ => hc

theorem Instance.mem_writtenRows_of_unmatched {s : Instance} {w : RowWrite} {c : Check} (hc : c ∈ s.checks)
    (hkept : Instance.kept w c = true) (hm : s.matched w c = false) : c ∈ s.writtenRows w :=
  List.mem_append_left _ (Table.mem_update_of_neg (List.mem_filter.2 ⟨hc, hkept⟩) hm)

theorem keepsOwned_fetchPullRequest : Method.Only KeepsOwned (fetchPullRequest cached repo pr) := by
  cases cached with
  | some headSHA => exact .pure _
  | none => exact .read keepsOwned_refl _

theorem keepsOwned_verifyHead : Method.Only KeepsOwned (verifyHeadSHAStillCurrentForPR cached repo pr headSHA) := by
  unfold verifyHeadSHAStillCurrentForPR
  split
  · exact .pure _
  refine .bind keepsOwned_fetchPullRequest fun current => ?_
  cases current with
  | error e | ok current => exact .pure _

theorem keepsOwned_outside {α : Type} {f : Hub → Hub × α} (hf : ∀ h, (f h).1.inst = h.inst) :
    Method.Only KeepsOwned (Method.write f : Handling α) :=
  .step fun h => fun _ _ hc _ _ => (hf h) ▸ hc

theorem keepsOwned_publishCheckRun {existing : Option Check} {name basis : String} {status : CheckStatus}
    {conclusion : Conclusion} {made : Made} : Method.Only KeepsOwned
      (publishCheckRun cfg repo headSHA existing name status conclusion basis made) := by
  have hcreate : Method.Only KeepsOwned
      (createCheckRun cfg repo headSHA name status conclusion basis made) :=
    keepsOwned_outside fun h => by split <;> rfl
  unfold publishCheckRun
  cases existing with
  | none => exact hcreate
  | some e =>
    dsimp only
    split
    · exact keepsOwned_outside fun h => by split <;> rfl
    · exact hcreate

theorem keepsOwned_checksUpsert (hagg : check.isAggregate = true) :
    Method.Only KeepsOwned (checksUpsert check) := by
  refine .discard (.step fun h => fun _ c hc _ hdb => ?_)
  refine Instance.mem_writtenRows_of_unmatched hc rfl (Bool.eq_false_iff.2 fun hm => ?_)
  rw [Check.isAggregate_congr (Check.sameKey_iff.1 hm), hagg] at hdb
  cases hdb

theorem keepsOwned_upsertAggregateCheckRun {dbChecks : List Check} {checkName environment : String} :
    Method.Only KeepsOwned
      (upsertAggregateCheckRun cfg repo pr headSHA dbChecks checkName environment) := by
  refine .bind (keepsOwned_outside fun _ => rfl) fun _ => ?_
  refine .bind (.read keepsOwned_refl _) fun existing => .bind keepsOwned_publishCheckRun fun run => ?_
  cases run with
  | none => exact .pure _
  | some checkRunId => exact keepsOwned_checksUpsert rfl

theorem keepsOwned_updateAggregateCheck :
    Method.Only KeepsOwned (updateAggregateCheck cfg cached repo pr headSHA) := by
  unfold updateAggregateCheck
  split
  · refine .bind keepsOwned_verifyHead fun current => ?_
    split
    · refine .bind (keepsOwned_outside fun _ => rfl) fun checks => ?_
      dsimp only
      split
      · exact .pure _
      split
      · exact keepsOwned_upsertAggregateCheckRun
      · refine .forM fun environment => ?_
        split
        · exact .pure _
        · exact keepsOwned_upsertAggregateCheckRun
    · exact .pure _
  · exact .pure _

theorem keepsOwned_markStale : Method.Only KeepsOwned (markStalePlanOnlyCheckStateSuccessful headSHA check) := by
  refine .bind (.bind (.step fun h => fun _ c hc hne _ => ?_) fun marked => ?_) fun r => ?_
  · refine Instance.mem_writtenRows_of_unmatched hc rfl (Bool.eq_false_iff.2 fun hm => ?_)
    simp only [Instance.matched, Bool.and_eq_true, decide_eq_true_eq] at hm
    exact hne hm.2
  · split
    · exact .pure _
    · refine .bind (.read keepsOwned_refl _) fun current => ?_
      cases current with
      | none | some current => exact .pure _
  · cases r with
    | ok marked | error e => exact .pure _

theorem keepsOwned_cleanupChecks {checks : List Check} {cleaned : Bool} :
    Method.Only KeepsOwned (cleanupChecks headSHA affected checks cleaned) := by
  induction checks generalizing cleaned with
  | nil => exact .pure _
  | cons check rest ih =>
    unfold cleanupChecks
    split
    · exact ih
    split
    · refine .bind (.bind (.discard (.step fun h => fun hlog => ?_)) fun _ => .pure _) fun _ => ih
      -- the block leaves an entry
      exact absurd hlog (by simp [Instance.writeChecks])
    · exact .bind keepsOwned_markStale fun _ => ih

theorem keepsOwned_cleanupStaleChecks :
    Method.Only KeepsOwned (cleanupStaleChecks cfg repo pr headSHA affected) := by
  refine .bind keepsOwned_verifyHead fun current => ?_
  split
  · refine .bind (keepsOwned_outside fun _ => rfl) fun checks => .bind keepsOwned_cleanupChecks fun cleaned => ?_
    split
    · exact keepsOwned_updateAggregateCheck
    · exact .pure _
  · exact .pure _

end

/-! ## One step -/

structure Check.Stuck (row c : Check) : Prop where
  key : c.key = row.key
  blocked : c.blockedByRemovedSchemaAfterApply = true
  owned : c.applyId ≠ 0
  unsuccessful : c.conclusion ≠ .success

structure Check.Loose (row c : Check) : Prop where
  key : c.key = row.key
  unowned : c.applyId = 0
  completed : c.status = .completed
  unsuccessful : c.conclusion ≠ .success

inductive Check.Barred (row c : Check) : Prop
  | stuck (hc : row.Stuck c)
  | loose (hc : row.Loose c)

section
variable {cfg : Nat → ServerConfig} {i : Nat} {h : Hub} {b : Books} {row c : Check} {apply : PRApply}
  {check : Check} {s : Instance} {w : RowWrite}

theorem Check.Barred.key (hc : row.Barred c) : c.key = row.key := by
  cases hc with
  | stuck hc | loose hc => exact hc.key

theorem Check.Barred.unsuccessful (hc : row.Barred c) : c.conclusion ≠ .success := by
  cases hc with
  | stuck hc | loose hc => exact hc.unsuccessful

theorem PlanRow.loose (hp : PlanRow h check) (hkey : check.key = row.key) {basis : String}
    (hplan : ({ check with applyId := 0, basis := basis } : Check).isPlanOnlySuccessful = false) :
    row.Loose { check with applyId := 0, basis := basis } where
  key := hkey
  unowned := rfl
  completed := hp.completed
  unsuccessful := by
    intro hsucc
    have hpass : ({ check with applyId := 0, basis := basis } : Check).isPlanOnlySuccessful = true := by
      simp only [Check.isPlanOnlySuccessful, hp.completed, hp.unchanged hsucc, decide_true, Bool.not_false,
        Bool.and_true, Bool.true_and, decide_eq_true_eq]
      exact hsucc
    rw [hpass] at hplan
    cases hplan

theorem Check.Stuck.blockRemoved (hne : c.applyId ≠ 0) (hkey : c.key = row.key) (headSHA : String) :
    row.Stuck (c.blockRemoved headSHA) where
  key := hkey
  blocked := by simp [Check.blockedByRemovedSchemaAfterApply, Check.blockRemoved]
  owned := hne
  unsuccessful := Check.blockRemoved_conclusion headSHA

theorem Check.Stuck.resultRow (hc : row.Stuck c) (hid : apply.id ≠ 0) : row.Stuck (c.resultRow apply) := by
  have hconcl : apply.conclusion c ≠ .success := by
    unfold PRApply.conclusion
    rw [hc.blocked]
    split
    · exact fun hs => by cases hs
    · exact fun hs => by cases hs
  refine ⟨hc.key, ?_, hid, hconcl⟩
  have hreason : (c.resultRow apply).blockingReason = c.blockingReason := if_neg hconcl
  unfold Check.blockedByRemovedSchemaAfterApply
  rw [hreason]
  exact hc.blocked

def Lasts (row : Check) (log : List Entry) (b : Books) : Prop :=
  (∃ c ∈ b.checks, row.Barred c) ∨ (∀ c ∈ b.checks, c.key ≠ row.key) ∨
    ∃ e, b.log = log ++ [e] ∧ e.frees row = true

theorem Lasts.of_mem (hc : row.Barred c) (hmem : c ∈ b.checks) (log : List Entry) : Lasts row log b :=
  .inl ⟨c, hmem, hc⟩

theorem Instance.assign_mem (hc : c ∈ s.checks) (hkept : Instance.kept w c = true)
    (hm : s.matched w c = true) : w.assign c ∈ s.writtenRows w :=
  List.mem_append_left _ (Table.mem_update_of_pos (List.mem_filter.2 ⟨hc, hkept⟩) hm)

theorem Instance.changesRows_of_ne (hc : c ∈ s.checks) (hm : s.matched w c = true)
    (hne : c.sameColumns (w.assign c) = false) : s.changesRows w = true := by
  refine Bool.or_eq_true_iff.2 (.inl (List.any_eq_true.2 ⟨c, hc, ?_⟩))
  rw [hm, hne]
  rfl

theorem Lasts.of_result (hstuck : row.Stuck c) (hc : c ∈ h.inst.checks)
    (hm : h.inst.matched w c = true) (hkept : Instance.kept w c = true)
    (hne : c.sameColumns (w.assign c) = false) (hid : apply.id ≠ 0)
    (hlog : b.log = h.inst.log ++ [.delivered apply (h.inst.changesRows w)])
    (hrows : b.checks = h.inst.writtenRows w) (hres : b.log = h.inst.log ++ [.delivered apply true] →
      ∀ c' ∈ b.checks, c'.key = c.key → c' = c ∨ c' = c.resultRow apply) : Lasts row h.inst.log b := by
  rw [Instance.changesRows_of_ne hc hm hne] at hlog
  have hmem : w.assign c ∈ b.checks := by
    rw [hrows]
    exact Instance.assign_mem hc hkept hm
  rcases hres hlog _ hmem (w.assign_key) with heq | heq
  · exact .of_mem (.stuck hstuck) (heq ▸ hmem) _
  · exact .of_mem (.stuck (hstuck.resultRow hid)) (heq ▸ hmem) _

theorem Hub.Sound.apply_key (hs : h.Sound cfg i) {me : Handle} {origin : Origin} {a : PRApply}
    (ha : Entry.created me origin a ∈ h.inst.log) : ((h.inst.apply a.id).any fun now => now.key = a.key) = true := by
  obtain ⟨a', ha', hf⟩ := hs.knows ha rfl
  cases hfind : h.inst.apply a.id with
  | none => exact absurd (decide_eq_true hf.id_eq) (List.find?_eq_none.1 hfind a' ha')
  | some now =>
    have hid : now.id = a.id := of_decide_eq_true (List.find?_some (p := fun a' : PRApply => a'.id = a.id) hfind)
    have heq : now = a' := hs.applyIds.eq (List.mem_of_find?_eq_some hfind) ha' (hid.trans hf.id_eq.symm)
    exact decide_eq_true (heq ▸ hf.key_eq)

theorem Instance.mem_upserted (check : Check) : check ∈ s.writtenRows (.upsert check) := by
  cases hany : s.checks.any check.sameKey with
  | true =>
    obtain ⟨c, hc, hm⟩ := List.any_eq_true.1 hany
    have hmem := Instance.assign_mem (w := .upsert check) hc rfl hm
    rw [RowWrite.assign_eq rfl (Check.sameKey_iff.1 hm)] at hmem
    exact hmem
  | false =>
    refine List.mem_append_right _ ?_
    simp only [Instance.inserted, hany]
    exact List.mem_singleton_self _

theorem PlanRow.lasts (hp : PlanRow h check) (hbar : row.Barred c)
    (hc : c ∈ h.inst.checks) (hrow : w.row = some check) (hid : w.applyId = 0) (hkeep : Instance.kept w c = true)
    (hrows : b.checks = h.inst.writtenRows w)
    (hplan : ∀ c' ∈ b.checks, c'.key = c.key → c' = c ∨ c'.isPlanOnlySuccessful = false) :
    Lasts row h.inst.log b := by
  cases hm : h.inst.matched w c with
  | false =>
    refine .of_mem hbar ?_ _
    rw [hrows]
    exact Instance.mem_writtenRows_of_unmatched hc hkeep hm
  | true =>
    have hkey : c.key = check.key := by
      obtain ⟨check', hrow', hkey⟩ := h.inst.matched_row hm
      cases hrow.symm.trans hrow'
      exact hkey
    have hassign : w.assign c = { check with applyId := 0, basis := w.basis } := by
      rw [RowWrite.assign_eq hrow hkey, RowWrite.result, hid]
    have hmem : w.assign c ∈ b.checks := by
      rw [hrows]
      exact Instance.assign_mem hc hkeep hm
    rcases hplan _ hmem w.assign_key with heq | hchanged
    · exact .of_mem hbar (heq ▸ hmem) _
    · rw [hassign] at hmem hchanged
      exact .of_mem (.loose (hp.loose (hkey.symm.trans hbar.key) hchanged)) hmem _

theorem Written.lasts {entries : List Entry} (hw : Written h w entries) (hs : h.Sound cfg i)
    (hdb : row.isAggregate = false) (hbar : row.Barred c) (hc : c ∈ h.inst.checks)
    (hrows : b.checks = h.inst.writtenRows w) (hlog : b.log = h.inst.log ++ entries)
    (hres : c.blockedByRemovedSchemaAfterApply = true → ∀ apply, b.log = h.inst.log ++ [.delivered apply true] →
      ∀ c' ∈ b.checks, c'.key = c.key → c' = c ∨ c' = c.resultRow apply)
    (hplan : b.log = h.inst.log → ∀ c' ∈ b.checks, c'.key = c.key → c' = c ∨ c'.isPlanOnlySuccessful = false) :
    Lasts row h.inst.log b := by
  have hkept : Instance.kept w c = true → h.inst.matched w c = false → Lasts row h.inst.log b := by
    intro hkept hm
    refine .of_mem hbar ?_ _
    rw [hrows]
    exact Instance.mem_writtenRows_of_unmatched hc hkept hm
  have hkey : ∀ {check : Check}, check.sameKey c = true → check.key = row.key := fun hm =>
    (Check.sameKey_iff.1 hm).symm.trans hbar.key
  have hsilent : entries = [] → b.log = h.inst.log := by
    intro hnone
    rw [hlog, hnone, List.append_nil]
  cases hw with
  | aggregate hgood hagg =>
    refine hkept rfl (Bool.eq_false_iff.2 fun hm => ?_)
    rw [← Check.isAggregate_congr (hkey hm), hagg] at hdb
    cases hdb
  | insertPlan => exact hkept rfl rfl
  | updatePlan hp | markStale hp => exact hp.lasts hbar hc rfl rfl rfl hrows (hplan (hsilent rfl))
  | @recover check =>
    cases hm : h.inst.matched (.recover check) c with
    | false => exact hkept rfl hm
    | true =>
      simp only [Instance.matched, Bool.and_eq_true] at hm
      exact .inr (.inr ⟨_, hlog, decide_eq_true (hkey hm.1.1)⟩)
  | @complete o apply =>
    cases hm : h.inst.matched (.complete (o.finishApply apply) apply) c with
    | false => exact hkept rfl hm
    | true =>
      have hmatch := hm
      simp only [Instance.matched, Bool.and_eq_true, decide_eq_true_eq] at hmatch
      have hrun : c.status = .inProgress := hmatch.1.1.2
      cases hbar with
      | loose hloose =>
        rw [hloose.completed] at hrun
        cases hrun
      | stuck hstuck =>
        -- the row runs, and the result has ended it
        have hne : c.sameColumns ((RowWrite.complete (o.finishApply apply) apply).assign c) = false := by
          refine decide_eq_false fun heq => ?_
          have hdone : c.status = .completed := congrArg Check.status heq
          rw [hrun] at hdone
          cases hdone
        have hid : apply.id ≠ 0 := hmatch.1.2 ▸ hstuck.owned
        exact .of_result hstuck hc hm rfl hne hid hlog hrows (hres hstuck.blocked apply)
  | @requireAction o apply hgood hof htold =>
    cases hm : h.inst.matched (.requireAction o.requireReapply apply) c with
    | false => exact hkept rfl hm
    | true =>
      have hmatch := hm
      simp only [Instance.matched, Bool.and_eq_true, decide_eq_true_eq] at hmatch
      obtain ⟨a, ha, hf⟩ := htold.1
      have hid : apply.id ≠ 0 := hf.id_eq ▸ Nat.ne_of_gt (hs.applyIdsPos a ha)
      cases hbar with
      | loose hloose => exact absurd (hmatch.1.2.symm.trans hloose.unowned) hid
      | stuck hstuck =>
        -- the row would belong to no apply
        have hne : c.sameColumns ((RowWrite.requireAction o.requireReapply apply).assign c) = false := by
          refine decide_eq_false fun heq => ?_
          exact hstuck.owned (congrArg Check.applyId heq)
        exact .of_result hstuck hc hm rfl hne hid hlog hrows (hres hstuck.blocked apply)
  | delete repo pr =>
    cases hkeep : Instance.kept (.delete repo pr) c with
    | true => exact hkept hkeep rfl
    | false =>
      refine .inr (.inl fun c' hc' hk => ?_)
      rw [hrows] at hc'
      rcases List.mem_append.1 hc' with hc' | hc'
      · obtain ⟨o, ho, hsame⟩ := Table.mem_update.1 hc'
        have hsame : c' = o := hsame
        rw [hsame] at hk
        obtain ⟨hmem, hkeep'⟩ := List.mem_filter.1 ho
        have heq : o = c := Instance.eq_of_key hs.keys hmem hc (hk.trans hbar.key.symm)
        rw [heq, hkeep] at hkeep'
        cases hkeep'
      · exact absurd hc' List.not_mem_nil
  | @block o headSHA hgood _ howned =>
    cases hm : h.inst.matched (.upsert (o.blockRemoved headSHA)) c with
    | false => exact hkept rfl hm
    | true =>
      refine .of_mem (.stuck (.blockRemoved howned (hkey hm) headSHA)) ?_ _
      rw [hrows]
      exact Instance.mem_upserted _

theorem Ledger.lasts (hl : Ledger cfg i h b) (hs : h.Sound cfg i) (hj : Recorded Entry.Due b.log)
    (hdb : row.isAggregate = false) (hbar : row.Barred c) (hc : c ∈ h.inst.checks) {me₀ : Handle}
    {now₀ : Option PRApply} {row₀ : Option Check} (hold : Entry.started me₀ row.applyId now₀ row₀ ∈ h.inst.log)
    (hres : c.blockedByRemovedSchemaAfterApply = true → ∀ apply, b.log = h.inst.log ++ [.delivered apply true] →
      ∀ c' ∈ b.checks, c'.key = c.key → c' = c ∨ c' = c.resultRow apply)
    (hplan : b.log = h.inst.log → ∀ c' ∈ b.checks, c'.key = c.key → c' = c ∨ c'.isPlanOnlySuccessful = false) :
    Lasts row h.inst.log b := by
  cases hl with
  | rows w entries hw => exact hw.lasts hs hdb hbar hc rfl rfl hres hplan
  | start me origin a check ha hof hid =>
    by_cases hk : check.key = row.key
    · have hnew : a.id ≠ row.applyId := fun heq => started_once hj List.prefix_rfl (heq ▸ hold)
      refine .inr (.inr ⟨_, rfl, ?_⟩)
      have hkey : a.key = row.key := (PRApply.isOf_iff.1 hof).symm.trans hk
      have hnow := hs.apply_key ha
      rw [hkey] at hnow
      simp only [Entry.frees, hnow, Bool.and_true, decide_eq_true_eq]
      exact hnew
    · refine .of_mem hbar (Instance.mem_writtenRows_of_unmatched hc rfl (Bool.eq_false_iff.2 fun hm => ?_)) _
      exact hk ((Check.sameKey_iff.1 hm).symm.trans hbar.key)
  | _ => exact .of_mem hbar hc _

theorem Ledger.stuck_of_block (hl : Ledger cfg i h b) {stored : Option Check}
    (hlog : b.log = h.inst.log ++ [.blocked row stored]) : (∃ c ∈ b.checks, row.Stuck c) ∧ row.isAggregate = false ∧
      ∃ me now row₀, Entry.started me row.applyId now row₀ ∈ h.inst.log := by
  cases hl with
  | same => exact absurd (congrArg List.length hlog) (by simp [Instance.books])
  | remark e hr =>
    cases (List.append_cancel_left hlog)
    cases hr
  | rows w entries hw =>
    cases (List.append_cancel_left hlog)
    cases hw with
    | block headSHA hgood hdb howned =>
      exact ⟨⟨_, Instance.mem_upserted _, .blockRemoved howned rfl headSHA⟩, hdb, (hgood.owned howned).2⟩
  | _ => cases (List.append_cancel_left hlog)

end

/-! ## Runs -/

def Event.KeepsOwned (event : Event) (p : Prog Hub (Except Reply Unit)) : Prop :=
  event.cleans = true → Prog.Ensures (fun _ => True) Webhook.KeepsOwned (fun _ => True) p

structure Watch.Regular (cfg : Nat → ServerConfig) (i : Nat) (v : Watch) : Prop where
  world : v.world.Sound cfg
  journal : Recorded Entry.Due (v.world.instances i).log
  cleanups : v.Follows fun _ => Event.KeepsOwned

section
variable {cfg : Nat → ServerConfig} {i : Nat} {v : Watch} {a : Action} {row : Check}

theorem Event.keepsOwned_program (event : Event) (cfg : ServerConfig) (handling : Handle) :
    event.KeepsOwned (event.program cfg handling).run := by
  intro hclean
  cases event with
  | cleanup repo pr headSHA affected => exact keepsOwned_cleanupStaleChecks
  | _ => cases hclean

theorem Event.KeepsOwned.next {event : Event} {p : Prog Hub (Except Reply Unit)} (hp : event.KeepsOwned p)
    (h : Hub) : event.KeepsOwned (p.next h).2 :=
  fun hclean => ((hp hclean).next keepsOwned_refl trivial).2.2

theorem Watch.Regular.step (hv : v.Regular cfg i) (a : Action) : (v.step cfg a).Regular cfg i where
  world := hv.world.step a
  journal := hv.journal.extend ((hv.world.ledger a i).due (hv.world.hubs i))
  cleanups := hv.cleanups.step (fun _ event _ => event.keepsOwned_program _ _) (fun _ _ _ h hp => hp.next h) a

theorem Watch.regular_after (actions : List Action) : (Watch.after cfg actions).Regular cfg i :=
  Transition.run_invariant (fun _ a hv => hv.step a)
    ⟨World.sound_init cfg, recorded_nil, rfl, fun _ _ _ he => by cases he⟩

theorem Watch.Regular.keepsOwned (hv : v.Regular cfg i) (hclean : v.cleans a = true) :
    KeepsOwned (v.world.hub i) ((v.world.step cfg a).hub i) := by
  cases a with
  | deliver j event | change j c => cases hclean
  | advance n =>
    obtain ⟨⟨j, event⟩, he, hevent⟩ := (Option.any_eq_true _ _).1 hclean
    obtain ⟨p, hp, hkeeps⟩ := hv.cleanups.rest n j event he
    have hmove : KeepsOwned (v.world.hub j) (p.next (v.world.hub j)).1 :=
      ((hkeeps hevent).next keepsOwned_refl trivial).1
    simp only [World.step, hp]
    show KeepsOwned (v.world.hub i) ((v.world.put j (p.next (v.world.hub j)).1).hub i)
    by_cases hij : i = j
    · subst hij
      rw [World.hub_put_self]
      exact hmove
    · rw [World.hub_put_of_ne hij]
      exact keepsOwned_refl _

theorem newEntries_eq {s s' : Instance} {entries : List Entry} (h : s'.log = s.log ++ entries) :
    newEntries s s' = entries := by
  unfold newEntries
  rw [h, List.drop_left]

theorem Watch.Regular.log_run (actions : List Action) : ∀ {v : Watch}, v.Regular cfg i →
    ∃ entries, ((Transition.run (Watch.step cfg) v actions).world.instances i).log =
      (v.world.instances i).log ++ entries := by
  induction actions with
  | nil => exact fun _ => ⟨[], (List.append_nil _).symm⟩
  | cons a rest ih =>
    intro v hv
    obtain ⟨grown, hgrown⟩ := (hv.world.ledger a i).log_grows
    obtain ⟨entries, hlog⟩ := ih (hv.step a)
    refine ⟨grown ++ entries, ?_⟩
    rw [← List.append_assoc]
    exact hlog.trans (congrArg (· ++ entries) hgrown.symm)

def Watch.Holds (i : Nat) (row : Check) (v : Watch) : Prop :=
  (∃ c ∈ (v.world.instances i).checks, row.Barred c) ∧
    ∃ me now row₀, Entry.started me row.applyId now row₀ ∈ (v.world.instances i).log

theorem Watch.Regular.lasts (hv : v.Regular cfg i) (hsteady : v.Steady cfg i row a)
    (hdb : row.isAggregate = false) (hholds : v.Holds i row) :
    Lasts row (v.world.instances i).log ((v.world.step cfg a).instances i).books := by
  obtain ⟨⟨c, hc, hbar⟩, me, now, row₀, hstart⟩ := hholds
  have hst := hsteady c hc hbar.key
  refine (hv.world.ledger a i).lasts (hv.world.hubs i) (hv.step a).journal hdb hbar hc hstart ?_ ?_
  · intro hblocked apply hlog c' hc' hkey
    have hnew : newEntries (v.world.instances i) ((v.world.step cfg a).instances i) = [.delivered apply true] :=
      newEntries_eq hlog
    refine hst.results hblocked apply ?_ c' hc' hkey
    rw [hnew]
    exact List.mem_singleton_self _
  · intro hlog c' hc' hkey
    have hnone : newEntries (v.world.instances i) ((v.world.step cfg a).instances i) = [] :=
      newEntries_eq (hlog.trans (List.append_nil _).symm)
    cases hclean : v.cleans a with
    | false => exact hst.plans hclean hnone c' hc' hkey
    | true =>
      by_cases howned : c.applyId = 0
      · exact .inl (hst.cleanups hclean hnone howned c' hc' hkey)
      · have hne : c.isAggregate = false := (Check.isAggregate_congr hbar.key).trans hdb
        have hmem := hv.keepsOwned hclean hlog c hc howned hne
        exact .inl (Instance.eq_of_key ((hv.step a).world.hubs i).keys hc' hmem hkey)

theorem Watch.Regular.holds_run (hdb : row.isAggregate = false) (actions : List Action) :
    ∀ {v : Watch}, v.Regular cfg i → v.Holds i row → Transition.Along (Watch.step cfg) (Watch.Steady cfg i row) v actions →
      (Transition.run (Watch.step cfg) v actions).Holds i row ∨
        (∃ entries, ((Transition.run (Watch.step cfg) v actions).world.instances i).log =
          (v.world.instances i).log ++ entries ∧ ∃ e ∈ entries, e.frees row = true) ∨
        ∃ mid, mid <+: actions ∧
          ∀ c ∈ ((Transition.run (Watch.step cfg) v mid).world.instances i).checks, c.key ≠ row.key := by
  induction actions with
  | nil => exact fun _ hholds _ => .inl hholds
  | cons a rest ih =>
    intro v hv hholds hsteady
    obtain ⟨grown, hgrown⟩ := (hv.world.ledger a i).log_grows
    rcases hv.lasts hsteady.1 hdb hholds with hbar | hgone | ⟨e, hlog, hfrees⟩
    · obtain ⟨me, now, row₀, hstart⟩ := hholds.2
      have hholds' : (v.step cfg a).Holds i row :=
        ⟨hbar, me, now, row₀, hgrown.subst (motive := fun l => _ ∈ l) (List.mem_append_left _ hstart)⟩
      rcases ih (hv.step a) hholds' hsteady.2 with hholds | ⟨entries, hlog, e, he, hfrees⟩ | ⟨mid, hmid, hgone⟩
      · exact .inl hholds
      · refine .inr (.inl ⟨grown ++ entries, ?_, e, List.mem_append_right _ he, hfrees⟩)
        rw [← List.append_assoc]
        exact hlog.trans (congrArg (· ++ entries) hgrown.symm)
      · exact .inr (.inr ⟨a :: mid, (List.prefix_cons_inj a).2 hmid, hgone⟩)
    · exact .inr (.inr ⟨[a], (List.prefix_cons_inj a).2 List.nil_prefix, hgone⟩)
    · -- what comes after keeps the entry
      obtain ⟨later, hlater⟩ := (hv.step a).log_run rest
      refine .inr (.inl ⟨e :: later, ?_, e, List.mem_cons_self, hfrees⟩)
      rw [List.append_cons]
      exact hlater.trans (congrArg (· ++ later) hlog)

theorem Watch.world_run (actions : List Action) : ∀ {v : Watch},
    (Transition.run (Watch.step cfg) v actions).world = Transition.run (World.step cfg) v.world actions := by
  induction actions with
  | nil => exact rfl
  | cons a rest ih => exact ih

end

def Sample.runningRow : Check :=
  { Sample.row "staging" "A" with applyId := 1, hasChanges := true, status := .inProgress, conclusion := .none }

def removedRun : List Action :=
  Sample.startedRun ++ [Sample.push "B", .deliver 0 (.cleanup "app" 1 "B" [])] ++ Sample.steps 1 2

def endedAfterRemoval : List Action :=
  Sample.steps 1 6 ++ [.change 0 (.applyState 1 .completed), .deliver 0 (.applyEnded 1 false)] ++ Sample.steps 2 12

def restoredRun : List Action :=
  endedAfterRemoval ++
    [Sample.push "C", Sample.comment .apply { environment := "staging", autoConfirm := true }] ++
    Sample.steps 3 40 ++ [.change 0 (.applyState 2 .completed), .deliver 0 (.applyEnded 2 false)] ++ Sample.steps 4 12

def crossedResult : List Action :=
  Sample.startedRun ++
    [Sample.push "B", .deliver 0 (.cleanup "app" 1 "B" []), .change 0 (.applyState 1 .completed),
      .deliver 0 (.applyEnded 1 false)] ++ Sample.steps 1 2 ++ Sample.steps 2 2

def removedAgain : List Action :=
  endedAfterRemoval ++ [Sample.push "C", .deliver 0 (.autoPlan "app" 1 "users")] ++ Sample.steps 3 40 ++
    [Sample.push "D", .deliver 0 (.cleanup "app" 1 "D" [])] ++ Sample.steps 4 10

def Sample.stagingRow (actions : List Action) : Option Check :=
  ((World.after Sample.config actions).instances 0).stored Sample.runningRow

def Sample.LosesBlock (before after : List Action) : Prop :=
  logAfter Sample.config (before ++ [.advance 1]) 0 =
      logAfter Sample.config before 0 ++ [.blocked Sample.runningRow (some Sample.runningRow)] ∧
    (Sample.stagingRow (before ++ [.advance 1] ++ after)).any (·.conclusion = .success) = true ∧
    (∀ n < after.length, (Sample.stagingRow (before ++ [.advance 1] ++ after.take n)).isSome = true) ∧
    (logAfter Sample.config (before ++ [.advance 1] ++ after) 0).all
      (fun e => !e.frees Sample.runningRow) = true

end SchemaBot.Webhook
