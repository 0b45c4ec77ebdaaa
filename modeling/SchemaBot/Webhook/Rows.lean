import SchemaBot.Webhook.Checks

/-!
# What a statement does to the rows of `checks`

Every statement on `checks` sets all columns that are not part of the key, so a row that it writes is the row with
its values, whatever was there: `RowWrite.result`.
-/

namespace SchemaBot.Webhook

def Check.key (c : Check) : String × Nat × String × String × String :=
  (c.repository, c.pullRequest, c.environment, c.databaseType, c.databaseName)

def RowWrite.result (w : RowWrite) (check : Check) : Check :=
  { check with applyId := w.applyId, basis := w.basis }

section
variable {c c' check : Check} {a : PRApply}

theorem Check.isFor_iff {repo environment dbType database : String} {pr : Nat} :
    c.isFor repo pr environment dbType database = true ↔ c.key = (repo, pr, environment, dbType, database) := by
  unfold Check.isFor Check.key
  simp only [Bool.and_eq_true, decide_eq_true_eq, Prod.mk.injEq, and_assoc]

theorem Check.sameKey_iff : check.sameKey c = true ↔ c.key = check.key := Check.isFor_iff

def PRApply.key (a : PRApply) : String × Nat × String × String × String :=
  (a.repository, a.pullRequest, a.environment, a.databaseType, a.database)

theorem PRApply.isOf_iff : a.isOf c = true ↔ c.key = a.key := Check.isFor_iff

theorem Check.isAggregate_congr (hk : c.key = c'.key) : c.isAggregate = c'.isAggregate := by
  simp only [Check.key, Prod.mk.injEq] at hk
  unfold Check.isAggregate
  rw [hk.2.2.2.1, hk.2.2.2.2]

@[simp] theorem RowWrite.assign_key (w : RowWrite) : (w.assign c).key = c.key := by
  unfold RowWrite.assign
  split <;> rfl

theorem RowWrite.assign_eq {w : RowWrite} (hw : w.row = some check) (hk : c.key = check.key) :
    w.assign c = w.result check := by
  simp only [Check.key, Prod.mk.injEq] at hk
  unfold RowWrite.assign
  rw [hw]
  unfold Check.assign RowWrite.result
  rw [hk.1, hk.2.1, hk.2.2.1, hk.2.2.2.1, hk.2.2.2.2]

end

section
variable {s : Instance} {w : RowWrite} {c : Check}

theorem Instance.matched_row (hm : s.matched w c = true) : ∃ check, w.row = some check ∧ c.key = check.key := by
  cases w with
  | insertPlan check | delete repo pr => cases hm
  | upsert check => exact ⟨check, rfl, Check.sameKey_iff.1 hm⟩
  | updatePlan check =>
    simp only [matched, Bool.and_eq_true] at hm
    exact ⟨check, rfl, Check.sameKey_iff.1 hm.1⟩
  | recover check | markStale check =>
    simp only [matched, Bool.and_eq_true] at hm
    exact ⟨check, rfl, Check.sameKey_iff.1 hm.1.1⟩
  | complete check apply =>
    simp only [matched, Bool.and_eq_true] at hm
    exact ⟨check, rfl, Check.sameKey_iff.1 hm.1.1.1⟩
  | requireAction check apply =>
    simp only [matched, Bool.and_eq_true] at hm
    exact ⟨check, rfl, Check.sameKey_iff.1 hm.1.1⟩

theorem Instance.inserted_row (hc : c ∈ s.inserted w) :
    (∃ check, w.row = some check ∧ c = w.result check ∧ c.key = check.key) ∧
      ∀ o ∈ s.checks, o.key ≠ c.key := by
  have hfree : ∀ check : Check, ¬ s.checks.any check.sameKey = true → ∀ o ∈ s.checks, o.key ≠ check.key :=
    fun check hnone o ho hk => hnone (List.any_eq_true.2 ⟨o, ho, Check.sameKey_iff.2 hk⟩)
  cases w with
  | upsert check | insertPlan check =>
    simp only [inserted] at hc
    split at hc
    · exact absurd hc List.not_mem_nil
    · next hnone =>
      rw [List.mem_singleton.1 hc]
      exact ⟨⟨check, rfl, rfl, rfl⟩, hfree check hnone⟩
  | _ => exact absurd hc List.not_mem_nil

/-- Where a row of the new table comes from: it was there and did not match, or it has the values of the
statement, over a row that matched or in place of none. -/
theorem Instance.mem_writtenRows (hc : c ∈ s.writtenRows w) : (c ∈ s.checks ∧ s.matched w c = false) ∨
      ∃ check, w.row = some check ∧ c = w.result check ∧ c.key = check.key ∧
        ((∃ o ∈ s.checks, o.key = c.key ∧ s.matched w o = true) ∨
          c ∈ s.inserted w ∧ ∀ o ∈ s.checks, o.key ≠ c.key) := by
  rcases List.mem_append.1 hc with hc | hc
  · obtain ⟨o, ho, rfl⟩ := Table.mem_update.1 hc
    have hold := List.mem_of_mem_filter ho
    split
    · next hm =>
      obtain ⟨check, hw, hk⟩ := s.matched_row hm
      refine .inr ⟨check, hw, RowWrite.assign_eq hw hk, (w.assign_key).trans hk, .inl ⟨o, hold, ?_, hm⟩⟩
      exact (w.assign_key).symm
    · next hm => exact .inl ⟨hold, Bool.eq_false_iff.2 hm⟩
  · obtain ⟨⟨check, hw, hres, hk⟩, hfree⟩ := s.inserted_row hc
    exact .inr ⟨check, hw, hres, hk, .inr ⟨hc, hfree⟩⟩

section
variable (hs : (s.checks.map Check.key).Nodup)
include hs

theorem Instance.keys_writtenRows : ((s.writtenRows w).map Check.key).Nodup := by
  unfold writtenRows
  rw [List.map_append, Table.map_update Check.key fun r => w.assign_key]
  have hkept : ((s.checks.filter (kept w)).map Check.key).Nodup :=
    hs.sublist (List.Sublist.map _ (List.filter_sublist))
  refine List.nodup_append.2 ⟨hkept, ?_, fun k hk k' hk' => ?_⟩
  · cases w with
    | upsert check | insertPlan check =>
      simp only [inserted]
      split <;> simp
    | _ => exact List.nodup_nil
  · obtain ⟨o, ho, rfl⟩ := List.mem_map.1 hk
    obtain ⟨o', ho', rfl⟩ := List.mem_map.1 hk'
    exact (s.inserted_row ho').2 o (List.mem_of_mem_filter ho)

theorem Instance.eq_of_key {c c' : Check} (hc : c ∈ s.checks)
    (hc' : c' ∈ s.checks) (hk : c.key = c'.key) : c = c' := List.inj_on_of_nodup_map hs hc hc' hk

theorem Instance.written_over {c c' : Check} (hc : c ∈ s.checks)
    (hc' : c' ∈ s.writtenRows w) (hk : c'.key = c.key) : (c' = c ∧ s.matched w c = false) ∨
      ∃ check, w.row = some check ∧ c' = w.result check ∧ s.matched w c = true := by
  rcases Instance.mem_writtenRows hc' with ⟨hold, hm⟩ | ⟨check, hrow, hres, -, ⟨o, ho, hok, hm⟩ | ⟨-, hfree⟩⟩
  · have heq := Instance.eq_of_key hs hold hc hk
    rw [heq] at hm
    exact .inl ⟨heq, hm⟩
  · rw [Instance.eq_of_key hs ho hc (hok.trans hk)] at hm
    exact .inr ⟨check, hrow, hres, hm⟩
  · exact absurd hk.symm (hfree c hc)

end

theorem Instance.exists_of_changesRows (hc : s.changesRows w = true) :
    (∃ o ∈ s.checks, s.matched w o = true) ∨ s.inserted w ≠ [] := by
  rcases Bool.or_eq_true_iff.1 hc with hc | hc
  · obtain ⟨o, ho, hm⟩ := List.any_eq_true.1 hc
    exact .inl ⟨o, ho, (Bool.and_eq_true_iff.1 hm).1⟩
  · refine .inr fun hnil => ?_
    rw [hnil] at hc
    cases hc

end

end SchemaBot.Webhook
