import Mathlib.Data.List.Nodup

/-!
# Tables as lists of rows

The statements of a relational store on one table, as functions on the list of its rows: the guarded
`UPDATE ... WHERE` (`update`, with the number of rows it changed, `affected`), and the ordered
`SELECT ... ORDER BY ... LIMIT 1` (`firstBy`). Rows are identified by a key; `KeysUnique` is the
primary-key constraint and `KeysBelow` the auto-increment counter that keeps it.

The lemmas read a statement row by row: what a row of the new table was in the old one
(`mem_update`), what an update leaves alone (`update_eq_self`), and that the selected row satisfies
the predicate (`firstBy_mem`, `firstBy_pred`).
-/

namespace Table

section
variable {α : Type*} {p : α → Bool} {f : α → α} {t : List α} {r : α}

/-- `UPDATE t SET f WHERE p`. -/
def update (p : α → Bool) (f : α → α) (t : List α) : List α :=
  t.map fun r => if p r then f r else r

theorem mem_update : r ∈ update p f t ↔ ∃ o ∈ t, r = if p o then f o else o := by
  simp only [update, List.mem_map, eq_comm]

theorem mem_update_of_pos (hr : r ∈ t) (hp : p r = true) : f r ∈ update p f t :=
  mem_update.2 ⟨r, hr, by rw [if_pos hp]⟩

theorem mem_update_of_neg (hr : r ∈ t) (hp : p r = false) : r ∈ update p f t :=
  mem_update.2 ⟨r, hr, by rw [if_neg (by simp [hp])]⟩

theorem zip_update : t.zip (update p f t) = t.map fun r => (r, if p r then f r else r) :=
  List.map_prod_left_eq_zip.symm

theorem filter_update {q : α → Bool} (h : ∀ r ∈ t, p r = true → q r = false ∧ q (f r) = false) :
    (update p f t).filter q = t.filter q := by
  induction t with
  | nil => rfl
  | cons r t ih =>
    have hrest := ih fun x hx => h x (.tail _ hx)
    simp only [update] at hrest
    rw [update, List.map_cons, List.filter_cons, List.filter_cons, hrest]
    cases hp : p r with
    | false => simp
    | true =>
      obtain ⟨hq, hqf⟩ := h r (.head _) hp
      simp [hq, hqf]

theorem eq_of_mem_zip_self {r' : α} (h : (r, r') ∈ t.zip t) : r' = r := by
  obtain ⟨i, hi, hri⟩ := List.mem_iff_getElem.1 h
  rw [List.getElem_zip] at hri
  cases hri
  rfl

theorem update_eq_self (h : ∀ r ∈ t, p r = false) : update p f t = t := by
  refine (List.map_congr_left fun r hr => ?_).trans (List.map_id t)
  simp [h r hr]

theorem map_update {β : Type*} (g : α → β) (hg : ∀ r, g (f r) = g r) : (update p f t).map g = t.map g := by
  rw [update, List.map_map]
  refine List.map_congr_left fun r _ => ?_
  by_cases hp : p r = true <;> simp [hp, hg]

variable [DecidableEq α]

/-- The number of rows the statement changes. A row that matches and already holds the new values
is not counted. -/
def affected (p : α → Bool) (f : α → α) (t : List α) : Nat :=
  (t.filter fun r => p r && decide (f r ≠ r)).length

theorem affected_eq_zero : affected p f t = 0 ↔ ∀ r ∈ t, p r = true → f r = r := by
  simp only [affected, List.length_eq_zero_iff, List.filter_eq_nil_iff, Bool.and_eq_true,
    decide_eq_true_eq, not_and, not_not]

theorem affected_eq_zero_of_none (h : ∀ r ∈ t, p r = false) : affected p f t = 0 :=
  affected_eq_zero.2 fun r hr hp => by simp [h r hr] at hp

theorem update_eq_self_of_affected (h : affected p f t = 0) : update p f t = t := by
  refine (List.map_congr_left fun r hr => ?_).trans (List.map_id t)
  split
  · exact affected_eq_zero.1 h r hr ‹_›
  · rfl

theorem exists_of_affected_ne_zero (h : affected p f t ≠ 0) : ∃ r ∈ t, p r = true := by
  by_contra hn
  push Not at hn
  exact h (affected_eq_zero_of_none fun r hr => by simpa using hn r hr)

end

section
variable {α : Type*} {lt : α → α → Bool} {p : α → Bool} {t : List α} {r : α}

/-- The least of two optional rows, the first where they are incomparable. -/
def least (lt : α → α → Bool) (a : α) : Option α → α
  | none => a
  | some b => if lt b a then b else a

/-- `SELECT ... FROM t WHERE p ORDER BY lt LIMIT 1`. -/
def firstBy (lt : α → α → Bool) (p : α → Bool) (t : List α) : Option α :=
  (t.filter p).foldr (fun a acc => some (least lt a acc)) none

theorem least_eq (a : α) (o : Option α) : least lt a o = a ∨ o = some (least lt a o) := by
  cases o with
  | none => exact .inl rfl
  | some b => by_cases h : lt b a = true <;> simp [least, h]

theorem foldr_least_mem (l : List α) (h : l.foldr (fun a acc => some (least lt a acc)) none = some r) : r ∈ l := by
  induction l with
  | nil => simp at h
  | cons a l ih =>
    obtain rfl := Option.some.inj h
    rcases @least_eq _ lt a (l.foldr (fun a acc => some (least lt a acc)) none) with he | he
    · rw [he]; exact .head _
    · exact .tail _ (ih he)

theorem firstBy_mem_filter (h : firstBy lt p t = some r) : r ∈ t.filter p := foldr_least_mem _ h

theorem firstBy_mem (h : firstBy lt p t = some r) : r ∈ t :=
  (List.mem_filter.1 (firstBy_mem_filter h)).1

theorem firstBy_pred (h : firstBy lt p t = some r) : p r = true :=
  (List.mem_filter.1 (firstBy_mem_filter h)).2

theorem firstBy_eq_of_unique (hr : r ∈ t) (hp : p r = true)
    (hu : ∀ x ∈ t, p x = true → x = r) : firstBy lt p t = some r := by
  cases h : firstBy lt p t with
  | some x => rw [hu x (firstBy_mem h) (firstBy_pred h)]
  | none =>
    have hmem : r ∈ t.filter p := List.mem_filter.2 ⟨hr, hp⟩
    rw [firstBy] at h
    cases hl : t.filter p with
    | nil => rw [hl] at hmem; cases hmem
    | cons a l => rw [hl] at h; simp at h

end

section
variable {α β : Type*} {R : α → β → Prop}

theorem forall₂_mem_right {l : List α} {m : List β} (h : List.Forall₂ R l m) {b : β} (hb : b ∈ m) :
    ∃ a ∈ l, R a b := by
  induction h with
  | nil => cases hb
  | cons hab _ ih =>
    cases hb with
    | head => exact ⟨_, .head _, hab⟩
    | tail _ hb => obtain ⟨a, ha, h⟩ := ih hb; exact ⟨a, .tail _ ha, h⟩

theorem forall₂_mem_left {l : List α} {m : List β} (h : List.Forall₂ R l m) {a : α} (ha : a ∈ l) :
    ∃ b ∈ m, R a b := by
  induction h with
  | nil => cases ha
  | cons hab _ ih =>
    cases ha with
    | head => exact ⟨_, .head _, hab⟩
    | tail _ ha => obtain ⟨b, hb, h⟩ := ih ha; exact ⟨b, .tail _ hb, h⟩

theorem any_of_forall₂ {l : List α} {m : List β} {p : α → Bool} {q : β → Bool}
    (h : List.Forall₂ R l m) (hpq : ∀ a b, R a b → p a = true → q b = true) (hp : l.any p = true) :
    m.any q = true := by
  obtain ⟨a, ha, hpa⟩ := List.any_eq_true.1 hp
  obtain ⟨b, hb, hab⟩ := forall₂_mem_left h ha
  exact List.any_eq_true.2 ⟨b, hb, hpq a b hab hpa⟩

theorem forall₂_append_left {l l' : List α} {m : List β} (h : List.Forall₂ R (l ++ l') m) :
    ∃ n n', m = n ++ n' ∧ List.Forall₂ R l n ∧ List.Forall₂ R l' n' := by
  induction l generalizing m with
  | nil => exact ⟨[], m, rfl, .nil, h⟩
  | cons a l ih =>
    cases h with
    | cons hab h =>
      obtain ⟨n, n', rfl, hn, hn'⟩ := ih h
      exact ⟨_ :: n, n', rfl, .cons hab hn, hn'⟩

theorem forall₂_trans {γ : Type*} {S : β → γ → Prop} {T : α → γ → Prop} {l : List α} {m : List β}
    {n : List γ} (h : List.Forall₂ R l m) (h' : List.Forall₂ S m n)
    (hT : ∀ a b c, R a b → S b c → T a c) : List.Forall₂ T l n := by
  induction h generalizing n with
  | nil => cases h'; exact .nil
  | cons hab _ ih =>
    cases h' with
    | cons hbc h' => exact .cons (hT _ _ _ hab hbc) (ih h')

end

section
variable {α : Type*} {R R' : α → α → Prop} {new new' : α → Prop} {t t' t'' : List α} {r r' : α}

theorem forall₂_update {p : α → Bool} {f : α → α} (hf : ∀ r ∈ t, p r = true → R r (f r))
    (hR : ∀ r ∈ t, p r = false → R r r) : List.Forall₂ R t (update p f t) := by
  rw [Table.update, List.forall₂_map_right_iff, List.forall₂_same]
  intro r hr
  split
  · exact hf r hr ‹_›
  · exact hR r hr (Bool.eq_false_iff.2 ‹_›)

/-- Where the rows that may change are the `P`-rows, an update keeps to them exactly when every row that it
selects and changes is one. -/
theorem forall₂_update_frame {p : α → Bool} {f : α → α} {P : α → Prop} :
    List.Forall₂ (fun r r' => r' = r ∨ P r) t (update p f t) ↔
      ∀ r ∈ t, p r = true → f r = r ∨ P r := by
  rw [update, List.forall₂_map_right_iff, List.forall₂_same]
  refine forall₂_congr fun r _ => ?_
  by_cases hp : p r = true <;> simp [hp]

/-- The table kept its rows, each changed within `R`, and got only `new` rows after them. -/
def Grows (R : α → α → Prop) (new : α → Prop) (t t' : List α) : Prop :=
  ∃ u v, t' = u ++ v ∧ List.Forall₂ R t u ∧ ∀ r ∈ v, new r

theorem Grows.refl (hR : ∀ r, R r r) : Grows R new t t :=
  ⟨t, [], by simp, List.forall₂_same.2 fun r _ => hR r, nofun⟩

theorem Grows.of_forall₂ (h : List.Forall₂ R t t') : Grows R new t t' :=
  ⟨t', [], (List.append_nil _).symm, h, fun _ hr => absurd hr List.not_mem_nil⟩

theorem Grows.append (hR : ∀ r, R r r) {v : List α} (h : ∀ r ∈ v, new r) : Grows R new t (t ++ v) :=
  ⟨t, v, rfl, List.forall₂_same.2 fun r _ => hR r, h⟩

theorem Grows.update {p : α → Bool} {f : α → α} (hR : ∀ r, R r r)
    (hf : ∀ r ∈ t, p r = true → R r (f r)) : Grows R new t (update p f t) :=
  ⟨Table.update p f t, [], by simp, forall₂_update hf fun r _ _ => hR r, nofun⟩

theorem Grows.trans (h : Grows R new t t') (h' : Grows R' new' t' t'')
    (hR : ∀ a b c, R a b → R' b c → R a c) (hnew : ∀ a b, new a → R' a b → new b)
    (hnew' : ∀ a, new' a → new a) : Grows R new t t'' := by
  obtain ⟨u, v, rfl, hu, hv⟩ := h
  obtain ⟨u', v', rfl, hu', hv'⟩ := h'
  obtain ⟨w, x, rfl, hw, hx⟩ := forall₂_append_left hu'
  refine ⟨w, x ++ v', by simp, forall₂_trans hu hw hR, ?_⟩
  · intro r hr
    rcases List.mem_append.1 hr with hr | hr
    · obtain ⟨a, ha, hab⟩ := forall₂_mem_right hx hr
      exact hnew _ _ (hv a ha) hab
    · exact hnew' r (hv' r hr)

theorem Grows.origin (h : Grows R new t t') (hr : r' ∈ t') : (∃ r ∈ t, R r r') ∨ new r' := by
  obtain ⟨u, v, rfl, hu, hv⟩ := h
  rcases List.mem_append.1 hr with hr | hr
  · exact .inl (forall₂_mem_right hu hr)
  · exact .inr (hv r' hr)

theorem Grows.persists (h : Grows R new t t') (hr : r ∈ t) : ∃ r' ∈ t', R r r' := by
  obtain ⟨u, v, rfl, hu, -⟩ := h
  obtain ⟨r', hr', hR⟩ := forall₂_mem_left hu hr
  exact ⟨r', List.mem_append_left _ hr', hR⟩

theorem Grows.zip (h : Grows R new t t') : ∀ p ∈ t.zip t', R p.1 p.2 := by
  obtain ⟨u, v, rfl, hu, -⟩ := h
  obtain ⟨hlen, hR⟩ := List.forall₂_iff_zip.1 hu
  rw [← List.append_nil t, List.zip_append hlen]
  intro p hp
  exact hR (by simpa using hp)

end

section
variable {α : Type*} {key : α → Nat} {t : List α} {a b : α} {n : Nat}

/-- The primary-key constraint. -/
def KeysUnique (key : α → Nat) (t : List α) : Prop := (t.map key).Nodup

/-- Every key was drawn from a counter that now stands at `n`. -/
def KeysBelow (key : α → Nat) (n : Nat) (t : List α) : Prop := ∀ r ∈ t, key r < n

theorem KeysUnique.eq (h : KeysUnique key t) (ha : a ∈ t) (hb : b ∈ t) (hk : key a = key b) :
    a = b := List.inj_on_of_nodup_map h ha hb hk

theorem KeysUnique.append (h : KeysUnique key t) (hb : KeysBelow key n t)
    (ha : key a = n) : KeysUnique key (t ++ [a]) := by
  rw [KeysUnique, List.map_append, List.map_singleton]
  refine List.Nodup.append h (List.nodup_singleton _) ?_
  rw [List.disjoint_singleton]
  intro hm
  obtain ⟨r, hr, hk⟩ := List.mem_map.1 hm
  have := hb r hr
  omega

theorem KeysBelow.append (hb : KeysBelow key n t) (ha : key a = n) : KeysBelow key (n + 1) (t ++ [a]) := by
  intro r hr
  rcases List.mem_append.1 hr with hr | hr
  · exact Nat.lt_succ_of_lt (hb r hr)
  · rw [List.mem_singleton.1 hr, ha]; exact Nat.lt_succ_self n

/-- Two rows with one nonzero mark have one key. -/
def MarksUnique (key mark : α → Nat) (t : List α) : Prop :=
  ∀ r ∈ t, ∀ r' ∈ t, mark r = mark r' → mark r = 0 ∨ key r = key r'

theorem KeysBelow.mono {n m : Nat} (hb : KeysBelow key n t) (h : n ≤ m) : KeysBelow key m t :=
  fun r hr => Nat.lt_of_lt_of_le (hb r hr) h

variable {p : α → Bool} {f : α → α}

theorem KeysUnique.update (h : KeysUnique key t) (hf : ∀ r, key (f r) = key r) :
    KeysUnique key (update p f t) := by rw [KeysUnique, map_update key hf]; exact h

theorem KeysBelow.update (hb : KeysBelow key n t)
    (hf : ∀ r ∈ t, p r = true → key (f r) < n) : KeysBelow key n (update p f t) := by
  intro r hr
  obtain ⟨o, ho, rfl⟩ := mem_update.1 hr
  split
  · exact hf o ho ‹_›
  · exact hb o ho

theorem KeysBelow.update_key (hb : KeysBelow key n t) (hf : ∀ r, key (f r) = key r) :
    KeysBelow key n (Table.update p f t) :=
  hb.update fun r hr _ => Nat.lt_of_le_of_lt (Nat.le_of_eq (hf r)) (hb r hr)

theorem MarksUnique.update {mark : α → Nat} {n k : Nat} (hm : MarksUnique key mark t)
    (hb : KeysBelow mark n t) (hk : ∀ r, key (f r) = key r)
    (hf : ∀ r ∈ t, p r = true → mark (f r) = mark r ∨ key r = k ∧ n ≤ mark (f r)) :
    MarksUnique key mark (update p f t) := by
  have hrow : ∀ r ∈ Table.update p f t,
      ∃ o ∈ t, key r = key o ∧ (mark r = mark o ∨ key o = k ∧ n ≤ mark r) := by
    intro r hr
    obtain ⟨o, ho, rfl⟩ := mem_update.1 hr
    split
    · exact ⟨o, ho, hk o, hf o ho ‹_›⟩
    · exact ⟨o, ho, rfl, .inl rfl⟩
  intro r hr r' hr' he
  obtain ⟨o, ho, hko, h⟩ := hrow r hr
  obtain ⟨o', ho', hko', h'⟩ := hrow r' hr'
  have := hb o ho
  have := hb o' ho'
  rcases h with h | ⟨hkey, h⟩ <;> rcases h' with h' | ⟨hkey', h'⟩
  · rw [hko, hko', h]
    exact hm o ho o' ho' (by omega)
  · omega
  · omega
  · exact .inr (by omega)

theorem MarksUnique.append {mark : α → Nat} (hm : MarksUnique key mark t) (ha : mark a = 0) :
    MarksUnique key mark (t ++ [a]) := by
  intro r hr r' hr' he
  rcases List.mem_append.1 hr with hr | hr <;> rcases List.mem_append.1 hr' with hr' | hr'
  · exact hm r hr r' hr' he
  · rw [List.mem_singleton.1 hr', ha] at he; exact .inl he
  all_goals rw [List.mem_singleton.1 hr]; exact .inl ha

end

end Table
