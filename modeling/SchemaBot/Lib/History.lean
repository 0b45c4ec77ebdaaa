import Mathlib.Data.List.Induction
import SchemaBot.Lib.Run

/-!
# Histories

A history is a list of entries that only grows at its end. `Recorded P log` says that every entry of `log`
meets `P` together with the entries before it; it is what a log knows of the order in which things have
happened. `recorded_concat` is the rule of one more entry.
-/

namespace History

variable {ε : Type*} {P Q : List ε → ε → Prop} {log log' : List ε} {e : ε}

/-- The history with one more entry. -/
def enter (log : List ε) (e : ε) : List ε := log ++ [e]

/-- Every entry meets `P` with what was there before it. -/
def Recorded (P : List ε → ε → Prop) (log : List ε) : Prop := Transition.Along enter P [] log

instance [∀ l e, Decidable (P l e)] : Decidable (Recorded P log) :=
  inferInstanceAs (Decidable (Transition.Along enter P [] log))

theorem recorded_nil : Recorded P [] := trivial

theorem along_append {start : List ε} : Transition.Along enter P start (log ++ log') ↔
      Transition.Along enter P start log ∧ Transition.Along enter P (start ++ log) log' := by
  induction log generalizing start with
  | nil => simp
  | cons x log ih =>
    rw [List.cons_append, Transition.along_cons, ih, Transition.along_cons, and_assoc, enter,
      List.append_assoc, List.singleton_append]

theorem recorded_concat : Recorded P (log ++ [e]) ↔ Recorded P log ∧ P log e := by
  unfold Recorded
  rw [along_append]
  exact ⟨fun h => ⟨h.1, h.2.1⟩, fun h => ⟨h.1, h.2, trivial⟩⟩

theorem Recorded.beginning (h : Recorded P log') (hp : log <+: log') : Recorded P log := by
  obtain ⟨rest, rfl⟩ := hp
  exact (along_append.1 h).1

theorem Recorded.extend (h : Recorded P log) (hext : log' = log ∨ ∃ e, log' = log ++ [e] ∧ P log e) :
    Recorded P log' := by
  rcases hext with rfl | ⟨e, rfl, he⟩
  · exact h
  · exact recorded_concat.2 ⟨h, he⟩

theorem Recorded.last {pre : List ε} (h : Recorded P log) (hp : pre ++ [e] <+: log) : P pre e :=
  (recorded_concat.1 (h.beginning hp)).2

theorem recorded_iff : Recorded P log ↔ ∀ pre e, pre ++ [e] <+: log → P pre e := by
  refine ⟨fun h pre e hp => h.last hp, fun h => ?_⟩
  induction log using List.reverseRecOn with
  | nil => exact recorded_nil
  | append_singleton log e ih =>
    refine recorded_concat.2 ⟨ih fun pre x hp => h pre x (hp.trans (List.prefix_append _ _)), ?_⟩
    exact h log e List.prefix_rfl

theorem Recorded.mono (h : Recorded P log) (hPQ : ∀ pre e, P pre e → Q pre e) : Recorded Q log :=
  recorded_iff.2 fun pre e hp => hPQ pre e (h.last hp)

theorem exists_beginning (he : e ∈ log) : ∃ pre, pre ++ [e] <+: log := by
  obtain ⟨pre, post, rfl⟩ := List.append_of_mem he
  exact ⟨pre, post, by simp⟩

theorem before_or_after {x y : ε} (hx : x ∈ log) (hy : y ∈ log) :
    x = y ∨ (∃ pre, pre ++ [y] <+: log ∧ x ∈ pre) ∨ ∃ pre, pre ++ [x] <+: log ∧ y ∈ pre := by
  obtain ⟨pre, post, rfl⟩ := List.append_of_mem hy
  rcases List.mem_append.1 hx with hx | hx
  · exact .inr (.inl ⟨pre, ⟨post, by simp⟩, hx⟩)
  rcases List.mem_cons.1 hx with rfl | hx
  · exact .inl rfl
  · obtain ⟨mid, post, rfl⟩ := List.append_of_mem hx
    exact .inr (.inr ⟨pre ++ y :: mid, ⟨post, by simp⟩, by simp⟩)

theorem beginning_cases {x : ε} {pre pre' : List ε} (he : pre ++ [e] <+: log) (hx : pre' ++ [x] <+: log) :
    e = x ∨ x ∈ pre ∨ pre ++ [e] <+: pre' := by
  rcases List.prefix_or_prefix_of_prefix he hx with h | h
  · rcases List.prefix_concat_iff.1 h with heq | h
    · exact .inl (List.append_inj_right' heq rfl |> List.singleton_inj.1)
    · exact .inr (.inr h)
  · rcases List.prefix_concat_iff.1 h with heq | h
    · exact .inl (List.append_inj_right' heq rfl |> List.singleton_inj.1).symm
    · exact .inr (.inl (h.subset (List.mem_append_right _ (List.mem_singleton_self x))))

theorem exists_first {p : ε → Prop} (h : ∃ e ∈ log, p e) :
    ∃ pre e, pre ++ [e] <+: log ∧ p e ∧ ∀ x ∈ pre, ¬ p x := by
  induction log using List.reverseRecOn with
  | nil => simp at h
  | append_singleton log e ih =>
    by_cases hlog : ∃ x ∈ log, p x
    · obtain ⟨pre, x, hpre, hrest⟩ := ih hlog
      exact ⟨pre, x, hpre.trans (List.prefix_append _ _), hrest⟩
    · obtain ⟨x, hx, hpx⟩ := h
      have hxe : x = e := by
        rcases List.mem_append.1 hx with hx | hx
        · exact absurd ⟨x, hx, hpx⟩ hlog
        · exact List.mem_singleton.1 hx
      exact ⟨log, e, List.prefix_rfl, hxe ▸ hpx, fun y hy hpy => hlog ⟨y, hy, hpy⟩⟩

theorem Recorded.countP_le_one {p : ε → Bool} (h : Recorded P log)
    (hp : ∀ pre e x, pre ++ [e] <+: log → P pre e → p e = true → x ∈ pre → p x = false) : log.countP p ≤ 1 := by
  induction log using List.reverseRecOn with
  | nil => exact Nat.zero_le _
  | append_singleton log e ih =>
    obtain ⟨hlog, he⟩ := recorded_concat.1 h
    have hcount := ih hlog fun pre x y hpre => hp pre x y (hpre.trans (List.prefix_append _ _))
    rw [List.countP_append, List.countP_singleton]
    split
    · next hpe =>
      have hnone : log.countP p = 0 :=
        List.countP_eq_zero.2 fun x hx => by simp [hp log e x List.prefix_rfl he hpe hx]
      exact Nat.le_of_eq (by rw [hnone])
    · exact hcount

-- the rules above are all that is used of it
attribute [irreducible] Recorded

end History
