import Mathlib.Data.List.Infix
import Mathlib.Data.List.TakeWhile

/-!
# Words of a text

`tokens p s` are the words of a text, the longest pieces without white space, each with the white space that
follows it. `word_induction` takes a text apart into white space and words, and `tokens_word` says what that does to
its tokens. A piece of a text without white space lies inside one word (`exists_word_of_piece`).
-/

namespace Words

variable {α : Type} {p : α → Bool}

/-- A word with the white space after it. -/
structure Token (α : Type) where
  word : List α
  gap : List α
  deriving DecidableEq

/-- The tokens with one more element at the first word. -/
def extend (c : α) : List (Token α) → List (Token α)
  | [] => []
  | t :: ts => { t with word := c :: t.word } :: ts

/-- The words of a text, with the white space between them. -/
def tokens (p : α → Bool) : List α → List (Token α)
  | [] => []
  | c :: s =>
    if p c then tokens p s
    else
      match s.head? with
      | none => [⟨[c], []⟩]
      | some d => if p d then ⟨[c], s.takeWhile p⟩ :: tokens p s else extend c (tokens p s)

/-- The words of a text. -/
def words (p : α → Bool) (s : List α) : List (List α) := (tokens p s).map (·.word)

/-- No white space. -/
def Spaceless (p : α → Bool) (w : List α) : Prop := ∀ c ∈ w, p c = false

instance (w : List α) : Decidable (Spaceless p w) := inferInstanceAs (Decidable (∀ c ∈ w, p c = false))

/-- Nothing, or white space first. -/
def Parted (p : α → Bool) (s : List α) : Prop := ∀ c ∈ s.head?, p c = true

theorem Parted.cons {c : α} {s : List α} (h : p c = true) : Parted p (c :: s) := by
  intro d hd
  obtain rfl := Option.some_inj.1 hd
  exact h

theorem Parted.takeWhile {q : α → Bool} {s : List α} (h : Parted p s) (hq : ∀ c, p c = true → q c = false) :
    s.takeWhile q = [] := by
  cases s with
  | nil => rfl
  | cons c s => exact List.takeWhile_cons_of_neg (Bool.eq_false_iff.1 (hq c (h c rfl)))

theorem Spaceless.not_mem {w : List α} {c : α} (h : Spaceless p w) (hc : p c = true) : c ∉ w :=
  fun hmem => Bool.eq_false_iff.1 (h c hmem) hc

theorem exists_word_append (s : List α) : ∃ w t, s = w ++ t ∧ Spaceless p w ∧ Parted p t := by
  refine ⟨s.takeWhile fun c => !p c, s.dropWhile fun c => !p c, List.takeWhile_append_dropWhile.symm,
    fun c hc => ?_, fun c hc => ?_⟩
  · simpa using List.mem_takeWhile_imp hc
  · have hnot := List.head?_dropWhile_not (fun d => !p d) s
    rw [Option.mem_def.1 hc] at hnot
    simpa using hnot

theorem word_induction {P : List α → Prop} (nil : P []) (space : ∀ c s, p c = true → P s → P (c :: s))
    (word : ∀ w s, w ≠ [] → Spaceless p w → Parted p s → P s → P (w ++ s)) (s : List α) : P s := by
  induction hn : s.length using Nat.strong_induction_on generalizing s with
  | _ n ih =>
    cases s with
    | nil => exact nil
    | cons c s =>
      cases hc : p c with
      | true =>
        refine space c s hc (ih s.length ?_ s rfl)
        rw [← hn, List.length_cons]
        omega
      | false =>
        obtain ⟨w, t, rfl, hw, ht⟩ := exists_word_append s
        have hcw : Spaceless p (c :: w) := fun d hd => (List.mem_cons.1 hd).elim (fun h => h ▸ hc) (hw d)
        refine word (c :: w) t nofun hcw ht (ih t.length ?_ t rfl)
        rw [← hn, List.length_cons, List.length_append]
        omega

theorem tokens_space {c : α} (h : p c = true) (s : List α) : tokens p (c :: s) = tokens p s := by
  rw [tokens, if_pos h]

theorem tokens_spaces {g : List α} (h : ∀ c ∈ g, p c = true) (s : List α) : tokens p (g ++ s) = tokens p s := by
  induction g with
  | nil => rfl
  | cons c g ih =>
    rw [List.cons_append, tokens_space (h c List.mem_cons_self), ih fun d hd => h d (List.mem_cons_of_mem _ hd)]

theorem tokens_word {w s : List α} (hne : w ≠ []) (hw : Spaceless p w) (hs : Parted p s) :
    tokens p (w ++ s) = ⟨w, s.takeWhile p⟩ :: tokens p s := by
  induction w with
  | nil => exact absurd rfl hne
  | cons c w ih =>
    have hc : ¬ p c = true := Bool.eq_false_iff.1 (hw c List.mem_cons_self)
    rw [List.cons_append, tokens, if_neg hc]
    cases w with
    | nil =>
      cases s with
      | nil => rfl
      | cons d s => simp [hs d rfl]
    | cons d w =>
      have hd : p d = false := hw d (List.mem_cons_of_mem _ List.mem_cons_self)
      rw [ih nofun fun e he => hw e (List.mem_cons_of_mem _ he)]
      simp [hd, extend]

theorem words_space {c : α} (h : p c = true) (s : List α) : words p (c :: s) = words p s := by
  unfold words
  rw [tokens_space h]

theorem words_word {w s : List α} (hne : w ≠ []) (hw : Spaceless p w) (hs : Parted p s) :
    words p (w ++ s) = w :: words p s := by
  unfold words
  rw [tokens_word hne hw hs]
  rfl

theorem dropWhile_of_words {s w : List α} {ws : List (List α)} (h : words p s = w :: ws) :
    w ≠ [] ∧ Spaceless p w ∧ ∃ rest, s.dropWhile p = w ++ rest ∧ Parted p rest := by
  induction s using word_induction with
  | nil => cases h
  | space c s hc ih =>
    rw [words_space hc] at h
    rw [List.dropWhile_cons_of_pos hc]
    exact ih h
  | word v s hne hv hs _ =>
    rw [words_word hne hv hs] at h
    obtain ⟨rfl, -⟩ := List.cons.inj h
    refine ⟨hne, hv, s, ?_, hs⟩
    obtain ⟨c, w, rfl⟩ := List.exists_cons_of_ne_nil hne
    rw [List.cons_append, List.dropWhile_cons_of_neg (Bool.eq_false_iff.1 (hv c List.mem_cons_self))]

theorem dropWhile_of_words_nil {s : List α} (h : words p s = []) : s.dropWhile p = [] := by
  induction s using word_induction with
  | nil => rfl
  | space c s hc ih =>
    rw [words_space hc] at h
    rw [List.dropWhile_cons_of_pos hc, ih h]
  | word v s hne hv hs _ =>
    rw [words_word hne hv hs] at h
    cases h

theorem exists_word_of_piece (pre post : List α) {u : List α} (hne : u ≠ []) (hu : Spaceless p u) :
    ∃ a, a ++ u ++ post.takeWhile (fun c => !p c) ∈ words p (pre ++ u ++ post) := by
  generalize hs : pre ++ u ++ post = s
  induction s using word_induction generalizing pre with
  | nil =>
    obtain ⟨hpre, -⟩ := List.append_eq_nil_iff.1 hs
    exact absurd (List.append_eq_nil_iff.1 hpre).2 hne
  | space c s hc ih =>
    rw [words_space hc]
    cases pre with
    | nil =>
      obtain ⟨d, u, rfl⟩ := List.exists_cons_of_ne_nil hne
      obtain ⟨rfl, -⟩ := List.cons.inj hs
      exact absurd List.mem_cons_self (hu.not_mem hc)
    | cons d pre => exact ih pre (List.cons.inj hs).2
  | word w s hwne hw hparted ih =>
    rw [words_word hwne hw hparted]
    rw [List.append_assoc] at hs
    rcases List.append_eq_append_iff.1 hs with ⟨x, rfl, hx⟩ | ⟨x, rfl, hx⟩
    · -- the word begins before the piece, or with it
      rcases List.append_eq_append_iff.1 hx with ⟨y, rfl, rfl⟩ | ⟨y, hy, rfl⟩
      · refine ⟨pre, List.mem_cons.2 (.inl ?_)⟩
        have hyless : ∀ c ∈ y, (!p c) = true := fun c hc => by
          rw [hw c (by simp [hc]), Bool.not_false]
        rw [List.takeWhile_append_of_pos hyless, hparted.takeWhile (by simp), List.append_nil, List.append_assoc]
      · cases y with
        | nil =>
          rw [List.append_nil] at hy
          subst hy
          refine ⟨pre, List.mem_cons.2 (.inl ?_)⟩
          rw [List.nil_append] at hparted
          rw [hparted.takeWhile (by simp), List.append_nil]
        | cons c y => exact absurd (by rw [hy]; simp) (hu.not_mem (hparted c rfl))
    · obtain ⟨a, ha⟩ := ih x (by rw [List.append_assoc, hx])
      exact ⟨a, List.mem_cons_of_mem _ ha⟩

theorem exists_of_mem_words {s w : List α} (h : w ∈ words p s) :
    w ≠ [] ∧ Spaceless p w ∧ ∃ pre post, s = pre ++ w ++ post ∧ Parted p post := by
  induction s using word_induction with
  | nil => cases h
  | space c s hc ih =>
    rw [words_space hc] at h
    obtain ⟨hne, hw, pre, post, rfl, hpost⟩ := ih h
    exact ⟨hne, hw, c :: pre, post, rfl, hpost⟩
  | word v s hne hv hs ih =>
    rw [words_word hne hv hs] at h
    rcases List.mem_cons.1 h with rfl | h
    · exact ⟨hne, hv, [], s, rfl, hs⟩
    · obtain ⟨hne', hw, pre, post, rfl, hpost⟩ := ih h
      exact ⟨hne', hw, v ++ pre, post, by simp, hpost⟩

end Words
