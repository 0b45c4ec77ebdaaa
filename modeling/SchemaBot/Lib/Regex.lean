import Mathlib.Data.List.DropRight
import Mathlib.Data.List.Forall2

/-!
# Regular expressions, leftmost first

Patterns with the constructs that tools read flags with: character classes and their greedy repetition,
sequences, ordered alternatives, groups, and assertions on the two characters around a position. `hits` lists the
ways a pattern matches at a position in the order of preference, `search` takes the first one at the leftmost
position that has any. `isMatch_iff` says where that is; the other lemmas compute the hits of literals and of
repetitions.
-/

namespace Regex

/-- A pattern. `look` asserts something about the characters before and after the position. -/
inductive Re
  | empty
  | char (p : Char → Bool)
  | many (p : Char → Bool)
  | seq (r q : Re)
  | alt (r q : Re)
  | group (r : Re)
  | look (q : Option Char → Option Char → Bool)

/-- A match: the last character before its end, the text after it, and the text of the groups. -/
structure Hit where
  last : Option Char
  rest : List Char
  groups : List (List Char) := []

/-- The greedy repetition of a class, longest match first. -/
def manyHits (p : Char → Bool) : Option Char → List Char → List Hit
  | last, [] => [⟨last, [], []⟩]
  | last, c :: s => (if p c then manyHits p (some c) s else []) ++ [⟨last, c :: s, []⟩]

/-- The matches at a position, in the order of preference. -/
@[grind =] def hits : Re → Option Char → List Char → List Hit
  | .empty, last, s => [⟨last, s, []⟩]
  | .char _, _, [] => []
  | .char p, _, c :: s => if p c then [⟨some c, s, []⟩] else []
  | .many p, last, s => manyHits p last s
  | .seq r q, last, s =>
    (hits r last s).flatMap fun h => (hits q h.last h.rest).map fun k => { k with groups := h.groups ++ k.groups }
  | .alt r q, last, s => hits r last s ++ hits q last s
  | .group r, last, s =>
    (hits r last s).map fun h => { h with groups := s.take (s.length - h.rest.length) :: h.groups }
  | .look q, last, s => if q last s.head? then [⟨last, s, []⟩] else []

/-- The match at the leftmost position, from the given one on. -/
def searchFrom (r : Re) : Option Char → List Char → Option Hit
  | last, [] => (hits r last []).head?
  | last, c :: s => (hits r last (c :: s)).head?.or (searchFrom r (some c) s)

/-- The match of the pattern in a text. -/
def search (r : Re) (s : List Char) : Option Hit := searchFrom r none s

/-- The pattern matches somewhere in the text. -/
def isMatch (r : Re) (s : List Char) : Bool := (search r s).isSome

/-- The text of the first group of the match, empty where the group takes no part in it. -/
def submatch (r : Re) (s : List Char) : Option (List Char) := (search r s).map (·.groups.headD [])

/-! ## Derived patterns -/

/-- A character of a pattern that ignores case; `a` is no upper-case letter. The long s and the Kelvin sign fold to
letters. -/
def fold (a c : Char) : Bool := c.toLower = a || (a = 's' && c = 'ſ') || (a = 'k' && c = 'K')

/-- A text, in any case. -/
def lit : List Char → Re
  | [] => .empty
  | a :: w => .seq (.char (fold a)) (lit w)

/-- At least one character of the class. -/
def plus (p : Char → Bool) : Re := .seq (.char p) (.many p)

/-- The pattern, or nothing. -/
def opt (r : Re) : Re := .alt r .empty

/-- The first of the patterns that matches. -/
def alts : List Re → Re
  | [] => .char fun _ => false
  | r :: rs => .alt r (alts rs)

/-- A word character, `\w`. -/
def isWordChar (c : Char) : Bool := c.isAlphanum || c = '_'

/-- The assertion `\b`. -/
def wordBoundary (last next : Option Char) : Bool := last.any isWordChar != next.any isWordChar

/-- Where the text begins, `^`. -/
def atStart (last _next : Option Char) : Bool := last.isNone

/-- Where a line begins, `^` of a pattern for several lines. -/
def atLineStart (last _next : Option Char) : Bool := last.all (· = '\n')

/-- Where the text ends, `$`. -/
def atEnd (_last next : Option Char) : Bool := next.isNone

/-- Where a line ends, `$` of a pattern for several lines. -/
def atLineEnd (_last next : Option Char) : Bool := next.all (· = '\n')

/-! ## Searching -/

section
variable {r q : Re} {p : Char → Bool} {last : Option Char} {s : List Char}

theorem isSome_searchFrom_iff : (searchFrom r last s).isSome = true ↔
      ∃ pre rest, s = pre ++ rest ∧ hits r (pre.getLast?.or last) rest ≠ [] := by
  induction s generalizing last with
  | nil =>
    constructor
    · intro h
      refine ⟨[], [], rfl, ?_⟩
      exact List.isSome_head?.1 h
    · rintro ⟨pre, rest, hs, hne⟩
      obtain ⟨rfl, rfl⟩ := List.append_eq_nil_iff.1 hs.symm
      exact List.isSome_head?.2 hne
  | cons c s ih =>
    rw [searchFrom, Option.isSome_or, Bool.or_eq_true, List.isSome_head?, ih]
    constructor
    · rintro (h | ⟨pre, rest, rfl, hne⟩)
      · exact ⟨[], c :: s, rfl, h⟩
      · refine ⟨c :: pre, rest, rfl, ?_⟩
        rwa [List.getLast?_cons, Option.some_or, ← Option.or_some]
    · rintro ⟨pre, rest, hs, hne⟩
      cases pre with
      | nil =>
        obtain rfl : c :: s = rest := hs
        exact .inl hne
      | cons d pre =>
        obtain ⟨rfl, rfl⟩ := List.cons.inj hs
        refine .inr ⟨pre, rest, rfl, ?_⟩
        rwa [List.getLast?_cons, Option.some_or, ← Option.or_some] at hne

theorem isMatch_iff : isMatch r s = true ↔ ∃ pre rest, s = pre ++ rest ∧ hits r pre.getLast? rest ≠ [] := by
  unfold isMatch search
  rw [isSome_searchFrom_iff]
  simp only [Option.or_none]

end

/-! ## Hits of derived patterns -/

/-- The text is the literal, in any case. -/
def foldMatch : List Char → List Char → Bool
  | [], [] => true
  | a :: f, c :: w => fold a c && foldMatch f w
  | _, _ => false

section
variable {r q : Re} {p : Char → Bool} {last : Option Char} {f w s : List Char} {c : Char}

theorem length_of_foldMatch : ∀ {f w : List Char}, foldMatch f w = true → w.length = f.length
  | [], [], _ => rfl
  | _ :: _, _ :: _, h => by
    rw [foldMatch, Bool.and_eq_true] at h
    rw [List.length_cons, List.length_cons, length_of_foldMatch h.2]

theorem hits_lit_append (h : foldMatch f w = true) (s : List Char) :
    hits (lit f) last (w ++ s) = [⟨w.getLast?.or last, s, []⟩] := by
  induction f generalizing w last with
  | nil =>
    obtain rfl := List.eq_nil_of_length_eq_zero (length_of_foldMatch h)
    rfl
  | cons a f ih =>
    cases w with
    | nil => cases h
    | cons c w =>
      rw [foldMatch, Bool.and_eq_true] at h
      have hlast : (c :: w).getLast?.or last = w.getLast?.or (some c) := by
        rw [List.getLast?_cons, Option.some_or, ← Option.or_some]
      rw [hlast]
      simp [lit, hits, h.1, ih h.2]

theorem exists_of_hits_lit (h : hits (lit f) last s ≠ []) : ∃ w rest, s = w ++ rest ∧ foldMatch f w = true := by
  induction f generalizing s last with
  | nil => exact ⟨[], s, rfl, rfl⟩
  | cons a f ih =>
    cases s with
    | nil => exact absurd rfl h
    | cons c s =>
      cases hc : fold a c with
      | false => simp [lit, hits, hc] at h
      | true =>
        have hrest : hits (lit f) (some c) s ≠ [] := by
          intro hnil
          simp [lit, hits, hnil] at h
        obtain ⟨w, rest, rfl, hw⟩ := ih hrest
        exact ⟨c :: w, rest, rfl, by rw [foldMatch, hc, hw]; rfl⟩

theorem hits_seq_nil (h : hits r last s = []) : hits (.seq r q) last s = [] := by
  rw [hits, h]
  rfl

theorem hits_lit_seq (h : foldMatch f w = true) (s : List Char) :
    hits (.seq (lit f) q) last (w ++ s) = hits q (w.getLast?.or last) s := by
  rw [hits, hits_lit_append h]
  simp

theorem exists_of_hits_lit_seq (h : hits (.seq (lit f) q) last s ≠ []) :
    ∃ w rest, s = w ++ rest ∧ foldMatch f w = true ∧ hits q (w.getLast?.or last) rest ≠ [] := by
  have hlit : hits (lit f) last s ≠ [] := fun hnil => h (hits_seq_nil hnil)
  obtain ⟨w, rest, rfl, hw⟩ := exists_of_hits_lit hlit
  exact ⟨w, rest, rfl, hw, by rwa [hits_lit_seq hw] at h⟩

theorem exists_of_hits_seq (h : hits (.seq r q) last s ≠ []) : ∃ k ∈ hits r last s, hits q k.last k.rest ≠ [] := by
  obtain ⟨k', hk'⟩ := List.exists_mem_of_ne_nil _ h
  obtain ⟨k, hk, hmem⟩ := List.mem_flatMap.1 hk'
  refine ⟨k, hk, fun hnil => ?_⟩
  rw [hnil] at hmem
  cases hmem

/-- Every match of the pattern is a run of the class. -/
def RunsOf (p : Char → Bool) (r : Re) : Prop :=
  ∀ last s, ∀ k ∈ hits r last s, ∃ g, s = g ++ k.rest ∧ ∀ c ∈ g, p c = true

theorem RunsOf.char : RunsOf p (.char p) := by
  intro last s k hk
  cases s with
  | nil => cases hk
  | cons c s =>
    cases hc : p c with
    | false => simp [hits, hc] at hk
    | true =>
      obtain rfl : k = ⟨some c, s, []⟩ := by simpa [hits, hc] using hk
      exact ⟨[c], rfl, by simpa using hc⟩

theorem RunsOf.many : RunsOf p (.many p) := by
  intro last s k hk
  induction s generalizing last with
  | nil =>
    obtain rfl := List.mem_singleton.1 hk
    exact ⟨[], rfl, nofun⟩
  | cons c s ih =>
    rcases List.mem_append.1 hk with hmore | hend
    · cases hc : p c with
      | false => simp [hc] at hmore
      | true =>
        rw [hc] at hmore
        obtain ⟨g, rfl, hg⟩ := ih (some c) hmore
        exact ⟨c :: g, rfl, by simpa [hc] using hg⟩
    · obtain rfl := List.mem_singleton.1 hend
      exact ⟨[], rfl, nofun⟩

theorem RunsOf.seq (hr : RunsOf p r) (hq : RunsOf p q) : RunsOf p (.seq r q) := by
  intro last s k hk
  obtain ⟨m, hm, hk⟩ := List.mem_flatMap.1 hk
  obtain ⟨n, hn, rfl⟩ := List.mem_map.1 hk
  obtain ⟨g, rfl, hg⟩ := hr last s m hm
  obtain ⟨g', hrest, hg'⟩ := hq m.last m.rest n hn
  refine ⟨g ++ g', by rw [List.append_assoc, ← hrest], fun c hc => ?_⟩
  exact (List.mem_append.1 hc).elim (hg c) (hg' c)

theorem RunsOf.opt (hr : RunsOf p r) : RunsOf p (opt r) := by
  intro last s k hk
  rcases List.mem_append.1 (show k ∈ hits r last s ++ hits .empty last s from hk) with hk | hk
  · exact hr last s k hk
  · obtain rfl := List.mem_singleton.1 hk
    exact ⟨[], rfl, nofun⟩

theorem manyHits_flatMap (hq : ∀ last c s, p c = true → hits q last (c :: s) = []) (last : Option Char)
    (s : List Char) : ∃ last', (manyHits p last s).flatMap (fun h =>
        (hits q h.last h.rest).map fun k => { k with groups := h.groups ++ k.groups }) =
      hits q last' (s.dropWhile p) := by
  induction s generalizing last with
  | nil => exact ⟨last, by simp [manyHits]⟩
  | cons c s ih =>
    cases hc : p c with
    | true =>
      obtain ⟨last', hrest⟩ := ih (some c)
      refine ⟨last', ?_⟩
      rw [manyHits, hc, if_pos rfl, List.flatMap_append, hrest, List.dropWhile_cons_of_pos hc]
      simp [hq last c s hc]
    | false =>
      refine ⟨last, ?_⟩
      simp [manyHits, hc]

theorem hits_plus_seq (hq : ∀ last c s, p c = true → hits q last (c :: s) = []) (hc : p c = true)
    (last : Option Char) (s : List Char) :
    ∃ last', hits (.seq (plus p) q) last (c :: s) = hits q last' (s.dropWhile p) := by
  obtain ⟨last', h⟩ := manyHits_flatMap hq (some c) s
  refine ⟨last', Eq.trans ?_ h⟩
  simp [hits, plus, hc]

theorem hits_plus_seq_nil (hc : p c = false) : hits (.seq (plus p) q) last (c :: s) = [] := by
  simp [hits, plus, hc]

theorem head?_manyHits (last : Option Char) (s : List Char) :
    (manyHits p last s).head?.map (·.rest) = some (s.dropWhile p) := by
  induction s generalizing last with
  | nil => rfl
  | cons c s ih =>
    cases hc : p c with
    | true =>
      have hne : manyHits p (some c) s ≠ [] := by
        intro hnil
        have hhead := ih (some c)
        rw [hnil] at hhead
        cases hhead
      rw [manyHits, hc, if_pos rfl, List.dropWhile_cons_of_pos hc, List.head?_append_of_ne_nil _ hne, ih]
    | false =>
      rw [List.dropWhile_cons_of_neg (Bool.eq_false_iff.1 hc), manyHits, hc]
      rfl

theorem isMatch_alt : isMatch (.alt r q) s = (isMatch r s || isMatch q s) := by
  rw [Bool.eq_iff_iff, Bool.or_eq_true, isMatch_iff, isMatch_iff, isMatch_iff]
  constructor
  · rintro ⟨pre, rest, hs, hne⟩
    rw [hits, ne_eq, List.append_eq_nil_iff, not_and_or] at hne
    exact hne.imp (fun h => ⟨pre, rest, hs, h⟩) fun h => ⟨pre, rest, hs, h⟩
  · rintro (⟨pre, rest, hs, hne⟩ | ⟨pre, rest, hs, hne⟩)
    · exact ⟨pre, rest, hs, by rw [hits]; exact List.append_ne_nil_of_left_ne_nil hne _⟩
    · exact ⟨pre, rest, hs, by rw [hits]; exact List.append_ne_nil_of_right_ne_nil _ hne⟩

end

end Regex
