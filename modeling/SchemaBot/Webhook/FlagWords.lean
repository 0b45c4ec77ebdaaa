import SchemaBot.Lib.Words
import SchemaBot.Webhook.Parser

/-!
# What the patterns for flags find

The flags of a command are read with patterns that run over the whole line. Here the result of each pattern is told
from the words of the line.
-/

namespace SchemaBot.Webhook

open Regex Words

/-- The words of a text, parted by what `\s` matches. -/
def textWords (s : Text) : List Text := words isSpace s

def textTokens (s : Text) : List (Token Char) := tokens isSpace s

section
variable {f w : Text}

theorem isSpace_of_fold {a c : Char} (h : fold a c = true) (hc : isSpace c = true) : isSpace a = true := by
  have hlow : c.toLower = c ∧ c ≠ 'ſ' ∧ c ≠ 'K' := by
    simp only [isSpace, Bool.or_eq_true, decide_eq_true_eq] at hc
    rcases hc with (((rfl | rfl) | rfl) | rfl) | rfl <;> decide
  obtain ⟨hlower, hs, hk⟩ := hlow
  have ha : c = a := by simpa [fold, hlower, hs, hk] using h
  exact ha ▸ hc

theorem spaceless_of_foldMatch : ∀ {f w : Text}, Spaceless isSpace f → foldMatch f w = true → Spaceless isSpace w
  | [], [], _, _ => nofun
  | a :: f, c :: w, hf, h => by
    rw [foldMatch, Bool.and_eq_true] at h
    intro d hd
    rcases List.mem_cons.1 hd with rfl | hd
    · rw [Bool.eq_false_iff]
      intro hsp
      exact Bool.eq_false_iff.1 (hf a List.mem_cons_self) (isSpace_of_fold h.1 hsp)
    · exact spaceless_of_foldMatch (fun b hb => hf b (List.mem_cons_of_mem _ hb)) h.2 d hd

theorem ne_nil_of_foldMatch (hne : f ≠ []) (h : foldMatch f w = true) : w ≠ [] := by
  intro hw
  have hlen := length_of_foldMatch h
  rw [hw] at hlen
  exact hne (List.eq_nil_of_length_eq_zero hlen.symm)

end

/-! ## Flags without a value -/

/-- The word holds the text of the flag, ended the way `\b` wants it. -/
def HoldsFlag (flag word : Text) : Prop :=
  ∃ a w b, word = a ++ w ++ b ∧ foldMatch flag w = true ∧ wordBoundary w.getLast? b.head? = true

section
variable {flag s : Text} {last : Option Char}

theorem isWordChar_of_isSpace {c : Char} (h : isSpace c = true) : isWordChar c = false := by
  simp only [isSpace, Bool.or_eq_true, decide_eq_true_eq] at h
  rcases h with (((rfl | rfl) | rfl) | rfl) | rfl <;> decide

theorem wordBoundary_append {b post : Text} (hpost : Parted isSpace post) :
    wordBoundary last (b ++ post).head? = wordBoundary last b.head? := by
  cases b with
  | cons c b => rfl
  | nil =>
    cases post with
    | nil => rfl
    | cons c post => simp [wordBoundary, isWordChar_of_isSpace (hpost c rfl)]

theorem wordBoundary_takeWhile {post : Text} :
    wordBoundary last (post.takeWhile fun c => !isSpace c).head? = wordBoundary last post.head? := by
  cases post with
  | nil => rfl
  | cons c post =>
    cases hc : isSpace c with
    | false => simp [hc]
    | true => simp [hc, wordBoundary, isWordChar_of_isSpace hc]

theorem hits_flagRegex : hits (flagRegex flag) last s ≠ [] ↔
      ∃ w post, s = w ++ post ∧ foldMatch flag w = true ∧ wordBoundary (w.getLast?.or last) post.head? = true := by
  unfold flagRegex
  constructor
  · intro h
    obtain ⟨w, post, rfl, hw, hlook⟩ := exists_of_hits_lit_seq h
    refine ⟨w, post, rfl, hw, ?_⟩
    by_contra hno
    exact hlook (by rw [hits, if_neg hno])
  · rintro ⟨w, post, rfl, hw, hb⟩
    rw [hits_lit_seq hw, hits, if_pos hb]
    exact nofun

theorem isMatch_flagRegex (hne : flag ≠ []) (hflag : Spaceless isSpace flag) :
    isMatch (flagRegex flag) s = true ↔ ∃ word ∈ textWords s, HoldsFlag flag word := by
  rw [isMatch_iff]
  constructor
  · rintro ⟨pre, rest, rfl, hhits⟩
    obtain ⟨w, post, rfl, hw, hb⟩ := hits_flagRegex.1 hhits
    have hwne := ne_nil_of_foldMatch hne hw
    obtain ⟨a, ha⟩ := exists_word_of_piece pre post hwne (spaceless_of_foldMatch hflag hw)
    rw [List.append_assoc] at ha
    refine ⟨_, ha, a, w, _, by rw [List.append_assoc], hw, ?_⟩
    rw [List.getLast?_eq_some_getLast hwne] at hb
    rw [List.getLast?_eq_some_getLast hwne, wordBoundary_takeWhile]
    exact hb
  · rintro ⟨word, hword, a, w, b, rfl, hw, hb⟩
    obtain ⟨-, -, pre, post, rfl, hpost⟩ := exists_of_mem_words hword
    refine ⟨pre ++ a, w ++ (b ++ post), by simp, hits_flagRegex.2 ⟨w, b ++ post, rfl, hw, ?_⟩⟩
    have hwne := ne_nil_of_foldMatch hne hw
    rw [wordBoundary_append hpost]
    rw [List.getLast?_eq_some_getLast hwne] at hb ⊢
    exact hb

end

/-! ## Flags with a value -/

def readValue (value : Re) (t : Text) : Option Text :=
  (hits (.group value) none t).head?.map (·.groups.headD [])

def endsWithFlag (flag : Text) : Text → Bool
  | [] => foldMatch flag []
  | c :: w => foldMatch flag (c :: w) || endsWithFlag flag w

def looseValue (flag : Text) (value : Re) : List Text → Option Text
  | [] => none
  | a :: ws => (if endsWithFlag flag a then ws.head?.bind (readValue value) else none).or (looseValue flag value ws)

structure ReadsWord (value : Re) : Prop where
  nil : ∀ last, hits value last [] = []
  space : ∀ last c s, isSpace c = true → hits value last (c :: s) = []
  anywhere : ∀ last t, (hits (.group value) last t).head?.map (·.groups.headD []) = readValue value t
  word : ∀ b rest, Spaceless isSpace b → Parted isSpace rest → readValue value (b ++ rest) = readValue value b

def submatchFrom (r : Re) (last : Option Char) (s : Text) : Option Text :=
  (searchFrom r last s).map (·.groups.headD [])

theorem submatchFrom_cons {r : Re} {last : Option Char} {c : Char} {s : Text} : submatchFrom r last (c :: s) =
      ((hits r last (c :: s)).head?.map (·.groups.headD [])).or (submatchFrom r (some c) s) := by
  unfold submatchFrom
  rw [searchFrom, Option.map_or]

section
variable {flag w s : Text} {value : Re} {last : Option Char}

theorem eq_of_append_eq {w w' s rest : Text} (hw : Spaceless isSpace w) (hw' : Spaceless isSpace w')
    (hs : Parted isSpace s) (hrest : ∃ c t, rest = c :: t ∧ isSpace c = true) (h : w ++ s = w' ++ rest) : w = w' := by
  obtain ⟨c, t, rfl, hc⟩ := hrest
  rcases List.append_eq_append_iff.1 h with ⟨x, rfl, hx⟩ | ⟨x, rfl, hx⟩
  · cases x with
    | nil => rw [List.append_nil]
    | cons d x =>
      subst hx
      exact absurd (by simp) (hw'.not_mem (hs d rfl))
  · cases x with
    | nil => rw [List.append_nil]
    | cons d x =>
      obtain ⟨rfl, -⟩ := List.cons.inj hx
      exact absurd (by simp) (hw.not_mem hc)

theorem hits_lit_space {f : Text} {c : Char} (hne : f ≠ []) (hf : Spaceless isSpace f) (hc : isSpace c = true) :
    hits (lit f) last (c :: s) = [] := by
  by_contra hhits
  obtain ⟨w, rest, hsplit, hw⟩ := exists_of_hits_lit hhits
  obtain ⟨d, w, rfl⟩ := List.exists_cons_of_ne_nil (ne_nil_of_foldMatch hne hw)
  obtain ⟨rfl, -⟩ := List.cons.inj hsplit
  exact (spaceless_of_foldMatch hf hw).not_mem hc List.mem_cons_self

theorem hits_gap_ne_nil {q : Re} (h : hits (.seq (plus isSpace) q) last s ≠ []) :
    ∃ c t, s = c :: t ∧ isSpace c = true := by
  cases s with
  | nil => exact absurd rfl h
  | cons c t =>
    refine ⟨c, t, rfl, ?_⟩
    by_contra hc
    exact h (hits_plus_seq_nil (Bool.eq_false_iff.2 hc))

theorem readValue_gap (hv : ReadsWord value) (hs : Parted isSpace s) :
    (hits (.seq (plus isSpace) (.group value)) last s).head?.map (·.groups.headD []) =
      (textWords s).head?.bind (readValue value) := by
  have hspace (last : Option Char) (c : Char) (t : Text) (hc : isSpace c = true) :
      hits (.group value) last (c :: t) = [] := by rw [hits, hv.space last c t hc]; rfl
  cases s with
  | nil => rfl
  | cons c s =>
    have hc := hs c rfl
    obtain ⟨last', hh⟩ := hits_plus_seq hspace hc last s
    unfold textWords
    rw [hh, hv.anywhere, words_space hc]
    cases hws : words isSpace s with
    | nil =>
      rw [dropWhile_of_words_nil hws, readValue, hits, hv.nil]
      rfl
    | cons b ws =>
      obtain ⟨-, hb, rest, hrest, hparted⟩ := dropWhile_of_words hws
      rw [hrest, hv.word b rest hb hparted]
      rfl

theorem hits_valueRegex (last : Option Char) (hflag : Spaceless isSpace flag) (hv : ReadsWord value)
    (hw : Spaceless isSpace w) (hs : Parted isSpace s) :
    (hits (valueRegex flag value) last (w ++ s)).head?.map (·.groups.headD []) =
      if foldMatch flag w then (textWords s).head?.bind (readValue value) else none := by
  unfold valueRegex
  split
  · next hm => rw [hits_lit_seq hm, readValue_gap hv hs]
  · next hm =>
    have hnil : hits (.seq (lit flag) (.seq (plus isSpace) (.group value))) last (w ++ s) = [] := by
      by_contra hne
      obtain ⟨w', rest, hsplit, hm', hgap⟩ := exists_of_hits_lit_seq hne
      obtain rfl := eq_of_append_eq hw (spaceless_of_foldMatch hflag hm') hs (hits_gap_ne_nil hgap) hsplit
      exact hm hm'
    rw [hnil]
    rfl

theorem submatchFrom_valueRegex_last (hne : flag ≠ []) (last last' : Option Char) :
    submatchFrom (valueRegex flag value) last s = submatchFrom (valueRegex flag value) last' s := by
  obtain ⟨a, f, rfl⟩ := List.exists_cons_of_ne_nil hne
  have hhits (t : Text) : hits (valueRegex (a :: f) value) last t = hits (valueRegex (a :: f) value) last' t := by
    cases t <;> rfl
  cases s with
  | nil => unfold submatchFrom; rw [searchFrom, searchFrom, hhits]
  | cons c s => rw [submatchFrom_cons, submatchFrom_cons, hhits]

theorem submatchFrom_valueRegex_word (hne : flag ≠ []) (hflag : Spaceless isSpace flag) (hv : ReadsWord value)
    (hw : Spaceless isSpace w) (hs : Parted isSpace s) : submatchFrom (valueRegex flag value) last (w ++ s) =
      (if endsWithFlag flag w then (textWords s).head?.bind (readValue value) else none).or
        (submatchFrom (valueRegex flag value) none s) := by
  induction w generalizing last with
  | nil =>
    have hno : ¬ endsWithFlag flag [] = true := by
      intro h
      exact ne_nil_of_foldMatch hne h rfl
    rw [if_neg hno]
    exact submatchFrom_valueRegex_last hne last none
  | cons c w ih =>
    have hhere := hits_valueRegex last hflag hv hw hs
    rw [List.cons_append] at hhere ⊢
    rw [submatchFrom_cons, hhere, ih fun d hd => hw d (List.mem_cons_of_mem _ hd), endsWithFlag]
    cases foldMatch flag (c :: w) with
    | false => simp
    | true =>
      cases endsWithFlag flag w with
      | false => simp
      | true => simp [← Option.or_assoc]

theorem submatch_valueRegex (hne : flag ≠ []) (hflag : Spaceless isSpace flag) (hv : ReadsWord value) (s : Text) :
    submatch (valueRegex flag value) s = looseValue flag value (textWords s) := by
  show submatchFrom (valueRegex flag value) none s = _
  obtain ⟨a, f, rfl⟩ := List.exists_cons_of_ne_nil hne
  induction s using word_induction with
  | nil => rfl
  | space c s hc ih =>
    have hnil : hits (valueRegex (a :: f) value) none (c :: s) = [] := hits_seq_nil (hits_lit_space hne hflag hc)
    rw [submatchFrom_cons, hnil, submatchFrom_valueRegex_last hne (some c) none, ih]
    unfold textWords
    rw [words_space hc]
    rfl
  | word w s hwne hw hs ih =>
    rw [submatchFrom_valueRegex_word hne hflag hv hw hs, ih]
    unfold textWords
    rw [words_word hwne hw hs]
    rfl

end

/-! ## Values -/

def startsWith (f t : Text) : Bool := foldMatch f (t.take f.length)

section
variable {f t : Text} {p : Char → Bool} {last : Option Char} {f' : Text}

theorem hits_lit_eq : hits (lit f) last t =
      if startsWith f t then [⟨(t.take f.length).getLast?.or last, t.drop f.length, []⟩] else [] := by
  split
  · next h =>
    have hsplit : hits (lit f) last (t.take f.length ++ t.drop f.length) = _ := hits_lit_append h _
    rwa [List.take_append_drop] at hsplit
  · next h =>
    by_contra hne
    obtain ⟨w, rest, rfl, hw⟩ := exists_of_hits_lit hne
    apply h
    rw [startsWith, ← length_of_foldMatch hw, List.take_left']
    · exact hw
    · rfl

theorem startsWith_append {b rest : Text} (hf : Spaceless isSpace f) (hrest : Parted isSpace rest) :
    startsWith f (b ++ rest) = startsWith f b := by
  unfold startsWith
  by_cases hlen : f.length ≤ b.length
  · rw [List.take_append_of_le_length hlen]
  · cases rest with
    | nil => rw [List.append_nil]
    | cons c rest =>
      have hshort : foldMatch f (b.take f.length) = false := by
        rw [Bool.eq_false_iff]
        intro h
        have := length_of_foldMatch h
        rw [List.length_take] at this
        omega
      have hspace : foldMatch f ((b ++ c :: rest).take f.length) = false := by
        rw [Bool.eq_false_iff]
        intro h
        have hmem : c ∈ (b ++ c :: rest).take f.length := by
          rw [List.take_append, List.mem_append]
          right
          obtain ⟨n, hn⟩ := Nat.exists_eq_add_of_lt (Nat.lt_of_not_le hlen)
          rw [show f.length - b.length = n + 1 by omega]
          exact List.mem_cons_self
        exact (spaceless_of_foldMatch hf h).not_mem (hrest c rfl) hmem
      rw [hshort, hspace]

theorem readValue_alt : readValue (.alt (lit f) (lit f')) t =
      if startsWith f t then some (t.take f.length)
      else if startsWith f' t then some (t.take f'.length) else none := by
  have htake {g : Text} (h : startsWith g t = true) : t.take (t.length - (t.drop g.length).length) = t.take g.length := by
    have hlen := length_of_foldMatch h
    rw [List.length_take] at hlen
    rw [List.length_drop]
    congr 1
    omega
  unfold readValue
  rw [hits, hits, hits_lit_eq, hits_lit_eq]
  cases h : startsWith f t with
  | true => simp [← htake h]
  | false =>
    cases h' : startsWith f' t with
    | true => simp [← htake h']
    | false => rfl

theorem readsWord_alt (hne : f ≠ []) (hne' : f' ≠ []) (hf : Spaceless isSpace f)
    (hf' : Spaceless isSpace f') : ReadsWord (.alt (lit f) (lit f')) := by
  have hlast {g : Text} (hg : g ≠ []) (last : Option Char) (t : Text) : hits (lit g) last t = hits (lit g) none t := by
    obtain ⟨a, g, rfl⟩ := List.exists_cons_of_ne_nil hg
    cases t <;> rfl
  have hnil {g : Text} (hg : g ≠ []) (last : Option Char) : hits (lit g) last [] = [] := by
    obtain ⟨a, g, rfl⟩ := List.exists_cons_of_ne_nil hg
    rfl
  constructor
  · intro last
    rw [hits, hnil hne, hnil hne', List.append_nil]
  · intro last c s hc
    rw [hits, hits_lit_space hne hf hc, hits_lit_space hne' hf' hc, List.append_nil]
  · intro last t
    unfold readValue
    rw [hits, hits, hits, hits, hlast hne, hlast hne']
  · intro b rest hb hrest
    rw [readValue_alt, readValue_alt, startsWith_append hf hrest, startsWith_append hf' hrest]
    have htake {g : Text} (h : startsWith g b = true) : (b ++ rest).take g.length = b.take g.length := by
      have hlen := length_of_foldMatch h
      rw [List.length_take] at hlen
      exact List.take_append_of_le_length (by omega)
    split
    · next h => rw [htake h]
    · split
      · next h => rw [htake h]
      · rfl

theorem head?_hits_plus {c : Char} (hc : p c = true) :
    (hits (.group (plus p)) last (c :: t)).head?.map (·.groups.headD []) = some ((c :: t).takeWhile p) := by
  have hhits : hits (.group (plus p)) last (c :: t) = (manyHits p (some c) t).map fun h =>
      { h with groups := (c :: t).take ((c :: t).length - h.rest.length) :: h.groups } := by
    simp [hits, plus, hc]
  have hrest := head?_manyHits (p := p) (some c) t
  rw [hhits, List.head?_map]
  obtain ⟨h, hh, hrest⟩ := Option.map_eq_some_iff.1 hrest
  rw [hh]
  have hlen : (c :: t).length - (t.dropWhile p).length = ((c :: t).takeWhile p).length := by
    have hsum := congrArg List.length (List.takeWhile_append_dropWhile (p := p) (l := c :: t))
    rw [List.length_append, List.dropWhile_cons_of_pos hc] at hsum
    omega
  show some ((c :: t).take ((c :: t).length - h.rest.length)) = _
  rw [hrest, hlen, ← List.prefix_iff_eq_take.1 (List.takeWhile_prefix p)]

theorem readValue_plus : readValue (plus p) t = if t.takeWhile p = [] then none else some (t.takeWhile p) := by
  cases t with
  | nil => rfl
  | cons c t =>
    cases hc : p c with
    | true =>
      have hne : ¬ (c :: t).takeWhile p = [] := by
        rw [List.takeWhile_cons_of_pos hc]
        exact nofun
      rw [if_neg hne]
      exact head?_hits_plus hc
    | false =>
      simp [readValue, hits, plus, hc]

theorem readsWord_plus (hp : ∀ c, isSpace c = true → p c = false) : ReadsWord (plus p) := by
  constructor
  · exact fun last => rfl
  · intro last c s hc
    simp [hits, plus, hp c hc]
  · intro last t
    cases t with
    | nil => rfl
    | cons c t =>
      cases hc : p c with
      | true => exact (head?_hits_plus hc).trans (head?_hits_plus hc).symm
      | false => simp [readValue, hits, plus]
  · intro b rest hb hrest
    have htake : (b ++ rest).takeWhile p = b.takeWhile p := by
      rw [List.takeWhile_append, hrest.takeWhile hp, List.append_nil]
      split
      · next h => exact ((List.takeWhile_prefix p).eq_of_length h).symm
      · rfl
    rw [readValue_plus, readValue_plus, htake]

end

/-! ## Tenants -/

def isTenantFlag (word : Text) : Bool := foldMatch "--tenant".toList word || foldMatch "-t".toList word

def beginsTenant (word : Text) : Bool := startsWith "--tenant".toList word || startsWith "-t".toList word

def tenantValue (t : Token Char) (ts : List (Token Char)) : Text :=
  if isTenantFlag t.word && t.gap.all isBlank then ts.head?.elim [] (·.word) else []

def looseTenant : List (Token Char) → Option Text
  | [] => none
  | t :: ts => if beginsTenant t.word then some (tenantValue t ts) else looseTenant ts

section
variable {flag w s : Text} {last : Option Char}

def tenantValueRe : Re := opt (.seq (plus isBlank) (.group (plus fun c => !isSpace c)))

def tenantFlagRe : Re := .seq (.alt (lit "--tenant".toList) (lit "-t".toList)) tenantValueRe

theorem isSpace_of_isBlank {c : Char} (h : isBlank c = true) : isSpace c = true := by
  simp only [isBlank, Bool.or_eq_true, decide_eq_true_eq] at h
  rcases h with rfl | rfl <;> decide

theorem dropWhile_isBlank (h : (s.takeWhile isSpace).all isBlank = true) :
    s.dropWhile isBlank = s.dropWhile isSpace := by
  induction s with
  | nil => rfl
  | cons c s ih =>
    cases hc : isSpace c with
    | true =>
      rw [List.takeWhile_cons_of_pos hc, List.all_cons, Bool.and_eq_true] at h
      rw [List.dropWhile_cons_of_pos hc, List.dropWhile_cons_of_pos h.1, ih h.2]
    | false =>
      have hb : ¬ isBlank c = true := fun hb => Bool.eq_false_iff.1 hc (isSpace_of_isBlank hb)
      rw [List.dropWhile_cons_of_neg (Bool.eq_false_iff.1 hc), List.dropWhile_cons_of_neg hb]

theorem exists_dropWhile_isBlank (h : ¬ (s.takeWhile isSpace).all isBlank = true) :
    ∃ c t, s.dropWhile isBlank = c :: t ∧ isSpace c = true := by
  induction s with
  | nil => exact absurd rfl h
  | cons c s ih =>
    cases hc : isSpace c with
    | true =>
      rw [List.takeWhile_cons_of_pos hc, List.all_cons, Bool.and_eq_true, not_and_or] at h
      cases hb : isBlank c with
      | true =>
        rw [List.dropWhile_cons_of_pos hb]
        exact ih (h.resolve_left fun hno => hno hb)
      | false => exact ⟨c, s, List.dropWhile_cons_of_neg (Bool.eq_false_iff.1 hb), hc⟩
    | false =>
      rw [List.takeWhile_cons_of_neg (Bool.eq_false_iff.1 hc)] at h
      exact absurd rfl h

theorem hits_tenantValueRe (hs : Parted isSpace s) : (hits tenantValueRe last s).head?.map (·.groups.headD []) =
      some (if (s.takeWhile isSpace).all isBlank then (textWords s).head?.getD [] else []) := by
  have hgroup (last : Option Char) (c : Char) (t : Text) (hc : isSpace c = true) :
      hits (.group (plus fun c => !isSpace c)) last (c :: t) = [] := by simp [hits, plus, hc]
  have hopt {r : Re} (h : hits r last s = []) : (hits (opt r) last s).head?.map (·.groups.headD []) = some [] := by
    rw [opt, hits, h]
    rfl
  cases s with
  | nil => rfl
  | cons c s =>
    have hc := hs c rfl
    cases hb : isBlank c with
    | false =>
      rw [List.takeWhile_cons_of_pos hc, List.all_cons, hb]
      exact hopt (hits_plus_seq_nil hb)
    | true =>
      obtain ⟨last', hh⟩ := hits_plus_seq
        (fun last c t hc => hgroup last c t (isSpace_of_isBlank hc)) hb last s
      rw [List.takeWhile_cons_of_pos hc, List.all_cons, hb]
      split
      · next hall =>
        rw [dropWhile_isBlank hall] at hh
        unfold textWords
        rw [words_space hc]
        cases hws : words isSpace s with
        | nil =>
          rw [dropWhile_of_words_nil hws] at hh
          exact hopt hh
        | cons b ws =>
          obtain ⟨hbne, hbless, rest, hrest, hparted⟩ := dropWhile_of_words hws
          obtain ⟨d, b, rfl⟩ := List.exists_cons_of_ne_nil hbne
          have hd : (!isSpace d) = true := by rw [hbless d List.mem_cons_self]; rfl
          have hvalue : (hits (.group (plus fun c => !isSpace c)) last' (d :: (b ++ rest))).head?.map
              (·.groups.headD []) = some (d :: b) := by
            rw [head?_hits_plus hd, ← List.cons_append]
            congr 1
            have hless : ∀ c ∈ d :: b, (!isSpace c) = true := fun c hc => by rw [hbless c hc]; rfl
            rw [List.takeWhile_append_of_pos hless, hparted.takeWhile (by simp), List.append_nil]
          rw [hrest, List.cons_append] at hh
          rw [tenantValueRe, opt, hits, hh, List.head?_append, Option.map_or, hvalue]
          rfl
      · next hall =>
        obtain ⟨d, t, hdrop, hd⟩ := exists_dropWhile_isBlank hall
        rw [hdrop, hgroup last' d t hd] at hh
        exact hopt hh

theorem hits_tenantFlag (flag : Text) (last : Option Char) (hw : Spaceless isSpace w) (hs : Parted isSpace s) (hflag : Spaceless isSpace flag) :
    (hits (.seq (lit flag) tenantValueRe) last (w ++ s)).head?.map (·.groups.headD []) =
      if startsWith flag w then
        some (if foldMatch flag w && (s.takeWhile isSpace).all isBlank then (textWords s).head?.getD [] else [])
      else none := by
  cases hstart : startsWith flag w with
  | false =>
    have hnil : hits (.seq (lit flag) tenantValueRe) last (w ++ s) = [] := by
      refine hits_seq_nil ?_
      rw [hits_lit_eq, startsWith_append hflag hs, hstart]
      rfl
    rw [hnil]
    rfl
  | true =>
    obtain ⟨u, v, rfl, hu⟩ : ∃ u v, w = u ++ v ∧ foldMatch flag u = true :=
      ⟨w.take flag.length, w.drop flag.length, (List.take_append_drop _ _).symm, hstart⟩
    rw [List.append_assoc, hits_lit_seq hu, if_pos rfl]
    cases v with
    | nil => rw [List.nil_append, List.append_nil, hits_tenantValueRe hs, hu, Bool.true_and]
    | cons c v =>
      have hc : isBlank c = false := by
        rw [Bool.eq_false_iff]
        exact fun hb => hw.not_mem (isSpace_of_isBlank hb) (by simp)
      have hlonger : foldMatch flag (u ++ c :: v) = false := by
        rw [Bool.eq_false_iff]
        intro h
        have hlen := (length_of_foldMatch h).trans (length_of_foldMatch hu).symm
        rw [List.length_append, List.length_cons] at hlen
        omega
      rw [hlonger, List.cons_append, tenantValueRe, opt, hits, hits_plus_seq_nil hc]
      rfl

theorem hits_tenantFlagRe (last : Option Char) (hw : Spaceless isSpace w) (hs : Parted isSpace s) :
    (hits tenantFlagRe last (w ++ s)).head?.map (·.groups.headD []) =
      if beginsTenant w then some (tenantValue ⟨w, s.takeWhile isSpace⟩ (textTokens s)) else none := by
  have hlong := hits_tenantFlag "--tenant".toList last hw hs (by decide)
  have hshort := hits_tenantFlag "-t".toList last hw hs (by decide)
  have hsplit : hits tenantFlagRe last (w ++ s) = hits (.seq (lit "--tenant".toList) tenantValueRe) last (w ++ s) ++
      hits (.seq (lit "-t".toList) tenantValueRe) last (w ++ s) := by
    simp only [tenantFlagRe, hits, List.flatMap_append]
  have hnext : (textTokens s).head?.elim [] (·.word) = (textWords s).head?.getD [] := by
    unfold textWords words textTokens
    cases tokens isSpace s <;> rfl
  have hexcl (h : startsWith "--tenant".toList w = true) : startsWith "-t".toList w = false := by
    obtain ⟨c, d, u, rfl⟩ : ∃ c d u, w = c :: d :: u := by
      rcases w with _ | ⟨c, _ | ⟨d, u⟩⟩
      · cases h
      · simp [startsWith, foldMatch] at h
      · exact ⟨c, d, u, rfl⟩
    simp [startsWith, foldMatch, fold] at h ⊢
    intro _
    rw [h.2.1]
    decide
  have hmatch {f : Text} (h : foldMatch f w = true) : startsWith f w = true := by
    rw [startsWith, ← length_of_foldMatch h, List.take_length]
    exact h
  have hfull := hmatch (f := "--tenant".toList)
  have hbrief := hmatch (f := "-t".toList)
  rw [hsplit, List.head?_append, Option.map_or, hlong, hshort, beginsTenant, tenantValue, isTenantFlag, hnext]
  generalize startsWith "--tenant".toList w = a, startsWith "-t".toList w = b, foldMatch "--tenant".toList w = c,
    foldMatch "-t".toList w = d at *
  cases a with
  | true =>
    obtain rfl := hexcl rfl
    obtain rfl : d = false := Bool.eq_false_iff.2 fun h => Bool.false_ne_true (hbrief h)
    rw [Bool.or_false, Bool.or_false]
    rfl
  | false =>
    obtain rfl : c = false := Bool.eq_false_iff.2 fun h => Bool.false_ne_true (hfull h)
    rfl

theorem hits_tenantFlagRe_nil (hs : Parted isSpace s) : hits tenantFlagRe last s = [] := by
  have hhead := hits_tenantFlagRe last (w := []) nofun hs
  exact List.head?_eq_none_iff.1 (Option.map_eq_none_iff.1 hhead)

theorem hits_tenantFlagRegex_def : hits tenantFlagRegex last s =
    (hits (.alt (.look atStart) (.char isSpace)) last s).flatMap fun h =>
      (hits tenantFlagRe h.last h.rest).map fun k => { k with groups := h.groups ++ k.groups } := rfl

theorem hits_tenantFlagRegex {l d : Char} :
    hits tenantFlagRegex (some l) (d :: s) = if isSpace d then hits tenantFlagRe (some d) s else [] := by
  rw [hits_tenantFlagRegex_def]
  cases hd : isSpace d <;> simp [hits, atStart, hd]

theorem hits_tenantFlagRegex_none : hits tenantFlagRegex none s = hits tenantFlagRe none s ++
      s.head?.elim [] fun d => if isSpace d then hits tenantFlagRe (some d) s.tail else [] := by
  rw [hits_tenantFlagRegex_def]
  cases s with
  | nil => simp [hits, atStart]
  | cons d s => cases hd : isSpace d <;> simp [hits, atStart, hd]

theorem submatchFrom_tenant_last (l l' : Char) :
    submatchFrom tenantFlagRegex (some l) s = submatchFrom tenantFlagRegex (some l') s := by
  cases s with
  | nil => rfl
  | cons d s => rw [submatchFrom_cons, submatchFrom_cons, hits_tenantFlagRegex, hits_tenantFlagRegex]

theorem submatchFrom_tenant_word (hw : Spaceless isSpace w) (l : Char) :
    submatchFrom tenantFlagRegex (some l) (w ++ s) = submatchFrom tenantFlagRegex (some l) s := by
  induction w generalizing l with
  | nil => rfl
  | cons c w ih =>
    rw [List.cons_append, submatchFrom_cons, hits_tenantFlagRegex, hw c List.mem_cons_self,
      ih fun d hd => hw d (List.mem_cons_of_mem _ hd)]
    exact submatchFrom_tenant_last c l

theorem submatchFrom_tenant (l : Char) {d : Char} (hd : isSpace d = true) (s : Text) :
    submatchFrom tenantFlagRegex (some l) (d :: s) = looseTenant (textTokens s) := by
  unfold textTokens
  induction s using word_induction generalizing l d with
  | nil =>
    rw [submatchFrom_cons, hits_tenantFlagRegex, if_pos hd]
    rfl
  | space c s hc ih =>
    rw [submatchFrom_cons, hits_tenantFlagRegex, if_pos hd, hits_tenantFlagRe_nil (.cons hc), tokens_space hc,
      List.head?_nil, Option.map_none, Option.none_or, ih d hc]
  | word w s hne hw hs ih =>
    rw [submatchFrom_cons, hits_tenantFlagRegex, if_pos hd, hits_tenantFlagRe _ hw hs, tokens_word hne hw hs,
      submatchFrom_tenant_word hw]
    -- what is left after the word is found as after white space
    have hrest : submatchFrom tenantFlagRegex (some d) s = looseTenant (tokens isSpace s) := by
      rw [← ih d hd, submatchFrom_cons, hits_tenantFlagRegex, if_pos hd, hits_tenantFlagRe_nil hs]
      rfl
    rw [hrest, looseTenant]
    cases beginsTenant w <;> rfl

theorem submatchFrom_tenant_parted (l : Char) (hs : Parted isSpace s) :
    submatchFrom tenantFlagRegex (some l) s = looseTenant (textTokens s) := by
  cases s with
  | nil => rfl
  | cons c s =>
    have hc := hs c rfl
    rw [submatchFrom_tenant l hc]
    unfold textTokens
    rw [tokens_space hc]

theorem submatch_tenantFlagRegex (s : Text) : submatch tenantFlagRegex s = looseTenant (textTokens s) := by
  show submatchFrom tenantFlagRegex none s = _
  cases s with
  | nil => rfl
  | cons c s =>
    cases hc : isSpace c with
    | true =>
      have hsame : submatchFrom tenantFlagRegex none (c :: s) = submatchFrom tenantFlagRegex (some c) (c :: s) := by
        rw [submatchFrom_cons, submatchFrom_cons, hits_tenantFlagRegex, hits_tenantFlagRegex_none,
          hits_tenantFlagRe_nil (.cons hc)]
        rfl
      rw [hsame, submatchFrom_tenant_parted c (.cons hc)]
    | false =>
      -- the text begins with a word
      obtain ⟨w, t, rfl, hw, ht⟩ : ∃ w t, s = w ++ t ∧ Spaceless isSpace w ∧ Parted isSpace t :=
        exists_word_append s
      have hcw : Spaceless isSpace (c :: w) := fun e he => (List.mem_cons.1 he).elim (fun h => h ▸ hc) (hw e)
      have hhere := hits_tenantFlagRe none hcw ht
      rw [List.cons_append] at hhere
      have hstart : hits tenantFlagRegex none (c :: (w ++ t)) = hits tenantFlagRe none (c :: (w ++ t)) := by
        rw [hits_tenantFlagRegex_none]
        simp [hc]
      have htokens : textTokens (c :: (w ++ t)) = ⟨c :: w, t.takeWhile isSpace⟩ :: textTokens t :=
        tokens_word (List.cons_ne_nil c w) hcw ht
      rw [submatchFrom_cons, hstart, hhere, submatchFrom_tenant_word hw, submatchFrom_tenant_parted c ht,
        htokens, looseTenant]
      cases beginsTenant (c :: w) <;> rfl

end

end SchemaBot.Webhook
