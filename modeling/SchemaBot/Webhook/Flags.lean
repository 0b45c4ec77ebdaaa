import SchemaBot.Webhook.Fences
import SchemaBot.Webhook.FlagWords

/-!
# Flags as words

A reader of a comment takes a flag for one of the words after the command, and its value for the next word.
-/

namespace SchemaBot.Webhook

open Regex Words

/-! ## Whole words -/

def isFlag (flag word : Text) : Bool := word.map Char.toLower = flag

def wholeValue (flag : Text) (accepts : Text → Bool) : List Text → Option Text
  | [] => none
  | a :: ws => (if isFlag flag a then ws.head?.filter accepts else none).or (wholeValue flag accepts ws)

def isEnvironment (word : Text) : Bool := isFlag "staging".toList word || isFlag "production".toList word

def wholeEnvironment (args : List Text) : Option Text := (wholeValue "-e".toList isEnvironment args).map lowerCase

def wholeDatabase (args : List Text) : Option Text := wholeValue "-d".toList (fun _ => true) args

def isTenantWord (word : Text) : Bool := isFlag "--tenant".toList word || isFlag "-t".toList word

def wholeTenant : List Text → Text × Bool
  | [] => ([], false)
  | a :: ws =>
    if isTenantWord a then
      ws.head?.elim ([], true) fun b => if isMatch tenantRegex b then (b, false) else ([], true)
    else wholeTenant ws

section
variable {f w : Text} {c : Char}

theorem toLower_eq_dash (h : c.toLower = '-') : c = '-' := by
  unfold Char.toLower at h
  split at h
  · next hupper =>
    have hval : c.val + ('a'.val - 'A'.val) = '-'.val := congrArg Char.val h
    have hlow := hupper.1
    have hhigh := hupper.2
    exfalso
    grind
  · exact h

theorem isWordChar_of_toLower (h : isWordChar c.toLower = true) : isWordChar c = true := by
  unfold Char.toLower at h
  split at h
  · next hupper =>
    have hup : c.isUpper = true := decide_eq_true hupper
    show (((c.isUpper || c.isLower) || c.isDigit) || decide (c = '_')) = true
    rw [hup]
    rfl
  · exact h

theorem foldMatch_of_isFlag (h : isFlag f w = true) : foldMatch f w = true := by
  rw [isFlag, decide_eq_true_eq] at h
  subst h
  induction w with
  | nil => rfl
  | cons c w ih =>
    rw [List.map_cons, foldMatch, ih]
    simp [fold]

theorem isFlag_of_foldMatch (hs : 's' ∉ f) (hk : 'k' ∉ f) (h : foldMatch f w = true) : isFlag f w = true := by
  rw [isFlag, decide_eq_true_eq]
  induction f generalizing w with
  | nil =>
    obtain rfl := List.eq_nil_of_length_eq_zero (length_of_foldMatch h)
    rfl
  | cons a f ih =>
    cases w with
    | nil => cases h
    | cons c w =>
      rw [foldMatch, Bool.and_eq_true] at h
      rw [List.mem_cons, not_or] at hs hk
      have ha : c.toLower = a := by simpa [fold, Ne.symm hs.1, Ne.symm hk.1] using h.1
      rw [List.map_cons, ha, ih hs.2 hk.2 h.2]

theorem isTenantFlag_eq : isTenantFlag w = isTenantWord w := by
  rw [Bool.eq_iff_iff, isTenantFlag, isTenantWord, Bool.or_eq_true, Bool.or_eq_true]
  exact ⟨Or.imp (isFlag_of_foldMatch (by decide) (by decide)) (isFlag_of_foldMatch (by decide) (by decide)),
    Or.imp foldMatch_of_isFlag foldMatch_of_isFlag⟩

theorem HoldsFlag.of_isFlag (hf : f.getLast?.any isWordChar = true) (h : isFlag f w = true) : HoldsFlag f w := by
  refine ⟨[], w, [], by rw [List.nil_append, List.append_nil], foldMatch_of_isFlag h, ?_⟩
  rw [isFlag, decide_eq_true_eq] at h
  subst h
  rw [List.getLast?_map] at hf
  have hlast : w.getLast?.any isWordChar = true := by
    cases hl : w.getLast? with
    | none =>
      rw [hl] at hf
      cases hf
    | some c =>
      rw [hl] at hf
      exact isWordChar_of_toLower hf
  simp [wordBoundary, hlast]

end

/-! ## Flags without a value -/

def HasFlag (flags : List Text) (ws : List Text) : Prop := ∃ w ∈ ws, ∃ f ∈ flags, isFlag f w = true

def HoldsOne (flags : List Text) (ws : List Text) : Prop := ∃ w ∈ ws, ∃ f ∈ flags, HoldsFlag f w

section
variable {flags : List Text} {ws : List Text} {s : Text} {n : Nat}

theorem HasFlag.holdsOne (hf : ∀ f ∈ flags, f.getLast?.any isWordChar = true)
    (h : HasFlag flags (ws.drop n)) : HoldsOne flags ws := by
  obtain ⟨w, hw, f, hfm, hflag⟩ := h
  exact ⟨w, List.mem_of_mem_drop hw, f, hfm, .of_isFlag (hf f hfm) hflag⟩

theorem isMatch_flag {f : Text} (hne : f ≠ []) (hless : Spaceless isSpace f) :
    isMatch (flagRegex f) s = true ↔ HoldsOne [f] (textWords s) := by
  rw [isMatch_flagRegex hne hless]
  exact exists_congr fun w => and_congr_right fun _ => by simp

theorem isMatch_autoConfirm :
    isMatch autoConfirmRegex s = true ↔ HoldsOne ["--yes".toList, "-y".toList] (textWords s) := by
  rw [autoConfirmRegex, isMatch_alt, Bool.or_eq_true, isMatch_flagRegex (by decide) (by decide),
    isMatch_flagRegex (by decide) (by decide)]
  constructor
  · rintro (⟨w, hw, h⟩ | ⟨w, hw, h⟩)
    · exact ⟨w, hw, _, List.mem_cons_self, h⟩
    · exact ⟨w, hw, _, List.mem_cons_of_mem _ List.mem_cons_self, h⟩
  · rintro ⟨w, hw, f, hf, h⟩
    rcases List.mem_cons.1 hf with rfl | hf
    · exact .inl ⟨w, hw, h⟩
    · obtain rfl := List.mem_singleton.1 hf
      exact .inr ⟨w, hw, h⟩

theorem read_flag_iff {r : Re} (hr : isMatch r s = true ↔ HoldsOne flags (textWords s))
    (hf : ∀ f ∈ flags, f.getLast?.any isWordChar = true) :
    (isMatch r s = true ↔ HasFlag flags ((textWords s).drop n)) ↔
      (HoldsOne flags (textWords s) → HasFlag flags ((textWords s).drop n)) := by
  rw [hr]
  exact ⟨fun h => h.1, fun h => ⟨h, fun hflag => hflag.holdsOne hf⟩⟩

end

/-! ## Flags with a value -/

def environmentValue : Re := .alt (lit "staging".toList) (lit "production".toList)

def looseEnvironment (ws : List Text) : Option Text :=
  (looseValue "-e".toList environmentValue ws).map lowerCase

def looseDatabase (ws : List Text) : Option Text := looseValue "-d".toList (plus isNameChar) ws

section
variable {flag : Text} {value : Re} {accepts : Text → Bool} {ws : List Text} {s : Text} {n : Nat} {v : Text}

theorem submatch_environmentRegex : (submatch environmentRegex s).map lowerCase = looseEnvironment (textWords s) := by
  have hv : ReadsWord environmentValue := readsWord_alt (by decide) (by decide) (by decide) (by decide)
  have hfound : submatch (valueRegex "-e".toList environmentValue) s = _ :=
    submatch_valueRegex (by decide) (by decide) hv s
  exact congrArg (Option.map lowerCase) hfound

theorem submatch_databaseRegex : submatch databaseRegex s = looseDatabase (textWords s) := by
  have hname (c : Char) (hc : isSpace c = true) : isNameChar c = false := by
    simp only [isSpace, Bool.or_eq_true, decide_eq_true_eq] at hc
    rcases hc with (((rfl | rfl) | rfl) | rfl) | rfl <;> decide
  exact submatch_valueRegex (by decide) (by decide) (readsWord_plus hname) s

theorem mem_of_wholeValue {b : Text} (h : wholeValue flag accepts ws = some b) : b ∈ ws := by
  induction ws with
  | nil => cases h
  | cons a ws ih =>
    rcases Option.or_eq_some_iff.1 h with h | ⟨-, h⟩
    · split at h
      · cases ws with
        | nil => cases h
        | cons c ws =>
          obtain ⟨hc, -⟩ := Option.filter_eq_some_iff.1 h
          obtain rfl := Option.some_inj.1 hc
          exact List.mem_cons_of_mem _ List.mem_cons_self
      · cases h
    · exact List.mem_cons_of_mem _ (ih h)

theorem exists_of_looseValue (h : looseValue flag value ws = some v) : ∃ b, readValue value b = some v := by
  induction ws with
  | nil => cases h
  | cons a ws ih =>
    rcases Option.or_eq_some_iff.1 h with h | ⟨-, h⟩
    · split at h
      · obtain ⟨b, -, hb⟩ := Option.bind_eq_some_iff.1 h
        exact ⟨b, hb⟩
      · cases h
    · exact ih h

theorem looseEnvironment_ne_nil (h : looseEnvironment ws = some v) : v ≠ [] := by
  obtain ⟨u, hu, rfl⟩ := Option.map_eq_some_iff.1 h
  obtain ⟨b, hb⟩ := exists_of_looseValue hu
  have hne : u ≠ [] := by
    rw [environmentValue, readValue_alt] at hb
    split at hb
    · next hs =>
      obtain rfl := Option.some_inj.1 hb
      exact ne_nil_of_foldMatch (by decide) hs
    · split at hb
      · next hs =>
        obtain rfl := Option.some_inj.1 hb
        exact ne_nil_of_foldMatch (by decide) hs
      · cases hb
  exact fun hnil => hne (List.map_eq_nil_iff.1 hnil)

theorem looseDatabase_ne_nil (h : looseDatabase ws = some v) : v ≠ [] := by
  obtain ⟨b, hb⟩ := exists_of_looseValue h
  rw [readValue_plus] at hb
  split at hb
  · cases hb
  · next hne =>
    obtain rfl := Option.some_inj.1 hb
    exact hne

theorem getD_eq_getD_iff {a b : Option Text} (ha : ∀ v, a = some v → v ≠ []) (hb : ∀ v, b = some v → v ≠ []) :
    a.getD [] = b.getD [] ↔ a = b := by
  cases a with
  | none =>
    cases b with
    | none => exact ⟨fun _ => rfl, fun _ => rfl⟩
    | some v => exact ⟨fun h => absurd h.symm (hb v rfl), nofun⟩
  | some u =>
    cases b with
    | none => exact ⟨fun h => absurd h (ha u rfl), nofun⟩
    | some v => exact ⟨fun h => congrArg some h, fun h => Option.some_inj.1 h⟩

theorem read_environment_iff :
    ((submatch environmentRegex s).map lowerCase).getD [] = (wholeEnvironment ((textWords s).drop n)).getD [] ↔
      looseEnvironment (textWords s) = wholeEnvironment ((textWords s).drop n) := by
  rw [submatch_environmentRegex]
  refine getD_eq_getD_iff (fun v => looseEnvironment_ne_nil) fun v hv => ?_
  obtain ⟨b, hb, rfl⟩ := Option.map_eq_some_iff.1 hv
  have hword := exists_of_mem_words (List.mem_of_mem_drop (mem_of_wholeValue hb))
  exact fun hnil => hword.1 (List.map_eq_nil_iff.1 hnil)

theorem read_database_iff : (submatch databaseRegex s).getD [] = (wholeDatabase ((textWords s).drop n)).getD [] ↔
      looseDatabase (textWords s) = wholeDatabase ((textWords s).drop n) := by
  rw [submatch_databaseRegex]
  refine getD_eq_getD_iff (fun v => looseDatabase_ne_nil) fun v hv => ?_
  exact (exists_of_mem_words (List.mem_of_mem_drop (mem_of_wholeValue hv))).1

end

/-! ## Tenants -/

def TenantWhole : List (Token Char) → Prop
  | [] => True
  | t :: ts => if beginsTenant t.word then isTenantFlag t.word = true ∧ t.gap.all isBlank = true else TenantWhole ts

/-- What `extractTenant` makes of the text that it finds. -/
def checkTenant : Option Text → Text × Bool
  | none => ([], false)
  | some value => if value = [] ∨ !isMatch tenantRegex value then ([], true) else (value, false)

section
variable {ts : List (Token Char)} {line : Text}

theorem extractTenant_eq : extractTenant line = checkTenant (looseTenant (textTokens line)) := by
  unfold extractTenant
  rw [submatch_tenantFlagRegex]
  cases looseTenant (textTokens line) <;> rfl

theorem beginsTenant_of_isTenantWord {w : Text} (h : isTenantWord w = true) : beginsTenant w = true := by
  have hstarts {f : Text} (hf : isFlag f w = true) : startsWith f w = true := by
    have hm := foldMatch_of_isFlag hf
    rw [startsWith, ← length_of_foldMatch hm, List.take_length]
    exact hm
  rw [isTenantWord, Bool.or_eq_true] at h
  rw [beginsTenant, Bool.or_eq_true]
  exact h.imp hstarts hstarts

theorem checkTenant_of_whole (hne : ∀ t ∈ ts, t.word ≠ []) (h : TenantWhole ts) :
    checkTenant (looseTenant ts) = wholeTenant (ts.map (·.word)) := by
  induction ts with
  | nil => rfl
  | cons t ts ih =>
    rw [TenantWhole] at h
    rw [looseTenant, List.map_cons, wholeTenant, ← isTenantFlag_eq]
    cases hb : beginsTenant t.word with
    | false =>
      have hno : isTenantFlag t.word = false := by
        rw [isTenantFlag_eq, Bool.eq_false_iff]
        intro hw
        rw [beginsTenant_of_isTenantWord hw] at hb
        cases hb
      rw [hb] at h
      rw [hno]
      exact ih (fun u hu => hne u (List.mem_cons_of_mem _ hu)) h
    | true =>
      rw [hb] at h
      rw [tenantValue, h.1, h.2]
      cases ts with
      | nil => rfl
      | cons u ts =>
        have hu : u.word ≠ [] := hne u (List.mem_cons_of_mem _ List.mem_cons_self)
        simp only [checkTenant, List.head?_cons, Option.elim_some, Bool.and_self, if_true, List.map_cons, hu]
        cases isMatch tenantRegex u.word <;> rfl

theorem checkTenant_of_not_whole (h : ¬ TenantWhole ts) : checkTenant (looseTenant ts) = ([], true) := by
  induction ts with
  | nil => exact absurd trivial h
  | cons t ts ih =>
    rw [TenantWhole] at h
    rw [looseTenant]
    cases hb : beginsTenant t.word with
    | false =>
      rw [hb] at h
      exact ih h
    | true =>
      rw [hb, if_pos rfl, ← Bool.and_eq_true] at h
      rw [tenantValue, if_neg h]
      rfl

theorem wholeTenant_cons {a : Text} {ws : List Text} (h : beginsTenant a = false) :
    wholeTenant (a :: ws) = wholeTenant ws := by
  have hno : ¬ isTenantWord a = true := fun hw => by
    rw [beginsTenant_of_isTenantWord hw] at h
    cases h
  rw [wholeTenant, if_neg hno]

end

/-! ## The words of a command -/

section
variable {line : Text}

theorem runsOf_upToThreeSpaces : RunsOf (· = ' ') upToThreeSpaces :=
  .opt (.seq .char (.opt (.seq .char (.opt .char))))

theorem head?_of_beginsTenant {w : Text} (h : beginsTenant w = true) : w.head? = some '-' := by
  cases w with
  | nil => cases h
  | cons c w =>
    rw [beginsTenant, Bool.or_eq_true] at h
    have hdash : fold '-' c = true := by
      rcases h with h | h
      · exact (Bool.and_eq_true_iff.1 h).1
      · exact (Bool.and_eq_true_iff.1 h).1
    have hlower : c.toLower = '-' := by simpa [fold] using hdash
    rw [toLower_eq_dash hlower]
    rfl

theorem beginsTenant_of_foldMatch {a : Char} {f v x : Text} (ha : a ≠ '-') (h : foldMatch (a :: f) v = true) :
    beginsTenant (v ++ x) = false := by
  rw [Bool.eq_false_iff]
  intro hb
  cases v with
  | nil => cases h
  | cons c v =>
    obtain rfl := Option.some_inj.1 (head?_of_beginsTenant hb)
    have hfold := (Bool.and_eq_true_iff.1 h).1
    have hs : ¬ '-' = 'ſ' := by decide
    have hk : ¬ '-' = 'K' := by decide
    have hlower : '-'.toLower = a := by simpa [fold] using hfold
    exact ha hlower.symm

theorem exists_of_hits_alts {names : List Text} {last : Option Char} {s : Text}
    (h : hits (.group (alts (names.map lit))) last s ≠ []) :
    ∃ name ∈ names, ∃ v rest, s = v ++ rest ∧ foldMatch name v = true := by
  have halts : hits (alts (names.map lit)) last s ≠ [] := fun hnil => h (by rw [hits, hnil]; rfl)
  clear h
  induction names with
  | nil =>
    cases s with
    | nil | cons c s => exact absurd rfl halts
  | cons name names ih =>
    rw [List.map_cons, alts, hits, ne_eq, List.append_eq_nil_iff, not_and_or] at halts
    rcases halts with h | h
    · obtain ⟨v, rest, hs, hv⟩ := exists_of_hits_lit h
      exact ⟨name, List.mem_cons_self, v, rest, hs, hv⟩
    · obtain ⟨n, hn, hv⟩ := ih h
      exact ⟨n, List.mem_cons_of_mem _ hn, hv⟩

theorem tokens_of_command (hline : '\n' ∉ line) (h : isMatch commandRegex line = true) :
    ∃ t u ts, textTokens line = t :: u :: ts ∧ beginsTenant t.word = false ∧ beginsTenant u.word = false := by
  obtain ⟨pre, rest, rfl, hmatch⟩ := isMatch_iff.1 h
  obtain ⟨k, hk, hindent⟩ := exists_of_hits_seq hmatch
  -- the match begins with the line
  have hpre : pre = [] ∧ k = ⟨none, rest, []⟩ := by
    rw [hits] at hk
    split at hk
    · next hstart =>
      have hnil : pre = [] := by
        by_contra hne
        rw [List.getLast?_eq_some_getLast hne] at hstart
        have hlast : pre.getLast hne = '\n' := by simpa [atLineStart] using hstart
        exact hline (List.mem_append_left _ (hlast ▸ List.getLast_mem hne))
      subst hnil
      exact ⟨rfl, List.mem_singleton.1 hk⟩
    · cases hk
  obtain ⟨rfl, rfl⟩ := hpre
  obtain ⟨k, hk, hbot⟩ := exists_of_hits_seq hindent
  obtain ⟨g, rfl, hg⟩ := runsOf_upToThreeSpaces _ _ k hk
  obtain ⟨u, s, hu, hum, hblanks⟩ := exists_of_hits_lit_seq hbot
  obtain ⟨k', hk', hcommand⟩ := exists_of_hits_seq hblanks
  obtain ⟨c, t, rfl, hc⟩ : ∃ c t, s = c :: t ∧ isBlank c = true := by
    cases s with
    | nil => cases hk'
    | cons c t =>
      refine ⟨c, t, rfl, ?_⟩
      by_contra hno
      simp [hits, plus, hno] at hk'
  obtain ⟨gap, hgap, hblank⟩ := (RunsOf.char).seq .many _ _ k' hk'
  obtain ⟨k'', hk'', -⟩ := exists_of_hits_seq hcommand
  obtain ⟨name, hname, v, x, hv, hvm⟩ := exists_of_hits_alts (List.ne_nil_of_mem hk'')
  have hnames : ∀ name ∈ (commandSpecs.map (·.name.text)).insertionSort (fun a b => b.length ≤ a.length),
      ∃ a f, name = a :: f ∧ a ≠ '-' ∧ Spaceless isSpace name := by
    intro name hname
    rw [List.mem_insertionSort] at hname
    obtain ⟨spec, -, rfl⟩ := List.mem_map.1 hname
    cases spec.name <;> exact ⟨_, _, rfl, by decide, by decide⟩
  obtain ⟨a, f, rfl, ha, hless⟩ := hnames name hname
  obtain ⟨y, z, rfl, hy, hz⟩ := exists_word_append x
  have huless := spaceless_of_foldMatch (by decide) hum
  have hvless : Spaceless isSpace (v ++ y) := fun d hd =>
    (List.mem_append.1 hd).elim (spaceless_of_foldMatch hless hvm d) (hy d)
  have hspace : ∀ d ∈ g, isSpace d = true := fun d hd => by
    have hd' : d = ' ' := by simpa using hg d hd
    rw [hd']
    rfl
  have hsecond : textTokens k'.rest = ⟨v ++ y, z.takeWhile isSpace⟩ :: textTokens z := by
    rw [hv, ← List.append_assoc]
    exact tokens_word (fun hnil => ne_nil_of_foldMatch (List.cons_ne_nil a f) hvm (List.append_eq_nil_iff.1 hnil).1)
      hvless hz
  have hafter : textTokens (c :: t) = textTokens k'.rest := by
    rw [hgap]
    exact tokens_spaces (fun d hd => isSpace_of_isBlank (hblank d hd)) k'.rest
  have hfirst : textTokens k.rest = ⟨u, (c :: t).takeWhile isSpace⟩ :: textTokens (c :: t) := by
    rw [hu]
    exact tokens_word (ne_nil_of_foldMatch (by decide) hum) huless (.cons (isSpace_of_isBlank hc))
  refine ⟨⟨u, (c :: t).takeWhile isSpace⟩, ⟨v ++ y, z.takeWhile isSpace⟩, textTokens z, ?_, ?_,
    beginsTenant_of_foldMatch ha hvm⟩
  · rw [← hsecond, ← hafter, ← hfirst]
    exact tokens_spaces hspace k.rest
  · have hbegin := beginsTenant_of_foldMatch (x := []) (by decide) hum
    rwa [List.append_nil] at hbegin

theorem read_tenant_iff (hline : '\n' ∉ line) (h : isMatch commandRegex line = true) :
    extractTenant line = wholeTenant ((textWords line).drop 2) ↔
      TenantWhole (textTokens line) ∨ wholeTenant ((textWords line).drop 2) = ([], true) := by
  have hwords : wholeTenant ((textTokens line).map (·.word)) = wholeTenant ((textWords line).drop 2) := by
    obtain ⟨t, u, ts, htokens, ht, hu⟩ := tokens_of_command hline h
    have hws : textWords line = (textTokens line).map (·.word) := rfl
    rw [hws, htokens, List.map_cons, List.map_cons, wholeTenant_cons ht, wholeTenant_cons hu]
    rfl
  have hne : ∀ t ∈ textTokens line, t.word ≠ [] := fun t ht =>
    (exists_of_mem_words (List.mem_map_of_mem ht)).1
  rw [extractTenant_eq]
  by_cases hwhole : TenantWhole (textTokens line)
  · rw [checkTenant_of_whole hne hwhole, hwords]
    exact ⟨fun _ => .inl hwhole, fun _ => rfl⟩
  · rw [checkTenant_of_not_whole hwhole]
    exact ⟨fun heq => .inr heq.symm, fun heq => (heq.resolve_left hwhole).symm⟩

end

/-! ## Text outside the directive -/

def Refused (action : Option CommandName) (ws : List Text) : Prop :=
  (action ≠ some .apply ∧ HoldsOne ["--yes".toList, "-y".toList] ws) ∨
    (action = some .rollback ∧ HoldsOne ["--defer-cutover".toList] ws) ∨
    (action.any commandSupportsDatabaseFlag = false ∧ (looseDatabase ws).isSome = true)

def isRunnable : Option CommandName → Bool
  | none | some .fixLint | some .help | some .revert | some .skipRevert => false
  | _ => true

section
variable {settings : CommentSettings} {result r : ParsedCommand} {body line s : Text}

theorem isMatch_databaseRegex : isMatch databaseRegex s = (looseDatabase (textWords s)).isSome := by
  rw [← submatch_databaseRegex]
  unfold submatch isMatch
  rw [Option.isSome_map]

theorem runOutcome_eq_started : runOutcome result s = .started r ↔
      ¬ Refused result.action (textWords s) ∧ isRunnable result.action = true ∧ r = result := by
  have hdefer : isMatch deferCutoverRegex s = true ↔ HoldsOne ["--defer-cutover".toList] (textWords s) :=
    isMatch_flag (by decide) (by decide)
  unfold runOutcome
  split
  · next h =>
    have hrefused : Refused result.action (textWords s) := .inl ⟨h.1, isMatch_autoConfirm.1 h.2⟩
    exact ⟨nofun, fun hno => absurd hrefused hno.1⟩
  · next hauto =>
    split
    · next h =>
      have hrefused : Refused result.action (textWords s) := .inr (.inl ⟨h.1, hdefer.1 h.2⟩)
      exact ⟨nofun, fun hno => absurd hrefused hno.1⟩
    · next hcut =>
      have hdatabase : (!result.action.any commandSupportsDatabaseFlag) = true ∧ hasDatabaseFlag s = true ↔
          result.action.any commandSupportsDatabaseFlag = false ∧ (looseDatabase (textWords s)).isSome = true := by
        rw [Bool.not_eq_true', hasDatabaseFlag, isMatch_databaseRegex]
      split
      · next h =>
        have hrefused : Refused result.action (textWords s) := .inr (.inr (hdatabase.1 h))
        exact ⟨nofun, fun hno => absurd hrefused hno.1⟩
      · next hdb =>
        have hnone : ¬ Refused result.action (textWords s) := by
          rintro (h | h | h)
          · exact hauto ⟨h.1, isMatch_autoConfirm.2 h.2⟩
          · exact hcut ⟨h.1, hdefer.2 h.2⟩
          · exact hdb (hdatabase.2 h)
        rw [and_iff_right hnone]
        obtain ⟨action, haction⟩ : ∃ action, result.action = action := ⟨_, rfl⟩
        simp only [haction]
        rcases action with _ | action
        · simp [isRunnable]
        · cases action <;> simp [isRunnable, eq_comm]

theorem commentGate_ne_started : commentGate settings result ≠ some (.started r) := by
  have hite {c : Prop} [Decidable c] {a b : Option CommentOutcome} (ha : a ≠ some (.started r))
      (hb : b ≠ some (.started r)) : (if c then a else b) ≠ some (.started r) := by
    split
    · exact ha
    · exact hb
  have hmissing : some (missingEnvOutcome result) ≠ some (.started r) := by
    unfold missingEnvOutcome
    split
    · exact nofun
    · split <;> exact nofun
    · exact nofun
    · exact nofun
  refine hite nofun (hite nofun (hite nofun (hite nofun (hite nofun (hite (hite nofun nofun) ?_)))))
  exact hite hmissing (hite nofun (hite nofun (hite (hite nofun nofun) (hite nofun nofun))))

theorem handleIssueComment_eq_started : handleIssueComment settings body = .started r ↔
      commentGate settings (parseCommand body) = none ∧ runOutcome (parseCommand body) body = .started r := by
  unfold handleIssueComment
  dsimp only
  cases h : commentGate settings (parseCommand body) with
  | none => exact ⟨fun hr => ⟨rfl, hr⟩, fun hr => hr.2⟩
  | some outcome =>
    refine ⟨fun hr => ?_, fun hr => nomatch hr.1⟩
    obtain rfl : outcome = .started r := hr
    exact absurd h commentGate_ne_started

/-- The rest of a comment does not change whether the command runs exactly where it holds no flag that the command
lacks, unless the line does. -/
theorem started_iff_started (hparse : parseCommand body = parseCommand line) :
    (∀ settings r, handleIssueComment settings body = .started r ↔ handleIssueComment settings line = .started r) ↔
      ((∃ settings, commentGate settings (parseCommand body) = none) →
        isRunnable (parseCommand body).action = true →
        (Refused (parseCommand body).action (textWords body) ↔ Refused (parseCommand body).action (textWords line))) := by
  simp only [handleIssueComment_eq_started, ← hparse, runOutcome_eq_started]
  constructor
  · rintro h ⟨settings, hgate⟩ hrun
    have hsame := h settings (parseCommand body)
    rw [← not_iff_not]
    exact ⟨fun hno => (hsame.1 ⟨hgate, hno, hrun, rfl⟩).2.1, fun hno => (hsame.2 ⟨hgate, hno, hrun, rfl⟩).2.1⟩
  · intro h settings r
    refine and_congr_right fun hgate => ?_
    constructor
    · rintro ⟨hno, hrun, hr⟩
      exact ⟨fun hline => hno ((h ⟨settings, hgate⟩ hrun).2 hline), hrun, hr⟩
    · rintro ⟨hno, hrun, hr⟩
      exact ⟨fun hbody => hno ((h ⟨settings, hgate⟩ hrun).1 hbody), hrun, hr⟩

end

/-! ## Comments -/

def args (line : Text) : List Text := (textWords line).drop 2

/-- The comment is read by the words of its directive: the flags of the command are set where they are among the
words after it, their values are the next words, and the rest of the comment does not matter. -/
structure ReadsTokens (body line : Text) (spec : CommandSpec) : Prop where
  skipRevert : spec.supportsSkipRevert = true →
    ((parseCommand body).skipRevert = true ↔ HasFlag ["--skip-revert".toList] (args line))
  deferCutover : spec.supportsDeferCutover = true →
    ((parseCommand body).deferCutover = true ↔ HasFlag ["--defer-cutover".toList] (args line))
  allowUnsafe : spec.supportsAllowUnsafe = true →
    ((parseCommand body).allowUnsafe = true ↔ HasFlag ["--allow-unsafe".toList] (args line))
  force : spec.supportsForce = true → ((parseCommand body).force = true ↔ HasFlag ["--force".toList] (args line))
  autoConfirm : spec.supportsAutoConfirm = true →
    ((parseCommand body).autoConfirm = true ↔ HasFlag ["--yes".toList, "-y".toList] (args line))
  environment : (parseCommand body).environment = (wholeEnvironment (args line)).getD []
  database : spec.supportsDB = true → (parseCommand body).database = (wholeDatabase (args line)).getD []
  tenant : ((parseCommand body).tenant, (parseCommand body).tenantError) = wholeTenant (args line)
  alone : ∀ settings r, handleIssueComment settings body = .started r ↔ handleIssueComment settings line = .started r

structure WholeFlags (body line : Text) (spec : CommandSpec) : Prop where
  skipRevert : spec.supportsSkipRevert = true →
    HoldsOne ["--skip-revert".toList] (textWords line) → HasFlag ["--skip-revert".toList] (args line)
  deferCutover : spec.supportsDeferCutover = true →
    HoldsOne ["--defer-cutover".toList] (textWords line) → HasFlag ["--defer-cutover".toList] (args line)
  allowUnsafe : spec.supportsAllowUnsafe = true →
    HoldsOne ["--allow-unsafe".toList] (textWords line) → HasFlag ["--allow-unsafe".toList] (args line)
  force : spec.supportsForce = true →
    HoldsOne ["--force".toList] (textWords line) → HasFlag ["--force".toList] (args line)
  autoConfirm : spec.supportsAutoConfirm = true →
    HoldsOne ["--yes".toList, "-y".toList] (textWords line) → HasFlag ["--yes".toList, "-y".toList] (args line)
  environment : looseEnvironment (textWords line) = wholeEnvironment (args line)
  database : spec.supportsDB = true → looseDatabase (textWords line) = wholeDatabase (args line)
  tenant : TenantWhole (textTokens line) ∨ wholeTenant (args line) = ([], true)
  alone : (∃ settings, commentGate settings (parseCommand body) = none) →
    isRunnable (parseCommand body).action = true →
    (Refused (parseCommand body).action (textWords body) ↔ Refused (parseCommand body).action (textWords line))

/-- A comment with a command is read by its words exactly where these leave no doubt. -/
theorem flags_read_iff (body line : Text) (spec : CommandSpec) (hline : directiveLine body = some line)
    (hspec : directiveSpec line = some spec) (hhelp : isMatch helpRegex line = false) :
    ReadsTokens body line spec ↔ WholeFlags body line spec := by
  obtain ⟨hend, hself⟩ := directiveLine_self hline
  have hbody : parseCommand body = parseDirective line := by rw [parseCommand, hline, Option.elim_some]
  have hsame : parseCommand body = parseCommand line := by rw [hbody, parseCommand, hself, Option.elim_some]
  have hparsed : parseCommand body = applySpec spec line (extractTenant line).1 (extractTenant line).2 := by
    rw [hbody, parseDirective, hhelp, hspec]
    rfl
  have hcommand : isMatch commandRegex line = true := by
    obtain ⟨name, hname, -⟩ := Option.bind_eq_some_iff.1 hspec
    obtain ⟨hit, hhit, -⟩ := Option.map_eq_some_iff.1 hname
    rw [isMatch, hhit, Option.isSome_some]
  have hflag (supported : Bool) (r : Re) {flags : List Text}
      (hr : isMatch r line = true ↔ HoldsOne flags (textWords line))
      (hf : ∀ f ∈ flags, f.getLast?.any isWordChar = true) :
      (supported = true → ((supported && isMatch r line) = true ↔ HasFlag flags (args line))) ↔
        (supported = true → HoldsOne flags (textWords line) → HasFlag flags (args line)) := by
    refine forall_congr' fun hs => ?_
    rw [hs]
    exact read_flag_iff hr hf
  have hskip := hflag spec.supportsSkipRevert skipRevertRegex (isMatch_flag (by decide) (by decide)) (by decide)
  have hdefer := hflag spec.supportsDeferCutover deferCutoverRegex (isMatch_flag (by decide) (by decide)) (by decide)
  have hallow := hflag spec.supportsAllowUnsafe allowUnsafeRegex (isMatch_flag (by decide) (by decide)) (by decide)
  have hforce := hflag spec.supportsForce forceRegex (isMatch_flag (by decide) (by decide)) (by decide)
  have hauto := hflag spec.supportsAutoConfirm autoConfirmRegex isMatch_autoConfirm (by decide)
  have henv := read_environment_iff (s := line) (n := 2)
  have hdb : (spec.supportsDB = true → (if spec.supportsDB then (submatch databaseRegex line).getD [] else []) =
      (wholeDatabase (args line)).getD []) ↔
      (spec.supportsDB = true → looseDatabase (textWords line) = wholeDatabase (args line)) := by
    refine forall_congr' fun hs => ?_
    rw [if_pos hs]
    exact read_database_iff
  have htenant := read_tenant_iff hend hcommand
  have halone := started_iff_started hsame
  constructor
  · intro h
    obtain ⟨h1, h2, h3, h4, h5, h6, h7, h8, h9⟩ := h
    rw [hparsed] at h1 h2 h3 h4 h5 h6 h7 h8
    exact ⟨hskip.1 h1, hdefer.1 h2, hallow.1 h3, hforce.1 h4, hauto.1 h5, henv.1 h6, hdb.1 h7, htenant.1 h8,
      halone.1 h9⟩
  · intro h
    refine ⟨?_, ?_, ?_, ?_, ?_, ?_, ?_, ?_, halone.2 h.alone⟩ <;> rw [hparsed]
    · exact hskip.2 h.skipRevert
    · exact hdefer.2 h.deferCutover
    · exact hallow.2 h.allowUnsafe
    · exact hforce.2 h.force
    · exact hauto.2 h.autoConfirm
    · exact henv.2 h.environment
    · exact hdb.2 h.database
    · exact htenant.2 h.tenant

def plainComment : Text := "schemabot unlock -d users --force".toList

theorem flags_read_iff_plainComment : directiveLine plainComment = some plainComment ∧
      (ReadsTokens plainComment plainComment { name := .unlock, supportsDB := true, supportsForce := true } ↔
        WholeFlags plainComment plainComment { name := .unlock, supportsDB := true, supportsForce := true }) := by
  have hline : directiveLine plainComment = some plainComment := by decide +kernel
  have hspec : directiveSpec plainComment =
      some { name := .unlock, supportsDB := true, supportsForce := true } := by decide +kernel
  exact ⟨hline, flags_read_iff plainComment plainComment _ hline hspec (by decide +kernel)⟩

def extendedComment : Text := "schemabot apply -e production2 -d users-y".toList

def remarkComment : Text := "schemabot rollback apply_1a -e staging\nThe -y flag is for apply.\n".toList

/-- The environment is cut to another one, the name of the database confirms the apply, and the remark keeps the
rollback from running, which runs without it. -/
theorem values_set_flags :
    args extendedComment = ["-e".toList, "production2".toList, "-d".toList, "users-y".toList] ∧
      parseCommand extendedComment =
        { action := some .apply, environment := "production".toList, database := "users-y".toList
          autoConfirm := true, found := true, isMention := true } ∧
      handleIssueComment {} remarkComment = .replied (.unsupportedAutoConfirm (some .rollback)) ∧
      directiveLine remarkComment = some "schemabot rollback apply_1a -e staging".toList ∧
      handleIssueComment {} "schemabot rollback apply_1a -e staging".toList = .started
        { action := some .rollback, applyID := "apply_1a".toList, environment := "staging".toList, found := true
          isMention := true } := by
  decide +kernel

/-- The line that a command was found in is read, as a comment of its own, as the same command. -/
theorem directive_reread {body line : Text} (h : directiveLine body = some line) :
    parseCommand line = parseCommand body := by
  rw [parseCommand, (directiveLine_self h).2, parseCommand, h]

theorem directive_reread_remark : parseCommand "schemabot rollback apply_1a -e staging".toList =
    parseCommand remarkComment := directive_reread (by decide +kernel)

end SchemaBot.Webhook
