import Mathlib.Algebra.Group.Nat.Even
import Mathlib.Data.Nat.Bits
import SchemaBot.Webhook.Parser

/-!
# Fenced code in comments

A fence of a comment is a run of at least three backticks or tildes, and the block that it opens is closed by a run
of the same character that is at least as long.
-/

namespace SchemaBot.Webhook

open Regex

/-! ## Lines -/

section

def IsLine (line : Text) : Prop := ∃ w : Text, '\n' ∉ w ∧ line = w ++ ['\n']

def IsOpenLine (line : Text) : Prop := line ≠ [] ∧ '\n' ∉ line

structure AreLines (ls : List Text) : Prop where
  ended : ls.Pairwise fun line _ => IsLine line
  line : ∀ line ∈ ls, IsLine line ∨ IsOpenLine line

theorem AreLines.sublist {ls ls' : List Text} (h : AreLines ls) (hs : ls'.Sublist ls) : AreLines ls' :=
  ⟨h.ended.sublist hs, fun line hl => h.line line (hs.subset hl)⟩

theorem IsLine.cons {line : Text} (h : IsLine line) {c : Char} (hc : c ≠ '\n') : IsLine (c :: line) := by
  obtain ⟨w, hw, rfl⟩ := h
  exact ⟨c :: w, by simp [hc.symm, hw], rfl⟩

theorem IsOpenLine.cons {line : Text} (h : IsOpenLine line) {c : Char} (hc : c ≠ '\n') : IsOpenLine (c :: line) :=
  ⟨nofun, by simp [hc.symm, h.2]⟩

theorem areLines_lines (s : Text) : AreLines (lines s) := by
  induction s with
  | nil => exact ⟨.nil, nofun⟩
  | cons c s ih =>
    rw [lines]
    split
    · next hc =>
      subst hc
      have hline : IsLine ['\n'] := ⟨[], nofun, rfl⟩
      refine ⟨List.pairwise_cons.2 ⟨fun _ _ => hline, ih.ended⟩, fun line hl => ?_⟩
      rcases List.mem_cons.1 hl with rfl | hl
      · exact .inl hline
      · exact ih.line line hl
    · next hc =>
      cases hs : lines s with
      | nil =>
        refine ⟨List.pairwise_singleton _ _, fun line hl => ?_⟩
        obtain rfl := List.mem_singleton.1 hl
        exact .inr ⟨nofun, by simp [Ne.symm hc]⟩
      | cons first rest =>
        rw [hs] at ih
        obtain ⟨hfirst, hrest⟩ := List.pairwise_cons.1 ih.ended
        refine ⟨List.pairwise_cons.2 ⟨fun line hl => (hfirst line hl).cons hc, hrest⟩, fun line hl => ?_⟩
        rcases List.mem_cons.1 hl with rfl | hl
        · exact (ih.line first List.mem_cons_self).imp (·.cons hc) (·.cons hc)
        · exact ih.line line (List.mem_cons_of_mem _ hl)

theorem lines_append {line : Text} (h : IsLine line) (s : Text) : lines (line ++ s) = line :: lines s := by
  obtain ⟨w, hw, rfl⟩ := h
  induction w with
  | nil => simp [lines]
  | cons c w ih =>
    have hc : c ≠ '\n' := fun h => hw (h ▸ List.mem_cons_self)
    rw [List.cons_append, List.cons_append, lines, if_neg hc, ih fun h => hw (List.mem_cons_of_mem _ h)]

theorem lines_open {line : Text} (h : IsOpenLine line) : lines line = [line] := by
  obtain ⟨hne, hno⟩ := h
  induction line with
  | nil => exact absurd rfl hne
  | cons c w ih =>
    have hc : c ≠ '\n' := fun h => hno (h ▸ List.mem_cons_self)
    rw [lines, if_neg hc]
    cases w with
    | nil => rfl
    | cons d w => rw [ih nofun fun h => hno (List.mem_cons_of_mem _ h)]

theorem lines_flatten {ls : List Text} (h : AreLines ls) : lines ls.flatten = ls := by
  induction ls with
  | nil => rfl
  | cons line rest ih =>
    have hrest : AreLines rest := h.sublist (List.sublist_cons_self _ _)
    rw [List.flatten_cons]
    rcases h.line line List.mem_cons_self with hline | hopen
    · rw [lines_append hline, ih hrest]
    · cases rest with
      | nil => rw [List.flatten_nil, List.append_nil, lines_open hopen]
      | cons next rest =>
        have hline := (List.pairwise_cons.1 h.ended).1 next List.mem_cons_self
        rw [lines_append hline, ih hrest]

end

/-! ## The line that is taken -/

def mentions (line : Text) : Bool := isMatch mentionRegex (trimLineEnd line)

/-- The place of the line that `ParseCommand` takes, with the flag for fences. -/
def directiveIndex : Bool → List Text → Option Nat
  | _, [] => none
  | inFence, line :: rest =>
    if isFenceLine line then (directiveIndex (!inFence) rest).map (· + 1)
    else if inFence || isIndented line || !mentions line then (directiveIndex inFence rest).map (· + 1)
    else some 0

section
variable {inFence : Bool} {ls : List Text} {i : Nat} {body : Text} {line : Text}

/-- The lines that `markdownDirectiveText` keeps. -/
def directiveLines : Bool → List Text → List Text
  | _, [] => []
  | inFence, line :: rest =>
    if isFenceLine line then directiveLines (!inFence) rest
    else if inFence || isIndented line then directiveLines inFence rest
    else line :: directiveLines inFence rest

theorem flatten_directiveLines : (directiveLines inFence ls).flatten = directiveText inFence ls := by
  induction ls generalizing inFence with
  | nil => rfl
  | cons line rest ih =>
    rw [directiveLines, directiveText]
    split
    · exact ih
    · split
      · exact ih
      · rw [List.flatten_cons, ih]

theorem directiveLines_sublist : (directiveLines inFence ls).Sublist ls := by
  induction ls generalizing inFence with
  | nil => exact .slnil
  | cons line rest ih =>
    rw [directiveLines]
    split
    · exact ih.cons line
    · split
      · exact ih.cons line
      · exact ih.cons_cons line

theorem find?_directiveLines :
    ((directiveLines inFence ls).map trimLineEnd).find? (fun line => isMatch mentionRegex line) =
      (directiveIndex inFence ls).bind fun i => ls[i]?.map trimLineEnd := by
  induction ls generalizing inFence with
  | nil => rfl
  | cons line rest ih =>
    have hnext (o : Option Nat) : (o.bind fun i => rest[i]?.map trimLineEnd) =
        (o.map (· + 1)).bind fun i => (line :: rest)[i]?.map trimLineEnd := by
      cases o <;> rfl
    rw [directiveLines, directiveIndex]
    split
    · rw [ih, hnext]
    · by_cases hskip : (inFence || isIndented line) = true
      · rw [if_pos hskip, hskip, Bool.true_or, if_pos rfl, ih, hnext]
      · rw [if_neg hskip, Bool.eq_false_iff.2 hskip, List.map_cons]
        cases hm : mentions line with
        | true =>
          rw [List.find?_cons_of_pos (show isMatch mentionRegex (trimLineEnd line) = true from hm)]
          rfl
        | false =>
          have hno : ¬ isMatch mentionRegex (trimLineEnd line) = true := Bool.eq_false_iff.1 hm
          rw [List.find?_cons_of_neg hno, ih, hnext]
          rfl

theorem directiveLine_eq :
    directiveLine body = (directiveIndex false (lines body)).bind fun i => (lines body)[i]?.map trimLineEnd := by
  unfold directiveLine firstDirectiveLine markdownDirectiveText
  rw [← flatten_directiveLines, lines_flatten ((areLines_lines body).sublist directiveLines_sublist)]
  exact find?_directiveLines

theorem directiveIndex_spec (h : directiveIndex inFence ls = some i) :
    ∃ line, ls[i]? = some line ∧ isFenceLine line = false ∧ (isIndented line = false ∧ mentions line = true) ∧
      ((ls.take i).countP isFenceLine).bodd = inFence := by
  induction ls generalizing inFence i with
  | nil => cases h
  | cons line rest ih =>
    rw [directiveIndex] at h
    split at h
    · next hf =>
      obtain ⟨j, hj, rfl⟩ := Option.map_eq_some_iff.1 h
      obtain ⟨taken, htaken, hno, hmention, hodd⟩ := ih hj
      refine ⟨taken, htaken, hno, hmention, ?_⟩
      rw [List.take_succ_cons, List.countP_cons_of_pos hf, Nat.bodd_succ, hodd, Bool.not_not]
    · next hf =>
      split at h
      · obtain ⟨j, hj, rfl⟩ := Option.map_eq_some_iff.1 h
        obtain ⟨taken, htaken, hno, hmention, hodd⟩ := ih hj
        refine ⟨taken, htaken, hno, hmention, ?_⟩
        rw [List.take_succ_cons, List.countP_cons_of_neg hf, hodd]
      · next hskip =>
        cases h
        simp only [Bool.or_eq_true, not_or, Bool.not_eq_true, Bool.not_eq_eq_eq_not, Bool.not_true,
          Bool.not_eq_false] at hskip
        refine ⟨line, rfl, Bool.eq_false_iff.2 hf, ⟨hskip.1.2, hskip.2⟩, ?_⟩
        rw [List.take_zero, List.countP_nil, Nat.bodd_zero, hskip.1.1]

theorem isFenceLine_append (h : isFenceLine line = true) (s : Text) : isFenceLine (line ++ s) = true := by
  unfold isFenceLine at h ⊢
  rw [Bool.and_eq_true, decide_eq_true_eq] at h
  have hne : line.dropWhile (· = ' ') ≠ [] := by
    intro hnil
    rw [hnil] at h
    exact absurd h.2 (by decide)
  have hdrop : (line ++ s).dropWhile (· = ' ') = line.dropWhile (· = ' ') ++ s := by
    rw [List.dropWhile_append, if_neg]
    rwa [List.isEmpty_iff]
  rw [Bool.and_eq_true, decide_eq_true_eq, hdrop, List.length_append, List.length_append]
  refine ⟨by omega, ?_⟩
  unfold isMarkdownFence at h ⊢
  rw [Bool.or_eq_true, List.isPrefixOf_iff_prefix, List.isPrefixOf_iff_prefix] at h ⊢
  exact h.2.imp (·.trans (List.prefix_append _ _)) (·.trans (List.prefix_append _ _))

theorem isIndented_append (h : isIndented line = true) (s : Text) : isIndented (line ++ s) = true := by
  unfold isIndented at h ⊢
  rw [Bool.or_eq_true, List.isPrefixOf_iff_prefix, List.isPrefixOf_iff_prefix] at h ⊢
  exact h.imp (·.trans (List.prefix_append _ _)) (·.trans (List.prefix_append _ _))

theorem trimLineEnd_prefix (line : Text) : ∃ s, line = trimLineEnd line ++ s := by
  obtain ⟨s, hs⟩ := List.rdropWhile_prefix (fun c => decide (c = '\r') || decide (c = '\n')) line
  exact ⟨s, hs.symm⟩

theorem not_mem_trimLineEnd (h : IsLine line ∨ IsOpenLine line) : '\n' ∉ trimLineEnd line := by
  rcases h with ⟨w, hw, rfl⟩ | hopen
  · unfold trimLineEnd
    rw [List.rdropWhile_concat_pos _ _ _ (by decide)]
    exact fun hmem => hw ((List.rdropWhile_prefix _ _).subset hmem)
  · exact fun hmem => hopen.2 ((List.rdropWhile_prefix _ _).subset hmem)

theorem directiveLine_self (h : directiveLine body = some line) : '\n' ∉ line ∧ directiveLine line = some line := by
  rw [directiveLine_eq] at h
  obtain ⟨i, hi, hline⟩ := Option.bind_eq_some_iff.1 h
  obtain ⟨whole, hwhole, hfence, ⟨hindent, hmention⟩, -⟩ := directiveIndex_spec hi
  rw [hwhole, Option.map_some, Option.some_inj] at hline
  subst hline
  obtain ⟨s, hs⟩ := trimLineEnd_prefix whole
  have hend : '\n' ∉ trimLineEnd whole :=
    not_mem_trimLineEnd ((areLines_lines body).line whole (List.mem_of_getElem? hwhole))
  have hne : trimLineEnd whole ≠ [] := by
    intro hnil
    unfold mentions at hmention
    rw [hnil] at hmention
    exact absurd hmention (by decide)
  have htrim : trimLineEnd (trimLineEnd whole) = trimLineEnd whole := List.rdropWhile_idempotent _ _
  have hfence' : ¬ isFenceLine (trimLineEnd whole) = true := by
    intro hf
    rw [hs, isFenceLine_append hf] at hfence
    cases hfence
  have hindent' : isIndented (trimLineEnd whole) = false := by
    rw [Bool.eq_false_iff]
    intro hin
    rw [hs, isIndented_append hin] at hindent
    cases hindent
  have hmention' : mentions (trimLineEnd whole) = true := by
    unfold mentions at hmention ⊢
    rwa [htrim]
  refine ⟨hend, ?_⟩
  rw [directiveLine_eq, lines_open ⟨hne, hend⟩, directiveIndex, if_neg hfence', hindent', hmention']
  exact congrArg some htrim

end

/-! ## Blocks -/

def fenceRun (line : Text) : Option (Char × Nat) :=
  let text := line.dropWhile (· = ' ')
  if line.length - text.length ≤ 3 then
    text.head?.bind fun c =>
      let run := (text.takeWhile (· = c)).length
      if (c = '`' ∨ c = '~') ∧ 3 ≤ run then some (c, run) else none
  else none

def closes (opening run : Char × Nat) : Bool := run.1 = opening.1 && opening.2 ≤ run.2

def nextBlock (block : Option (Char × Nat)) (line : Text) : Option (Char × Nat) :=
  match block with
  | none => fenceRun line
  | some opening => if (fenceRun line).any (closes opening) then none else some opening

def blockAfter (block : Option (Char × Nat)) (ls : List Text) : Option (Char × Nat) := ls.foldl nextBlock block

def isStray (block : Option (Char × Nat)) (line : Text) : Bool :=
  block.any fun opening => (fenceRun line).any fun run => !closes opening run

def strays : Option (Char × Nat) → List Text → Nat
  | _, [] => 0
  | block, line :: rest => (isStray block line).toNat + strays (nextBlock block line) rest

section
variable {block : Option (Char × Nat)} {line : Text} {ls : List Text}

theorem three_le_takeWhile_iff {c d : Char} {text : Text} :
    [c, c, c].isPrefixOf (d :: text) = true ↔ d = c ∧ 3 ≤ ((d :: text).takeWhile (· = d)).length := by
  constructor
  · intro h
    obtain ⟨rest, hrest⟩ := List.isPrefixOf_iff_prefix.1 h
    obtain ⟨rfl, rfl⟩ := List.cons.inj hrest
    simp
  · rintro ⟨rfl, h⟩
    rw [List.isPrefixOf_iff_prefix]
    rcases text with _ | ⟨a, _ | ⟨b, text⟩⟩
    · simp at h
    · by_cases ha : a = d <;> simp [ha] at h
    · by_cases ha : a = d
      · by_cases hb : b = d
        · subst ha hb
          exact ⟨text, rfl⟩
        · simp [ha, hb] at h
      · simp [ha] at h

theorem isFenceLine_eq : isFenceLine line = (fenceRun line).isSome := by
  unfold isFenceLine fenceRun isMarkdownFence
  dsimp only
  split
  · next hlead =>
    rw [decide_eq_true hlead, Bool.true_and]
    cases line.dropWhile (· = ' ') with
    | nil => rfl
    | cons d text =>
      have hback : "```".toList.isPrefixOf (d :: text) = true ↔ _ := three_le_takeWhile_iff
      have htilde : "~~~".toList.isPrefixOf (d :: text) = true ↔ _ := three_le_takeWhile_iff
      rw [Bool.eq_iff_iff, Bool.or_eq_true, hback, htilde, ← or_and_right]
      simp only [List.head?_cons, Option.bind_some]
      split
      · next h => exact ⟨fun _ => rfl, fun _ => h⟩
      · next h => exact ⟨fun h' => absurd h' h, nofun⟩
  · next hlead => rw [decide_eq_false hlead, Bool.false_and, Option.isSome_none]

theorem isSome_nextBlock :
    (nextBlock block line).isSome = (block.isSome ^^ (isFenceLine line ^^ isStray block line)) := by
  rw [isFenceLine_eq]
  cases block with
  | none => simp [nextBlock, isStray]
  | some opening =>
    cases hrun : fenceRun line with
    | none => simp [nextBlock, isStray, hrun]
    | some run => cases hc : closes opening run <;> simp [nextBlock, isStray, hrun, hc]

theorem isSome_blockAfter : (blockAfter block ls).isSome =
      (block.isSome ^^ ((ls.countP isFenceLine).bodd ^^ (strays block ls).bodd)) := by
  induction ls generalizing block with
  | nil => simp [blockAfter, strays]
  | cons line rest ih =>
    have hcount : ((line :: rest).countP isFenceLine).bodd =
        (isFenceLine line ^^ (rest.countP isFenceLine).bodd) := by
      cases hf : isFenceLine line with
      | true => rw [List.countP_cons_of_pos hf, Nat.bodd_succ, Bool.true_xor]
      | false => rw [List.countP_cons_of_neg (Bool.eq_false_iff.1 hf), Bool.false_xor]
    have hstrays : (strays block (line :: rest)).bodd =
        (isStray block line ^^ (strays (nextBlock block line) rest).bodd) := by
      rw [strays, Nat.bodd_add]
      cases isStray block line <;> rfl
    have hafter : blockAfter block (line :: rest) = blockAfter (nextBlock block line) rest := rfl
    rw [hafter, ih, isSome_nextBlock, hcount, hstrays]
    generalize block.isSome = a, isFenceLine line = b, isStray block line = c,
      (rest.countP isFenceLine).bodd = d, (strays (nextBlock block line) rest).bodd = e
    cases a <;> cases b <;> cases c <;> cases d <;> cases e <;> rfl

end

/-! ## Commands and blocks -/

def Unfenced (ls : List Text) (i : Nat) (line : Text) : Prop :=
  ls[i]? = some line ∧ fenceRun line = none ∧ blockAfter none (ls.take i) = none

/-- A command that `ParseCommand` returns also stands outside the fenced blocks. -/
def FencesRespected (body : Text) : Prop :=
  ∀ directive, directiveLine body = some directive → (parseDirective directive).action ≠ none →
    ∃ i line, Unfenced (lines body) i line ∧ trimLineEnd line = directive

def StraysPaired (body : Text) : Prop :=
  ∀ i directive, directiveIndex false (lines body) = some i → (lines body)[i]?.map trimLineEnd = some directive →
    (parseDirective directive).action ≠ none →
    Even (strays none ((lines body).take i)) ∨
      ∃ j line, j ≠ i ∧ Unfenced (lines body) j line ∧ trimLineEnd line = directive

theorem blockAfter_directiveIndex {ls : List Text} {i : Nat} (h : directiveIndex false ls = some i) :
    blockAfter none (ls.take i) = none ↔ Even (strays none (ls.take i)) := by
  obtain ⟨-, -, -, -, hodd⟩ := directiveIndex_spec h
  rw [← Option.isNone_iff_eq_none, ← Option.isSome_eq_false_iff, isSome_blockAfter, hodd, Nat.even_iff,
    Nat.mod_two_of_bodd]
  cases (strays none (ls.take i)).bodd <;> simp

/-- The command that is returned stands outside the fenced blocks exactly where stray fences come in pairs. -/
theorem fences_respected_iff (body : Text) : FencesRespected body ↔ StraysPaired body := by
  constructor
  · intro h i directive hi hline haction
    have htaken : directiveLine body = some directive := by rw [directiveLine_eq, hi, Option.bind_some, hline]
    obtain ⟨j, line, hout, hsame⟩ := h directive htaken haction
    by_cases hj : j = i
    · subst hj
      exact .inl ((blockAfter_directiveIndex hi).1 hout.2.2)
    · exact .inr ⟨j, line, hj, hout, hsame⟩
  · intro h directive htaken haction
    rw [directiveLine_eq] at htaken
    obtain ⟨i, hi, hline⟩ := Option.bind_eq_some_iff.1 htaken
    rcases h i directive hi hline haction with heven | ⟨j, line, -, hout, hsame⟩
    · obtain ⟨line, hget, hno, -, -⟩ := directiveIndex_spec hi
      rw [hget, Option.map_some, Option.some_inj] at hline
      rw [isFenceLine_eq, Option.isSome_eq_false_iff, Option.isNone_iff_eq_none] at hno
      exact ⟨i, line, ⟨hget, hno, (blockAfter_directiveIndex hi).2 heven⟩, hline⟩
    · exact ⟨j, line, hout, hsame⟩

def nestedExample : Text := "````\n```\nschemabot apply -e production\n````\n".toList

/-- The command of the block is returned, and stands nowhere else. -/
theorem nested_example_taken : directiveLine nestedExample = some "schemabot apply -e production".toList ∧
      (parseCommand nestedExample).action = some .apply ∧ (parseCommand nestedExample).found = true ∧
      (lines nestedExample).findIdxs (fun line => trimLineEnd line = "schemabot apply -e production".toList) = [2] ∧
      blockAfter none ((lines nestedExample).take 2) = some ('`', 4) := by
  decide +kernel

end SchemaBot.Webhook
