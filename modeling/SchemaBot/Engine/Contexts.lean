import Mathlib.Data.Finset.Sort
import Mathlib.Data.String.Basic
import Mathlib.Order.Bounds.Basic

/-!
# The migration context of a deploy

After a deploy the engine looks for the migrations that Vitess has made for it
(`pkg/engine/planetscale/progress.go`).
-/

namespace SchemaBot.PlanetScale

def isTerminalVitessState (s : String) : Bool := s.toLower ∈ ["complete", "failed", "cancelled"]

structure VitessMigrationRow where
  migrationContext : String
  status : String
  requestedAt : Option Nat

/-! ## The selection -/

def earlierTime : Option Nat → Option Nat → Bool
  | none, _ => false
  | some _, none => true
  | some candidate, some current => candidate < current

/-- The maps that are filled from the rows. -/
structure Contexts where
  nonTerminal : Finset String := ∅
  earliestRequested : String → Option Nat := fun _ => none

def Contexts.add (existing : List String) (m : Contexts) (r : VitessMigrationRow) : Contexts :=
  if r.migrationContext = "" ∨ r.migrationContext ∈ existing then m
  else
    { nonTerminal :=
        if isTerminalVitessState r.status then m.nonTerminal else insert r.migrationContext m.nonTerminal
      earliestRequested := fun c =>
        if c = r.migrationContext ∧ earlierTime r.requestedAt (m.earliestRequested c) then r.requestedAt
        else m.earliestRequested c }

def contexts (rows : List VitessMigrationRow) (existing : List String) : Contexts := rows.foldl (·.add existing) {}

def candidates (rows : List VitessMigrationRow) (existing : List String) : List String :=
  (contexts rows existing).nonTerminal.sort (· ≤ ·)

/-- One round over several candidates, with the best so far and the time of its request. -/
def keepBest (m : Contexts) (deployCreatedAt : Nat) (best : Option (String × Nat)) (c : String) :
    Option (String × Nat) :=
  match m.earliestRequested c with
  | none => best
  | some requested =>
    if requested < deployCreatedAt then best
    else match best with
      | none => some (c, requested)
      | some (b, bestRequested) =>
        if requested < bestRequested ∨ requested = bestRequested ∧ c < b then some (c, requested) else best

def selectSchemaChangeContext (rows : List VitessMigrationRow) (existing : List String) (deployCreatedAt : Nat) :
    Option String :=
  match candidates rows existing with
  | [] => none
  | [c] => some c
  | several => (several.foldl (keepBest (contexts rows existing) deployCreatedAt) none).map (·.1)

/-! ## What is selected -/

section
variable (rows : List VitessMigrationRow) (existing : List String) (deployCreatedAt : Nat)

/-- A context in flight that was not there before the deploy. -/
def Candidate (c : String) : Prop :=
  c ≠ "" ∧ c ∉ existing ∧ ∃ r ∈ rows, r.migrationContext = c ∧ isTerminalVitessState r.status = false

/-- A candidate whose earliest request was made at the deploy or later. -/
def RequestedSince (c : String) (t : Nat) : Prop :=
  Candidate rows existing c ∧ deployCreatedAt ≤ t ∧
    IsLeast {t | ∃ r ∈ rows, r.migrationContext = c ∧ r.requestedAt = some t} t

/-- The only candidate, or the one that was requested first since the deploy. -/
def Chosen (c : String) : Prop :=
  Candidate rows existing c ∧ ((∀ c', Candidate rows existing c' → c' = c) ∨
    ∃ t, RequestedSince rows existing deployCreatedAt c t ∧
      ∀ c' t', RequestedSince rows existing deployCreatedAt c' t' → t < t' ∨ t = t' ∧ c ≤ c')

variable {rows existing deployCreatedAt} {c : String} {t : Nat}

theorem contexts_concat (r : VitessMigrationRow) :
    contexts (rows ++ [r]) existing = (contexts rows existing).add existing r := List.foldl_concat ..

theorem mem_candidates : c ∈ candidates rows existing ↔ Candidate rows existing c := by
  rw [candidates, Finset.mem_sort]
  induction rows using List.reverseRecOn with
  | nil => simp [contexts, Candidate]
  | append_singleton rows r ih =>
    rw [contexts_concat]
    unfold Candidate at ih ⊢
    grind [Contexts.add]

theorem earliestRequested_least (hc : c ≠ "") (hnew : c ∉ existing) :
    (∀ t, (contexts rows existing).earliestRequested c = some t →
      ∃ r ∈ rows, r.migrationContext = c ∧ r.requestedAt = some t) ∧
    ∀ r ∈ rows, r.migrationContext = c → ∀ t, r.requestedAt = some t →
      ∃ u ≤ t, (contexts rows existing).earliestRequested c = some u := by
  induction rows using List.reverseRecOn with
  | nil => simp [contexts]
  | append_singleton rows r ih =>
    rw [contexts_concat]
    generalize contexts rows existing = m at ih ⊢
    have hadd : (m.add existing r).earliestRequested c =
        if c = r.migrationContext ∧ earlierTime r.requestedAt (m.earliestRequested c) then r.requestedAt
        else m.earliestRequested c := by
      unfold Contexts.add
      grind
    refine ⟨by grind, fun x hx hctx t ht => ?_⟩
    cases hcur : m.earliestRequested c <;> cases hr : r.requestedAt <;> grind [earlierTime]

theorem earliestRequested_eq_some (hc : c ≠ "") (hnew : c ∉ existing) :
    (contexts rows existing).earliestRequested c = some t ↔
      IsLeast {t | ∃ r ∈ rows, r.migrationContext = c ∧ r.requestedAt = some t} t := by
  obtain ⟨hmem, hle⟩ := @earliestRequested_least rows existing c hc hnew
  constructor
  · intro h
    refine ⟨hmem t h, ?_⟩
    rintro u ⟨r, hr, hctx, hu⟩
    grind
  · rintro ⟨⟨r, hr, hctx, ht⟩, hleast⟩
    obtain ⟨u, hu, hsome⟩ := hle r hr hctx t ht
    rw [hsome, le_antisymm hu (hleast (hmem u hsome))]

theorem foldl_keepBest (m : Contexts) (l : List String) :
    (∀ b, l.foldl (keepBest m deployCreatedAt) none = some b →
      b.1 ∈ l ∧ m.earliestRequested b.1 = some b.2 ∧ deployCreatedAt ≤ b.2) ∧
    ∀ c ∈ l, ∀ t, m.earliestRequested c = some t → deployCreatedAt ≤ t →
      ∃ b, l.foldl (keepBest m deployCreatedAt) none = some b ∧ (b.2 < t ∨ b.2 = t ∧ b.1 ≤ c) := by
  induction l using List.reverseRecOn with
  | nil => simp
  | append_singleton l c ih =>
    rw [List.foldl_concat]
    generalize l.foldl (keepBest m deployCreatedAt) none = best at ih ⊢
    unfold keepBest
    refine ⟨by grind, fun x hx t ht hdeploy => ?_⟩
    cases hr : m.earliestRequested c with
    | none => grind
    | some requested => rcases best with _ | ⟨b, bestRequested⟩ <;> dsimp only <;> split_ifs <;> grind

theorem requestedSince_iff : RequestedSince rows existing deployCreatedAt c t ↔ c ∈ candidates rows existing ∧
    (contexts rows existing).earliestRequested c = some t ∧ deployCreatedAt ≤ t := by
  rw [RequestedSince, mem_candidates, and_congr_right_iff]
  intro hc
  rw [earliestRequested_eq_some hc.1 hc.2.1, and_comm]

theorem selectSchemaChangeContext_eq_some : selectSchemaChangeContext rows existing deployCreatedAt = some c ↔
    Chosen rows existing deployCreatedAt c := by
  obtain ⟨hbest, hleast⟩ := @foldl_keepBest deployCreatedAt (contexts rows existing) (candidates rows existing)
  have hnodup : (candidates rows existing).Nodup := Finset.sort_nodup ..
  simp only [selectSchemaChangeContext, Chosen, requestedSince_iff, ← mem_candidates]
  generalize candidates rows existing = l at hbest hleast hnodup ⊢
  rcases l with _ | ⟨a, _ | ⟨b, l⟩⟩
  · grind
  · grind
  · rw [Option.map_eq_some_iff]
    constructor
    · rintro ⟨x, hx, rfl⟩
      refine ⟨(hbest x hx).1, .inr ⟨x.2, hbest x hx, fun c' t' h' => ?_⟩⟩
      obtain ⟨y, hy, hle⟩ := hleast c' h'.1 t' h'.2.1 h'.2.2
      cases hx.symm.trans hy
      exact hle
    · rintro ⟨hc, honly | ⟨t, ht, hfirst⟩⟩
      · have ha := honly a (by simp)
        have hb := honly b (by simp)
        grind
      · obtain ⟨x, hx, hle⟩ := hleast c ht.1 t ht.2.1 ht.2.2
        have := hfirst x.1 x.2 (hbest x hx)
        exact ⟨x, hx, by grind⟩

/-- A context is selected exactly if it is the one to choose, whatever the order of the rows. -/
theorem schema_change_context_chosen (rows : List VitessMigrationRow) (existing : List String)
    (deployCreatedAt : Nat) : (∀ c, selectSchemaChangeContext rows existing deployCreatedAt = some c ↔
      Chosen rows existing deployCreatedAt c) ∧
    ∀ rows' : List VitessMigrationRow, rows'.Perm rows →
      selectSchemaChangeContext rows' existing deployCreatedAt =
        selectSchemaChangeContext rows existing deployCreatedAt := by
  refine ⟨fun c => selectSchemaChangeContext_eq_some, fun rows' hperm => ?_⟩
  ext c
  simp only [selectSchemaChangeContext_eq_some, Chosen, Candidate, RequestedSince, hperm.mem_iff]

end

end SchemaBot.PlanetScale
