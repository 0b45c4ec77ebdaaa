import Mathlib.Data.List.Nodup
import SchemaBot.Lib.Awaits
import SchemaBot.Lib.Run

/-!
# Linearizability

A concurrent object is a family of programs over a shared state, one for each operation. The calls run
side by side, one statement at a time, and leave a history of invocations and responses. A
`Linearization` of a history is a sequence of its calls that a sequential specification allows, with the
responses that were given, in an order that respects real time: a call that returned before another one
was made does not come after it.

`Prog.Implements` is the proof rule for one program. A statement either leaves the abstract state as it
is, and then every response that the specification allows there without a change may be given later; or
it takes the step of the operation, and the program returns. A call may rely on what its last statement
met, its mark: the runs considered are those in which nobody takes a mark away while the call is under
way. `Object.linearizable` puts the programs together. A response without effect may be decided by a
later statement than the one that justifies it, so its place in the sequence is found in the past
(`Linearization.Placeable`).
-/

namespace Concurrent

/-! ## Histories and their linearizations -/

/-- An event of a history: the call `i` is made, or returns. -/
inductive Event (ω ρ : Type)
  | invoke (i : Nat) (op : ω)
  | respond (i : Nat) (r : ρ)
  deriving DecidableEq

/-- A call of a sequential history. -/
structure Entry (ω ρ : Type) where
  id : Nat
  op : ω
  result : ρ
  deriving DecidableEq

section
variable {α ω ρ : Type}

/-- A sequential specification: the state after an operation with a result, if it allows that result. -/
abbrev Spec (α ω ρ : Type) := α → ω → ρ → Option α

/-- The state after a sequential history. -/
def Spec.replay (spec : Spec α ω ρ) (a : α) (l : List (Entry ω ρ)) : Option α :=
  l.foldlM (fun a e => spec a e.op e.result) a

/-- The call `i` returned before the call `j` was made. -/
def Precedes (h : List (Event ω ρ)) (i j : Nat) : Prop :=
  ∃ h₁ h₂ r op, h = h₁ ++ h₂ ∧ .respond i r ∈ h₁ ∧ .invoke j op ∈ h₂

variable {spec : Spec α ω ρ} {a b c : α} {h : List (Event ω ρ)} {l l' : List (Entry ω ρ)}

theorem Spec.replay_append :
    spec.replay a (l ++ l') = some c ↔ ∃ b, spec.replay a l = some b ∧ spec.replay b l' = some c := by
  simp [replay, Option.bind_eq_some_iff]

theorem Spec.replay_cons {e : Entry ω ρ} :
    spec.replay a (e :: l) = some c ↔ ∃ b, spec a e.op e.result = some b ∧ spec.replay b l = some c := by
  simp [replay, Option.bind_eq_some_iff]

theorem Spec.allowed_of_mem {e : Entry ω ρ} (h : spec.replay a l = some b) (he : e ∈ l) :
    ∃ x, spec x e.op e.result ≠ none := by
  obtain ⟨l₁, l₂, rfl⟩ := List.append_of_mem he
  obtain ⟨x, -, hx⟩ := replay_append.1 h
  obtain ⟨y, hy, -⟩ := replay_cons.1 hx
  exact ⟨x, by rw [hy]; nofun⟩

theorem not_precedes_of_respond {i j : Nat} (hi : ∀ r, .respond i r ∉ h) : ¬ Precedes h i j := by
  rintro ⟨h₁, h₂, r, op, rfl, hr, -⟩
  exact hi r (List.mem_append_left _ hr)

theorem Precedes.of_append {ev : Event ω ρ} {i j : Nat} (hp : Precedes (h ++ [ev]) i j) :
    Precedes h i j ∨ ∃ op, ev = .invoke j op := by
  obtain ⟨h₁, h₂, r, op, heq, hr, hop⟩ := hp
  rcases List.eq_nil_or_concat h₂ with rfl | ⟨h₂', ev', rfl⟩
  · cases hop
  · rw [List.concat_eq_append, ← List.append_assoc] at heq
    rw [List.concat_eq_append] at hop
    obtain ⟨rfl, hev⟩ := List.append_inj' heq rfl
    cases hev
    rcases List.mem_append.1 hop with hop | hop
    · exact .inl ⟨h₁, h₂', r, op, rfl, hr, hop⟩
    · exact .inr ⟨op, (List.mem_singleton.1 hop).symm⟩

/-- The calls of `l`, one after the other, explain the history. -/
structure Linearization (spec : Spec α ω ρ) (a : α) (h : List (Event ω ρ)) (l : List (Entry ω ρ))
    (b : α) : Prop where
  legal : spec.replay a l = some b
  once : (l.map (·.id)).Nodup
  invoked : ∀ e ∈ l, .invoke e.id e.op ∈ h
  responded : ∀ i r, .respond i r ∈ h → ∃ e ∈ l, e.id = i ∧ e.result = r
  realTime : l.Pairwise fun e f => ¬ Precedes h f.id e.id

namespace Linearization

variable {n : Nat} {op : ω} {r : ρ} {e : Entry ω ρ}

theorem nil : Linearization spec a [] [] a :=
  ⟨rfl, .nil, List.forall_mem_nil _, nofun, .nil⟩

theorem invoke (hl : Linearization spec a h l b) (hn : ∀ e ∈ l, e.id ≠ n) :
    Linearization spec a (h ++ [.invoke n op]) l b where
  legal := hl.legal
  once := hl.once
  invoked e he := List.mem_append_left _ (hl.invoked e he)
  responded i r hr := by
    rcases List.mem_append.1 hr with hr | hr
    · exact hl.responded i r hr
    · cases List.mem_singleton.1 hr
  realTime := by
    refine hl.realTime.imp_of_mem fun {e f} he _ hef hp => ?_
    rcases hp.of_append with hp | ⟨op', hop⟩
    · exact hef hp
    · cases hop
      exact hn e he rfl

theorem respond (hl : Linearization spec a h l b) (he : e ∈ l) :
    Linearization spec a (h ++ [.respond e.id e.result]) l b where
  legal := hl.legal
  once := hl.once
  invoked e he := List.mem_append_left _ (hl.invoked e he)
  responded i r hr := by
    rcases List.mem_append.1 hr with hr | hr
    · exact hl.responded i r hr
    · cases List.mem_singleton.1 hr
      exact ⟨e, he, rfl, rfl⟩
  realTime := by
    refine hl.realTime.imp fun {e f} hef hp => ?_
    rcases hp.of_append with hp | ⟨op', hop⟩
    · exact hef hp
    · cases hop

theorem place {l₁ l₂ : List (Entry ω ρ)} (hl : Linearization spec a h (l₁ ++ l₂) b)
    (hlegal : spec.replay a (l₁ ++ e :: l₂) = some c) (hn : ∀ f ∈ l₁ ++ l₂, f.id ≠ e.id)
    (hinv : .invoke e.id e.op ∈ h) (hres : ∀ r, .respond e.id r ∉ h)
    (hlater : ∀ f ∈ l₂, ¬ Precedes h f.id e.id) : Linearization spec a h (l₁ ++ e :: l₂) c where
  legal := hlegal
  once := by
    rw [List.map_append, List.map_cons, List.nodup_middle, List.nodup_cons, ← List.map_append]
    refine ⟨fun hmem => ?_, hl.once⟩
    obtain ⟨f, hf, hid⟩ := List.mem_map.1 hmem
    exact hn f hf hid
  invoked f hf := by
    rw [List.mem_append, List.mem_cons] at hf
    rcases hf with hf | rfl | hf
    · exact hl.invoked f (List.mem_append_left _ hf)
    · exact hinv
    · exact hl.invoked f (List.mem_append_right _ hf)
  responded i r hr := by
    obtain ⟨f, hf, hfr⟩ := hl.responded i r hr
    refine ⟨f, ?_, hfr⟩
    rw [List.mem_append, List.mem_cons]
    exact (List.mem_append.1 hf).imp_right .inr
  realTime := by
    obtain ⟨h₁, h₂, h₁₂⟩ := List.pairwise_append.1 hl.realTime
    refine List.pairwise_append.2 ⟨h₁, List.pairwise_cons.2 ⟨hlater, h₂⟩, fun f hf g hg => ?_⟩
    rcases List.mem_cons.1 hg with rfl | hg
    · exact not_precedes_of_respond hres
    · exact h₁₂ f hf g hg

/-- The response `r` of the call `n` had a place in the past, where it changes nothing. -/
def Placeable (spec : Spec α ω ρ) (a : α) (h : List (Event ω ρ)) (l : List (Entry ω ρ)) (n : Nat)
    (op : ω) (r : ρ) : Prop :=
  ∃ l₁ l₂ x, l = l₁ ++ l₂ ∧ spec.replay a l₁ = some x ∧ spec x op r = some x ∧
    ∀ f ∈ l₂, ¬ Precedes h f.id n

theorem Placeable.last (hl : Linearization spec a h l b) (hr : spec b op r = some b) :
    Placeable spec a h l n op r :=
  ⟨l, [], b, (List.append_nil l).symm, hl.legal, hr, List.forall_mem_nil _⟩

theorem Placeable.event {ev : Event ω ρ} (hp : Placeable spec a h l n op r)
    (hev : ∀ op', ev ≠ .invoke n op') : Placeable spec a (h ++ [ev]) l n op r := by
  obtain ⟨l₁, l₂, x, rfl, hx, hr, hlater⟩ := hp
  refine ⟨l₁, l₂, x, rfl, hx, hr, fun f hf hprec => ?_⟩
  rcases hprec.of_append with hprec | ⟨op', rfl⟩
  · exact hlater f hf hprec
  · exact hev op' rfl

theorem Placeable.append (hp : Placeable spec a h l n op r) (hres : ∀ r, .respond e.id r ∉ h) :
    Placeable spec a h (l ++ [e]) n op r := by
  obtain ⟨l₁, l₂, x, rfl, hx, hr, hlater⟩ := hp
  refine ⟨l₁, l₂ ++ [e], x, List.append_assoc .., hx, hr, fun f hf => ?_⟩
  rcases List.mem_append.1 hf with hf | hf
  · exact hlater f hf
  · rw [List.mem_singleton.1 hf]
    exact not_precedes_of_respond hres

theorem Placeable.insert {m₁ m₂ : List (Entry ω ρ)} {y : α}
    (hp : Placeable spec a h (m₁ ++ m₂) n op r) (hy : spec.replay a m₁ = some y)
    (he : spec y e.op e.result = some y) (hres : ∀ r, .respond e.id r ∉ h) :
    Placeable spec a h (m₁ ++ e :: m₂) n op r := by
  obtain ⟨l₁, l₂, x, hl, hx, hr, hlater⟩ := hp
  have hnew : ∀ {k : List (Entry ω ρ)}, (∀ f ∈ k ++ m₂, ¬ Precedes h f.id n) →
      ∀ f ∈ k ++ e :: m₂, ¬ Precedes h f.id n := by
    intro k hk f hf
    rw [List.mem_append, List.mem_cons] at hf
    rcases hf with hf | rfl | hf
    · exact hk f (List.mem_append_left _ hf)
    · exact not_precedes_of_respond hres
    · exact hk f (List.mem_append_right _ hf)
  rcases List.append_eq_append_iff.1 hl with ⟨k, rfl, rfl⟩ | ⟨k, rfl, rfl⟩
  · -- the other call is placed earlier, and changes nothing there
    refine ⟨m₁ ++ e :: k, l₂, x, by simp, ?_, hr, hlater⟩
    obtain ⟨y', hy', hx⟩ := Spec.replay_append.1 hx
    rw [hy] at hy'
    cases hy'
    exact Spec.replay_append.2 ⟨y, hy, Spec.replay_cons.2 ⟨y, he, hx⟩⟩
  · exact ⟨l₁, k ++ e :: m₂, x, by simp, hx, hr, hnew hlater⟩

theorem Placeable.take (hp : Placeable spec a h l n op r) (hl : Linearization spec a h l b)
    (hn : ∀ f ∈ l, f.id ≠ n) (hinv : .invoke n op ∈ h) (hres : ∀ r, .respond n r ∉ h) :
    ∃ l', Linearization spec a h l' b ∧ (∃ e ∈ l', e.id = n ∧ e.result = r) ∧
      (∀ f, f ∈ l' ↔ f ∈ l ∨ f = ⟨n, op, r⟩) ∧
      ∀ n' op' r', Placeable spec a h l n' op' r' → Placeable spec a h l' n' op' r' := by
  obtain ⟨l₁, l₂, x, rfl, hx, hr, hlater⟩ := hp
  obtain ⟨x', hx', hb⟩ := Spec.replay_append.1 hl.legal
  rw [hx] at hx'
  cases hx'
  have hlegal : spec.replay a (l₁ ++ ⟨n, op, r⟩ :: l₂) = some b :=
    Spec.replay_append.2 ⟨x, hx, Spec.replay_cons.2 ⟨x, hr, hb⟩⟩
  refine ⟨_, hl.place hlegal hn hinv hres hlater, ⟨⟨n, op, r⟩, by simp, rfl, rfl⟩, fun f => ?_,
    fun n' op' r' hp' => hp'.insert hx hr hres⟩
  rw [List.mem_append, List.mem_cons, List.mem_append]
  tauto

end Linearization

end

/-! ## Programs that implement an operation -/

section
variable {σ α ω ρ β γ ε : Type} (I : σ → Prop) (abs : σ → α) (spec : Spec α ω ρ) (op : ω)
  (mark : σ → Bool)

/-- `Implements Q D v m p`: by what its earlier statements met, the operation may have any of the results
in `v` without a change, and the state has the mark if `m` says so. A statement leaves the abstract state
alone, or it takes the step of the operation and is the last one; `D r b` says that returning `b`
delivers `r`. Where the program ends without a step, `Q` holds of what it returns. -/
def Prog.Implements (Q : (ρ → Prop) → Bool → β → Prop) (D : ρ → β → Prop) : (ρ → Prop) → Bool → Prog σ β → Prop
  | v, m, .ret b => Q v m b
  | v, m, .stmt f k => ∀ s, I s → (m = true → mark s = true) →
      I (f s) ∧ (mark s = true → mark (f s) = true) ∧
      ((abs (f s) = abs s ∧
          Implements Q D (fun r => v r ∨ spec (abs s) op r = some (abs s)) (mark s) (k s)) ∨
        ∃ r b, spec (abs s) op r = some (abs (f s)) ∧ k s = .ret b ∧ D r b)

variable {I abs spec op mark} {v : ρ → Prop} {m : Bool}

theorem Prog.Implements.mono {Q Q' : (ρ → Prop) → Bool → β → Prop} {D D' : ρ → β → Prop}
    (hQ : ∀ v m b, Q v m b → Q' v m b) (hD : ∀ r b, D r b → D' r b) :
    ∀ {p : Prog σ β} {v : ρ → Prop} {m : Bool}, Implements I abs spec op mark Q D v m p →
      Implements I abs spec op mark Q' D' v m p
  | .ret _, _, _, h => hQ _ _ _ h
  | .stmt _ _, _, _, h => fun s hs hm =>
    have ⟨hI, hmark, hstep⟩ := h s hs hm
    ⟨hI, hmark, hstep.imp (fun ⟨habs, hk⟩ => ⟨habs, hk.mono hQ hD⟩)
      fun ⟨r, b, hspec, hk, hb⟩ => ⟨r, b, hspec, hk, hD r b hb⟩⟩

theorem Prog.Implements.bind {Q : (ρ → Prop) → Bool → γ → Prop} {D : ρ → γ → Prop} {g : β → Prog σ γ} :
    ∀ {p : Prog σ β} {v : ρ → Prop} {m : Bool},
      Implements I abs spec op mark (fun v m b => Implements I abs spec op mark Q D v m (g b))
        (fun r b => ∃ c, g b = .ret c ∧ D r c) v m p →
      Implements I abs spec op mark Q D v m (p >>= g)
  | .ret _, _, _, h => h
  | .stmt _ k, _, _, h => fun s hs hm => by
    obtain ⟨hI, hmark, hstep⟩ := h s hs hm
    refine ⟨hI, hmark, hstep.imp (fun ⟨habs, hk⟩ => ⟨habs, hk.bind⟩) ?_⟩
    rintro ⟨r, b, hspec, hk, c, hg, hD⟩
    refine ⟨r, c, hspec, ?_, hD⟩
    show k s >>= g = _
    rw [hk]
    exact hg

namespace Method

variable {Q : (ρ → Prop) → Bool → Except ε γ → Prop} {D : ρ → Except ε γ → Prop}

theorem implements_read_bind {f : σ → β} {g : β → Method σ ε γ}
    (h : ∀ s, I s → (m = true → mark s = true) → Prog.Implements I abs spec op mark Q D
      (fun r => v r ∨ spec (abs s) op r = some (abs s)) (mark s) (g (f s)).run) :
    Prog.Implements I abs spec op mark Q D v m (Method.read f >>= g).run :=
  fun s hs hm => ⟨hs, id, .inl ⟨rfl, h s hs hm⟩⟩

theorem implements_write_bind {f : σ → σ × β} {g : β → Method σ ε γ} (h : ∀ s, I s → (m = true → mark s = true) →
      I (f s).1 ∧ (mark s = true → mark (f s).1 = true) ∧
      ((abs (f s).1 = abs s ∧ Prog.Implements I abs spec op mark Q D
          (fun r => v r ∨ spec (abs s) op r = some (abs s)) (mark s) (g (f s).2).run) ∨
        ∃ r b, spec (abs s) op r = some (abs (f s).1) ∧ (g (f s).2).run = .ret b ∧ D r b)) :
    Prog.Implements I abs spec op mark Q D v m (Method.write f >>= g).run := h

end Method

end

/-! ## Objects -/

/-- A concurrent object: the program of each operation, and what the surroundings do to the state. -/
structure Object (σ ω ρ η : Type) where
  program : ω → Prog σ ρ
  env : η → σ → σ

/-- A call: the state that its last statement met, what is left of its program, and whether it has
returned. -/
structure Ongoing (σ ω ρ : Type) where
  op : ω
  seen : Option σ
  rest : Prog σ ρ
  returned : Bool

/-- The last statement met the mark. -/
def Ongoing.met {σ ω ρ : Type} (mark : ω → σ → Bool) (c : Ongoing σ ω ρ) : Bool :=
  c.seen.any (mark c.op)

/-- The call has statements left. -/
def Ongoing.underWay {σ ω ρ : Type} (c : Ongoing σ ω ρ) : Bool :=
  match c.rest with
  | .ret _ => false
  | .stmt _ _ => true

/-- The state, the calls in the order they were made, and the history. -/
structure Shared (σ ω ρ : Type) where
  state : σ
  calls : List (Ongoing σ ω ρ) := []
  history : List (Event ω ρ) := []

/-- A call is made, a call makes its next statement or returns, or the surroundings act. -/
inductive Move (ω η : Type)
  | invoke (op : ω)
  | advance (n : Nat)
  | env (e : η)

/-- A move that makes a call makes a valid one. -/
def Move.Valid {ω η : Type} (valid : ω → Prop) : Move ω η → Prop
  | .invoke op => valid op
  | _ => True

theorem Move.Valid.mono {ω η : Type} {valid valid' : ω → Prop} (h : ∀ op, valid op → valid' op) :
    ∀ {b : Move ω η}, b.Valid valid → b.Valid valid'
  | .invoke op, hb => h op hb
  | .advance _, _ | .env _, _ => trivial

instance {ω η : Type} {valid : ω → Prop} [DecidablePred valid] (b : Move ω η) : Decidable (b.Valid valid) :=
  match b with
  | .invoke op => inferInstanceAs (Decidable (valid op))
  | .advance _ | .env _ => isTrue trivial

namespace Object

variable {σ ω ρ η : Type} (O : Object σ ω ρ η)

/-- One step. -/
def step (w : Shared σ ω ρ) : Move ω η → Shared σ ω ρ
  | .invoke op =>
    { w with
      calls := w.calls ++ [⟨op, none, O.program op, false⟩]
      history := w.history ++ [.invoke w.calls.length op] }
  | .advance n =>
    match w.calls[n]? with
    | none => w
    | some c =>
      match c.rest with
      | .stmt f k =>
        { w with
          state := f w.state
          calls := w.calls.set n { c with seen := some w.state, rest := k w.state } }
      | .ret r =>
        if c.returned then w
        else { w with
          calls := w.calls.set n { c with returned := true }
          history := w.history ++ [.respond n r] }
  | .env e => { w with state := O.env e w.state }

/-- The step takes away a mark that a call under way has met. -/
def breaks (mark : ω → σ → Bool) (w : Shared σ ω ρ) (a : Move ω η) : Bool :=
  w.calls.any fun c => c.underWay && c.met mark && !mark c.op (O.step w a).state

/-! ## Runs of an object -/

section
variable {α : Type} (mark : ω → σ → Bool) (I : σ → Prop) (abs : σ → α) (spec : Spec α ω ρ) (a : α)

/-- The program implements its operation. -/
def Correct (op : ω) : Prop :=
  (O.program op).Implements I abs spec op (mark op) (fun v _ r => v r) (fun r b => b = r)
    (fun _ => False) false

/-- The call `n` has its place in the sequence and returns what it says there, or it has none and can
still be placed. -/
def CallSound (h : List (Event ω ρ)) (l : List (Entry ω ρ)) (s : σ) (n : Nat) (c : Ongoing σ ω ρ) : Prop :=
  .invoke n c.op ∈ h ∧
    ((∃ e ∈ l, e.id = n ∧ c.rest = .ret e.result) ∨
      ((∀ e ∈ l, e.id ≠ n) ∧ ∃ v : ρ → Prop,
        c.rest.Implements I abs spec c.op (mark c.op) (fun v _ r => v r) (fun r b => b = r) v (c.met mark) ∧
        (c.underWay = true → c.met mark = true → mark c.op s = true) ∧
        ∀ r, v r → Linearization.Placeable spec a h l n c.op r))

/-- The history so far is explained, and every call fits in. -/
structure Sound (w : Shared σ ω ρ) (l : List (Entry ω ρ)) : Prop where
  lin : Linearization spec a w.history l (abs w.state)
  inv : I w.state
  calls : ∀ n c, w.calls[n]? = some c → CallSound mark I abs spec a w.history l w.state n c
  ids : ∀ i op, .invoke i op ∈ w.history → i < w.calls.length

variable {O mark I abs spec a} {w : Shared σ ω ρ} {l l' : List (Entry ω ρ)} {n : Nat} {c : Ongoing σ ω ρ}

theorem CallSound.transport {h h' : List (Event ω ρ)} {s s' : σ}
    (hc : CallSound mark I abs spec a h l s n c) (hh : ∀ ev ∈ h, ev ∈ h')
    (hl : ∀ e ∈ l, e ∈ l') (hl' : ∀ e ∈ l', e ∈ l ∨ e.id ≠ n)
    (hm : c.underWay = true → c.met mark = true → mark c.op s' = true)
    (hp : ∀ r, Linearization.Placeable spec a h l n c.op r →
      Linearization.Placeable spec a h' l' n c.op r) :
    CallSound mark I abs spec a h' l' s' n c := by
  refine ⟨hh _ hc.1, hc.2.imp (fun ⟨e, he, hrest⟩ => ⟨e, hl e he, hrest⟩) ?_⟩
  rintro ⟨hnone, v, himp, -, hv⟩
  exact ⟨fun e he => (hl' e he).elim (hnone e) id, v, himp, hm, fun r hr => hp r (hv r hr)⟩

theorem Sound.not_responded (hw : Sound mark I abs spec a w l) (hnone : ∀ e ∈ l, e.id ≠ n) (r : ρ) :
    .respond n r ∉ w.history := fun hr => by
  obtain ⟨e, he, hid, -⟩ := hw.lin.responded n r hr
  exact hnone e he hid

theorem mark_of_breaks {b : Move ω η} (hb : O.breaks mark w b = false) (hc : c ∈ w.calls)
    (hu : c.underWay = true) (hm : c.met mark = true) : mark c.op (O.step w b).state = true := by
  simpa [hu, hm] using List.any_eq_false.1 hb c hc

theorem Sound.invoke (hw : Sound mark I abs spec a w l) {op : ω} (hop : O.Correct mark I abs spec op)
    (hb : O.breaks mark w (.invoke op) = false) : Sound mark I abs spec a (O.step w (.invoke op)) l where
  lin := hw.lin.invoke fun e he h => by
    have := hw.ids _ _ (hw.lin.invoked e he)
    omega
  inv := hw.inv
  ids i op' hi := by
    simp only [step, List.length_append, List.length_singleton]
    rcases List.mem_append.1 hi with hi | hi
    · have := hw.ids i op' hi
      omega
    · cases List.mem_singleton.1 hi
      omega
  calls n c hn := by
    simp only [step] at hn ⊢
    rw [List.getElem?_append] at hn
    split at hn
    · next hlt =>
      refine (hw.calls n c hn).transport (fun _ => List.mem_append_left _) (fun _ => id)
        (fun _ => .inl) (fun hu hm => mark_of_breaks hb (List.mem_of_getElem? hn) hu hm)
        fun r hp => hp.event fun op' heq => ?_
      cases heq
      omega
    · obtain ⟨hzero, rfl⟩ := List.getElem?_eq_some_iff.1 hn
      have heq : n = w.calls.length := by
        simp only [List.length_singleton] at hzero
        omega
      simp only [heq, Nat.sub_self]
      refine ⟨List.mem_append_right _ (.head _), .inr ⟨fun e he hid => ?_, fun _ => False, hop, nofun, nofun⟩⟩
      have := hw.ids _ _ (hw.lin.invoked e he)
      omega

theorem Sound.env (hw : Sound mark I abs spec a w l) {e : η}
    (he : I (O.env e w.state) ∧ abs (O.env e w.state) = abs w.state)
    (hb : O.breaks mark w (.env e) = false) : Sound mark I abs spec a (O.step w (.env e)) l where
  lin := by
    simp only [step, he.2]
    exact hw.lin
  inv := he.1
  ids := hw.ids
  calls n c hn := (hw.calls n c hn).transport (fun _ => id) (fun _ => id) (fun _ => .inl)
    (fun hu hm => mark_of_breaks hb (List.mem_of_getElem? hn) hu hm) fun _ => id

theorem calls_set {c' d : Ongoing σ ω ρ} {k : Nat} (hn : w.calls[n]? = some c)
    (hk : (w.calls.set n c')[k]? = some d) : (k = n ∧ d = c') ∨ (k ≠ n ∧ w.calls[k]? = some d) := by
  obtain ⟨hlt, -⟩ := List.getElem?_eq_some_iff.1 hn
  by_cases hkn : k = n
  · subst hkn
    rw [List.getElem?_set_self hlt] at hk
    exact .inl ⟨rfl, (Option.some.inj hk).symm⟩
  · rw [List.getElem?_set_ne (Ne.symm hkn)] at hk
    exact .inr ⟨hkn, hk⟩

theorem Sound.statement (hw : Sound mark I abs spec a w l) {f : σ → σ} {k : σ → Prog σ ρ}
    (hn : w.calls[n]? = some c) (hrest : c.rest = .stmt f k) (hb : O.breaks mark w (.advance n) = false) :
    ∃ l', Sound mark I abs spec a (O.step w (.advance n)) l' := by
  have hstep : O.step w (.advance n) = { w with
      state := f w.state
      calls := w.calls.set n { c with seen := some w.state, rest := k w.state } } := by
    simp only [step, hn, hrest]
  have hmem := List.mem_of_getElem? hn
  obtain ⟨hinv, hplaced | ⟨hnone, v, himp, hmark, hv⟩⟩ := hw.calls n c hn
  · obtain ⟨e, -, -, hret⟩ := hplaced
    rw [hrest] at hret
    cases hret
  · rw [hrest] at himp
    have hunder : c.underWay = true := by simp [Ongoing.underWay, hrest]
    obtain ⟨hI, hkeep, hmove⟩ := himp w.state hw.inv (hmark hunder)
    have hothers : ∀ j d, j ≠ n → w.calls[j]? = some d → d.underWay = true → d.met mark = true →
        mark d.op (f w.state) = true := fun j d _ hj hu hm => by
      have := mark_of_breaks hb (List.mem_of_getElem? hj) hu hm
      rwa [hstep] at this
    have hids : ∀ i op, Event.invoke i op ∈ w.history →
        i < (w.calls.set n { c with seen := some w.state, rest := k w.state }).length := by
      rw [List.length_set]
      exact hw.ids
    rw [hstep]
    rcases hmove with ⟨habs, himp'⟩ | ⟨r, b, hspec, hret, rfl⟩
    · -- nothing changes for the others, and the results allowed here become possible
      refine ⟨l, ⟨?_, hI, fun j d hj => ?_, hids⟩⟩
      · rw [habs]
        exact hw.lin
      · rcases calls_set hn hj with ⟨rfl, rfl⟩ | ⟨hjn, hj⟩
        · refine ⟨hinv, .inr ⟨hnone, _, himp', fun _ => hkeep, fun r hr => ?_⟩⟩
          exact hr.elim (hv r) fun hr => .last hw.lin hr
        · exact (hw.calls j d hj).transport (fun _ => id) (fun _ => id) (fun _ => .inl)
            (hothers j d hjn hj) fun _ => id
    · -- the call takes its step, at the end of the sequence
      have hres := hw.not_responded hnone
      have hlin : Linearization spec a w.history (l ++ [⟨n, c.op, b⟩]) (abs (f w.state)) := by
        have hl := hw.lin
        rw [← List.append_nil l] at hl
        refine hl.place (Spec.replay_append.2 ⟨_, hw.lin.legal, Spec.replay_cons.2 ⟨_, hspec, rfl⟩⟩)
          ?_ hinv hres (List.forall_mem_nil _)
        rwa [List.append_nil]
      refine ⟨_, ⟨hlin, hI, fun j d hj => ?_, hids⟩⟩
      rcases calls_set hn hj with ⟨rfl, rfl⟩ | ⟨hjn, hj⟩
      · exact ⟨hinv, .inl ⟨⟨j, c.op, b⟩, List.mem_append_right _ (.head _), rfl, hret⟩⟩
      · refine (hw.calls j d hj).transport (fun _ => id) (fun _ => List.mem_append_left _) (fun e he => ?_)
          (hothers j d hjn hj) fun r hp => hp.append hres
        rcases List.mem_append.1 he with he | he
        · exact .inl he
        · rw [List.mem_singleton.1 he]
          exact .inr (Ne.symm hjn)

theorem Sound.respond (hw : Sound mark I abs spec a w l) {r : ρ} (hn : w.calls[n]? = some c)
    (hrest : c.rest = .ret r) (hb : O.breaks mark w (.advance n) = false) :
    ∃ l', Sound mark I abs spec a (O.step w (.advance n)) l' := by
  by_cases hret : c.returned = true
  · have hstep : O.step w (.advance n) = w := by simp only [step, hn, hrest, hret, if_true]
    rw [hstep]
    exact ⟨l, hw⟩
  have hstep : O.step w (.advance n) = { w with
      calls := w.calls.set n { c with returned := true }
      history := w.history ++ [.respond n r] } := by
    simp only [step, hn, hrest, hret]
    rfl
  obtain ⟨hinv, hcase⟩ := hw.calls n c hn
  -- a sequence in which the call has its place
  have hplaced : ∃ l', Linearization spec a w.history l' (abs w.state) ∧
      (∃ e ∈ l', e.id = n ∧ e.result = r) ∧ (∀ e ∈ l, e ∈ l') ∧ (∀ e ∈ l', e ∈ l ∨ e.id = n) ∧
      ∀ n' op' r', Linearization.Placeable spec a w.history l n' op' r' →
        Linearization.Placeable spec a w.history l' n' op' r' := by
    rcases hcase with ⟨e, he, hid, hres⟩ | ⟨hnone, v, himp, -, hv⟩
    · rw [hrest] at hres
      cases hres
      exact ⟨l, hw.lin, ⟨e, he, hid, rfl⟩, fun _ => id, fun _ => .inl, fun _ _ _ => id⟩
    · rw [hrest] at himp
      obtain ⟨l', hlin, hmem, hiff, hkeep⟩ := (hv r himp).take hw.lin hnone hinv (hw.not_responded hnone)
      refine ⟨l', hlin, hmem, fun e he => (hiff e).2 (.inl he), fun e he => ?_, hkeep⟩
      exact ((hiff e).1 he).imp_right fun h => by rw [h]
  obtain ⟨l', hlin, ⟨e, he, rfl, rfl⟩, hsub, hnew, hkeep⟩ := hplaced
  rw [hstep]
  refine ⟨l', ⟨hlin.respond he, hw.inv, fun j d hj => ?_, fun i op hi => ?_⟩⟩
  · rcases calls_set hn hj with ⟨rfl, rfl⟩ | ⟨hjn, hj⟩
    · exact ⟨List.mem_append_left _ hinv, .inl ⟨e, he, rfl, hrest⟩⟩
    · refine (hw.calls j d hj).transport (fun _ => List.mem_append_left _) hsub
        (fun f hf => (hnew f hf).imp_right fun h => by rw [h]; exact Ne.symm hjn) (fun hu hm => ?_)
        fun r' hp => (hkeep _ _ _ hp).event fun _ => nofun
      have := mark_of_breaks hb (List.mem_of_getElem? hj) hu hm
      rwa [hstep] at this
  · rw [List.length_set]
    rcases List.mem_append.1 hi with hi | hi
    · exact hw.ids i op hi
    · cases List.mem_singleton.1 hi

theorem Sound.step (hw : Sound mark I abs spec a w l) {b : Move ω η}
    (hb : O.breaks mark w b = false) (hop : b.Valid (O.Correct mark I abs spec))
    (henv : ∀ e s, I s → I (O.env e s) ∧ abs (O.env e s) = abs s) :
    ∃ l', Sound mark I abs spec a (O.step w b) l' := by
  cases b with
  | invoke op => exact ⟨l, hw.invoke hop hb⟩
  | env e => exact ⟨l, hw.env (henv e w.state hw.inv) hb⟩
  | advance n =>
    cases hn : w.calls[n]? with
    | none =>
      have hstep : O.step w (.advance n) = w := by simp only [Object.step, hn]
      rw [hstep]
      exact ⟨l, hw⟩
    | some c =>
      cases hrest : c.rest with
      | ret r => exact hw.respond hn hrest hb
      | stmt f k => exact hw.statement hn hrest hb

theorem linearizable {s : σ} (hs : I s) {bs : List (Move ω η)} (hop : ∀ b ∈ bs, b.Valid (O.Correct mark I abs spec))
    (henv : ∀ e s, I s → I (O.env e s) ∧ abs (O.env e s) = abs s)
    (hrun : Transition.Along O.step (fun w b => O.breaks mark w b = false) { state := s } bs) :
    ∃ l, Linearization spec (abs s) (Transition.run O.step { state := s } bs).history l
      (abs (Transition.run O.step { state := s } bs).state) := by
  have hsound : ∃ l, Sound mark I abs spec (abs s) (Transition.run O.step { state := s } bs) l :=
    Transition.run_induction (I := fun w => ∃ l, Sound mark I abs spec (abs s) w l)
      (fun w b ⟨l, hw⟩ hb => hw.step hb.1 hb.2 henv) ⟨[], ⟨.nil, hs, nofun, nofun⟩⟩ (hrun.and_mem hop)
  exact hsound.imp fun l hl => hl.lin

theorem along_breaks_never {w : Shared σ ω ρ} {bs : List (Move ω η)} :
    Transition.Along O.step (fun w b => O.breaks (fun _ _ => false) w b = false) w bs :=
  Transition.Along.of_run_invariant (I := fun _ => True) (fun _ _ _ => trivial)
    (fun w b _ => by simp [breaks, Ongoing.met]) trivial

end

end Object

end Concurrent
