import SchemaBot.Lib.Prog

/-!
# Transactions whose statements may fail

The body of a transaction works on a copy of the state and counts its statements. A fault plan says
which statement is answered with an error instead of being executed. The transaction is committed by a
last statement, or rolled back.

`Refines m f` says that where the body `m` succeeds it does what the function `f` does; the rules follow
the structure of the body, and `Refines.commit` is the law that results: a transaction leaves the state
as it was, or has done what it refines.
-/

namespace Concurrent

variable {σ ε α β : Type}

/-- Which statements of a transaction fail, by their number, and how. -/
abbrev FaultPlan (ε : Type) := Nat → Option ε

/-- The body of a transaction: the state it works on, and the number of statements so far. -/
abbrev Tx (σ ε : Type) := StateT (σ × Nat) (Except ε)

namespace Tx

/-- A statement, which may be answered with an error. -/
def stmt (fault : FaultPlan ε) (f : σ → Except ε (σ × α)) : Tx σ ε α := fun (s, n) =>
  match fault n with
  | some e => .error e
  | none => do
    let (s', a) ← f s
    .ok (a, s', n + 1)

/-- What is computed between statements. -/
def check (r : Except ε α) : Tx σ ε α := fun c => do
  let a ← r
  .ok (a, c)

/-- The transaction, with the commit as its last statement. -/
def commit (fault : FaultPlan ε) (m : Tx σ ε α) : Method σ ε α :=
  Method.transaction fun s => do
    let (a, s', n) ← m (s, 0)
    match fault n with
    | some e => .error e
    | none => .ok (s', a)

/-- Where the body succeeds, it does what `f` does. -/
def Refines (m : Tx σ ε α) (f : σ → Except ε (σ × α)) : Prop :=
  ∀ s n a t n', m (s, n) = .ok (a, t, n') → f s = .ok (t, a)

namespace Refines

theorem stmt (fault : FaultPlan ε) (f : σ → Except ε (σ × α)) : Refines (stmt fault f) f := by
  intro s n a t n' h
  unfold Tx.stmt at h
  dsimp only at h
  split at h
  · cases h
  · obtain ⟨⟨s', a'⟩, hf, h⟩ := bind_eq_ok h
    cases h
    exact hf

theorem pure (a : α) : Refines (pure a : Tx σ ε α) fun s => .ok (s, a) := by
  intro s n a' t n' h
  cases h
  rfl

theorem check {r : Except ε α} {g : α → Tx σ ε β} {k : α → σ → Except ε (σ × β)}
    (hg : ∀ a, Refines (g a) (k a)) : Refines (Tx.check r >>= g) fun s => r >>= fun a => k a s := by
  intro s n b t n' h
  obtain ⟨⟨a, s', n''⟩, hr, h⟩ := bind_eq_ok h
  obtain ⟨a', rfl, hr⟩ := bind_eq_ok hr
  cases hr
  exact hg a s n b t n' h

theorem bind {m : Tx σ ε α} {f : σ → Except ε (σ × α)} {g : α → Tx σ ε β}
    {k : σ × α → Except ε (σ × β)} (hm : Refines m f) (hg : ∀ a, Refines (g a) fun s => k (s, a)) :
    Refines (m >>= g) fun s => f s >>= k := by
  intro s n b t n' h
  obtain ⟨⟨a, s', n''⟩, hma, h⟩ := bind_eq_ok h
  have hf : f s = .ok (s', a) := hm s n a s' n'' hma
  show f s >>= k = .ok (t, b)
  rw [hf]
  exact hg a s' n'' b t n' h

theorem congr {m : Tx σ ε α} {f f' : σ → Except ε (σ × α)} (hm : Refines m f) (h : ∀ s, f s = f' s) :
    Refines m f' :=
  fun s n a t n' hs => (h s).symm.trans (hm s n a t n' hs)

theorem commit {m : Tx σ ε α} {f : σ → Except ε (σ × α)} (hm : Refines m f) (fault : FaultPlan ε) (s : σ) :
    (∃ e, Method.call (commit fault m) s = (s, .error e)) ∨
      ∃ t a, Method.call (commit fault m) s = (t, .ok a) ∧ f s = .ok (t, a) := by
  unfold Tx.commit
  rw [Method.call_transaction]
  split
  · next t a hf =>
    obtain ⟨⟨a', s', n⟩, hma, hf⟩ := bind_eq_ok hf
    dsimp only at hf
    split at hf
    · cases hf
    · cases hf
      exact .inr ⟨t, a, rfl, hm s 0 a t n hma⟩
  · next e _ => exact .inl ⟨e, rfl⟩

end Refines

end Tx

end Concurrent
