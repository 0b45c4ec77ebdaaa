import SchemaBot.Lib.Prog

/-!
# Programs that look before they act

`Awaits P E Q p` says that `p` makes no move of `E` before one of its statements has found or left the
state in `P`; where it ends without that, its result satisfies `Q`. The others may move the state in any
way between two statements of `p`, so what `p` has met need not hold any more when it acts.

`next` is one statement of a program, for systems in which programs run side by side, and `Awaits.next`
says what is left of the property after one statement.
-/

namespace Concurrent

variable {σ α β ε : Type} {P : σ → Prop} {E : σ → σ → Prop}

namespace Prog

/-- The state after one statement, and the rest of the program. -/
def next : Prog σ α → σ → σ × Prog σ α
  | .ret a, s => (s, .ret a)
  | .stmt f k, s => (f s, k s)

/-- No move of `E` before the program has met `P`. -/
def Awaits (P : σ → Prop) (E : σ → σ → Prop) (Q : α → Prop) : Prog σ α → Prop
  | .ret a => Q a
  | .stmt f k => ∀ s, (E s (f s) → P s) ∧ (P s ∨ P (f s) ∨ Awaits P E Q (k s))

theorem Awaits.mono {Q Q' : α → Prop} (hQ : ∀ a, Q a → Q' a) : ∀ {p : Prog σ α}, Awaits P E Q p → Awaits P E Q' p
  | .ret a, h => hQ a h
  | .stmt _ _, h => fun s => ⟨(h s).1, (h s).2.imp_right fun h' => h'.imp_right (Awaits.mono hQ)⟩

theorem Awaits.bind {R : β → Prop} {g : α → Prog σ β} :
    ∀ {p : Prog σ α}, Awaits P E (fun a => Awaits P E R (g a)) p → Awaits P E R (p >>= g)
  | .ret _, h => h
  | .stmt _ _, h => fun s => ⟨(h s).1, (h s).2.imp_right fun h' => h'.imp_right Awaits.bind⟩

theorem Awaits.next {Q : α → Prop} {p : Prog σ α} (h : Awaits P E Q p) (hE : ∀ s, ¬ E s s) (s : σ) :
    (E s (p.next s).1 → P s) ∧ (P s ∨ P (p.next s).1 ∨ Awaits P E Q (p.next s).2) := by
  cases p with
  | ret a => exact ⟨fun hs => absurd hs (hE s), .inr (.inr h)⟩
  | stmt f k => exact h s

end Prog

namespace Method

/-- `Prog.Awaits` of a method; a method that fails leaves nothing to say. -/
def Awaits (P : σ → Prop) (E : σ → σ → Prop) (Q : α → Prop) (m : Method σ ε α) : Prop :=
  Prog.Awaits P E (fun | .ok a => Q a | .error _ => True) m.run

namespace Awaits

variable {Q : α → Prop} {R : β → Prop} {m : Method σ ε α}

theorem pure {a : α} (h : Q a) : Awaits P E Q (pure a : Method σ ε α) := h

theorem throw (e : ε) : Awaits P E Q (throw e : Method σ ε α) := trivial

theorem mono {Q' : α → Prop} (hQ : ∀ a, Q a → Q' a) (h : Awaits P E Q m) : Awaits P E Q' m := by
  refine Prog.Awaits.mono (fun r hr => ?_) h
  cases r with
  | ok a => exact hQ a hr
  | error e => trivial

theorem bind {g : α → Method σ ε β} (h : Awaits P E (fun a => Awaits P E R (g a)) m) : Awaits P E R (m >>= g) := by
  refine Prog.Awaits.bind (Prog.Awaits.mono (fun r hr => ?_) h)
  cases r with
  | ok a => exact hr
  | error e => trivial

theorem lift {r : Except ε α} (h : ∀ a, r = .ok a → Q a) : Awaits P E Q (lift r : Method σ ε α) := by
  cases r with
  | ok a => exact h a rfl
  | error e => trivial

theorem read (hE : ∀ s, ¬ E s s) {f : σ → α} (h : ∀ s, P s ∨ Q (f s)) : Awaits P E Q (read f : Method σ ε α) :=
  fun s => ⟨fun hs => absurd hs (hE s), (h s).imp_right .inr⟩

theorem transaction (hE : ∀ s, ¬ E s s) {f : σ → Except ε (σ × α)}
    (h : ∀ s t a, f s = .ok (t, a) → (E s t → P s) ∧ (P s ∨ P t ∨ Q a)) :
    Awaits P E Q (transaction f : Method σ ε α) := by
  intro s
  cases hf : f s with
  | ok r =>
    obtain ⟨t, a⟩ := r
    simpa [Prog.Awaits, hf] using h s t a hf
  | error e => simpa [Prog.Awaits, hf] using fun hs => absurd hs (hE s)

theorem of_always {G : σ → σ → Prop} (hG : ∀ s t, G s t → ¬ E s t) (h : Always (fun _ => True) G m) :
    Awaits P E (fun _ => True) m := by
  unfold Awaits
  unfold Always Ensures at h
  generalize m.run = p at h
  induction p with
  | ret r => cases r <;> trivial
  | stmt f k ih =>
    intro s
    obtain ⟨hE, -, hk⟩ := h s trivial
    exact ⟨fun hs => absurd hs (hG _ _ hE), .inr (.inr (ih s hk))⟩

theorem discard (h : Awaits P E Q m) : Awaits P E (fun _ => True) (discard m) :=
  bind (h.mono fun _ _ => pure trivial)

theorem attempt (h : Awaits P E Q m) : Awaits P E (fun _ => True) (attempt m) :=
  Prog.Awaits.bind (Prog.Awaits.mono (fun _ _ => trivial) h)

end Awaits

end Method

end Concurrent
