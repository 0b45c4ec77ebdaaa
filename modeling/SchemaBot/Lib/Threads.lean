import SchemaBot.Lib.Awaits

/-!
# Programs as threads

What systems of programs that run side by side need. `zoom` runs a program on one part of a larger
state, and `exec_zoom` says that it leaves the rest alone. `steps k` makes `k` statements of a program
one after the other; `exists_steps_bind` reads a program back piece by piece: some number of statements
takes it through its first part, with the effect that the first part has when it runs alone.
-/

namespace Concurrent

variable {σ τ α β ε : Type}

/-- A part of a state: how it is read and replaced, and the laws that make it one. -/
structure Part (τ σ : Type) where
  get : τ → σ
  set : τ → σ → τ
  get_set : ∀ t s, get (set t s) = s
  set_get : ∀ t, set t (get t) = t
  set_set : ∀ t s s', set (set t s) s' = set t s'

namespace Prog

/-- The program on a part of the state. -/
def zoom (L : Part τ σ) : Prog σ α → Prog τ α
  | .ret a => .ret a
  | .stmt f k => .stmt (fun t => L.set t (f (L.get t))) fun t => (k (L.get t)).zoom L

theorem exec_zoom (L : Part τ σ) (p : Prog σ α) (t : τ) :
    exec (p.zoom L) t = (L.set t (exec p (L.get t)).1, (exec p (L.get t)).2) := by
  induction p generalizing t with
  | ret a => rw [zoom, exec, exec, L.set_get]
  | stmt f k ih => rw [zoom, exec, ih, L.get_set, L.set_set, exec]

theorem zoom_bind (L : Part τ σ) (p : Prog σ α) (g : α → Prog σ β) :
    (p >>= g).zoom L = p.zoom L >>= fun a => (g a).zoom L := by
  induction p with
  | ret a => rfl
  | stmt f k ih =>
    show Prog.stmt _ _ = Prog.stmt _ _
    congr 1
    funext t
    exact ih (L.get t)

theorem Ensures.zoom {L : Part τ σ} {G : τ → τ → Prop} (hG : ∀ t s, G t (L.set t s)) :
    ∀ p : Prog σ α, Ensures (fun _ => True) G (fun _ => True) (p.zoom L)
  | .ret _ => trivial
  | .stmt _ k => fun t _ => ⟨hG t _, trivial, Ensures.zoom hG (k (L.get t))⟩

theorem Ensures.zoom_inv {L : Part τ σ} {I : σ → Prop} {H : σ → σ → Prop} {G : τ → τ → Prop} {Q : α → Prop}
    (hG : ∀ t s, H (L.get t) s → G t (L.set t s)) {p : Prog σ α} (h : Ensures I H Q p) :
    Ensures (fun t => I (L.get t)) G Q (p.zoom L) := by
  induction p with
  | ret a => exact h
  | stmt f k ih =>
    intro t ht
    obtain ⟨hH, hI, hk⟩ := h (L.get t) ht
    refine ⟨hG t _ hH, ?_, ih _ hk⟩
    show I (L.get (L.set t (f (L.get t))))
    rw [L.get_set]
    exact hI

/-- The state and the rest of the program after `k` statements. -/
def steps : Nat → σ × Prog σ α → σ × Prog σ α
  | 0, c => c
  | k + 1, c => steps k (c.2.next c.1)

theorem steps_add (j k : Nat) (c : σ × Prog σ α) : steps (j + k) c = steps k (steps j c) := by
  induction j generalizing c with
  | zero => rw [Nat.zero_add]; rfl
  | succ j ih => rw [Nat.succ_add, steps, steps, ih]

theorem exists_steps_bind (p : Prog σ α) (g : α → Prog σ β) (s : σ) :
    ∃ k, steps k (s, p >>= g) = ((exec p s).1, g (exec p s).2) := by
  induction p generalizing s with
  | ret a => exact ⟨0, rfl⟩
  | stmt f k ih =>
    obtain ⟨n, hn⟩ := ih s (f s)
    exact ⟨n + 1, hn⟩

theorem exists_steps (p : Prog σ α) (s : σ) : ∃ k, steps k (s, p) = ((exec p s).1, .ret (exec p s).2) := by
  induction p generalizing s with
  | ret a => exact ⟨0, rfl⟩
  | stmt f k ih =>
    obtain ⟨n, hn⟩ := ih s (f s)
    exact ⟨n + 1, hn⟩

end Prog

namespace Method

/-- Run for what it returns, an error or not. -/
def outcome (m : Method σ ε α) : Method σ ε (Except ε α) := ExceptT.mk (m.run >>= fun r => pure (.ok r))

section
variable (L : Part τ σ) (m : Method σ ε α)

/-- The method on a part of the state. -/
def zoom : Method τ ε α := ExceptT.mk (m.run.zoom L)

theorem call_zoom (t : τ) : call (zoom L m) t = (L.set t (call m (L.get t)).1, (call m (L.get t)).2) :=
  Prog.exec_zoom L m.run t

theorem zoom_bind (g : α → Method σ ε β) : zoom L (m >>= g) = zoom L m >>= fun a => zoom L (g a) := by
  refine (Prog.zoom_bind L m.run _).trans ?_
  congr 1
  funext r
  cases r <;> rfl

theorem zoom_attempt : zoom L (attempt m) = attempt (zoom L m) :=
  Prog.zoom_bind L m.run _

end

theorem exists_steps_bind {m : Method σ ε α} {g : α → Method σ ε β} {s s' : σ} {a : α}
    (h : call m s = (s', .ok a)) : ∃ k, Prog.steps k (s, (m >>= g).run) = (s', (g a).run) := by
  obtain ⟨k, hk⟩ := Prog.exists_steps_bind m.run (ExceptT.bindCont g) s
  unfold call at h
  rw [h] at hk
  exact ⟨k, hk⟩

theorem call_outcome (m : Method σ ε α) (s : σ) : call (outcome m) s = ((call m s).1, .ok (call m s).2) := by
  exact Prog.exec_bind m.run _ s

theorem call_attempt (m : Method σ ε α) (s : σ) : call (attempt m) s = ((call m s).1, .ok ()) := by
  exact Prog.exec_bind m.run _ s

end Method

end Concurrent
