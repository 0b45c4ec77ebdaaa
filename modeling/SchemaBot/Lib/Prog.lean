import Mathlib.Logic.Relation

/-!
# Programs over a shared state, and their interleavings

A `Prog σ α` is a sequence of atomic statements on a state `σ` that other programs share; what
follows a statement may depend on what it read. `exec` runs a program with nobody else around, which
is how a transaction runs. `Runs rely` runs it with steps of the others, bounded by `rely`, between
any two of its statements, and records what each statement of its own did to the state.

`Ensures I G Q p` is the rely-guarantee reading of `p`: started anywhere in the stable set `I`, every
statement of `p` moves the state by a step of `G` and the result satisfies `Q`. `Ensures.runs` is its
soundness for interleaved runs, `Ensures.bind` composes it along `do`.
-/

namespace Concurrent

theorem bind_eq_ok {ε α β : Type} {x : Except ε α} {f : α → Except ε β} {b : β}
    (h : x >>= f = .ok b) : ∃ a, x = .ok a ∧ f a = .ok b := by
  cases x with
  | ok a => exact ⟨a, rfl, h⟩
  | error e => cases h

/-- A program: a result, or a statement that moves the state by `f` and goes on with `k` of the
state it read. -/
inductive Prog (σ α : Type) where
  | ret (a : α)
  | stmt (f : σ → σ) (k : σ → Prog σ α)

namespace Prog

variable {σ α β ε : Type}

/-- Sequential composition. -/
def bind : Prog σ α → (α → Prog σ β) → Prog σ β
  | .ret a, g => g a
  | .stmt f k, g => .stmt f fun s => (k s).bind g

instance : Monad (Prog σ) where
  pure := .ret
  bind := .bind

/-- One statement that reads and writes. -/
def atomically (f : σ → σ × α) : Prog σ α := .stmt (fun s => (f s).1) fun s => .ret (f s).2

/-- The run of a program that nothing interrupts. -/
def exec : Prog σ α → σ → σ × α
  | .ret a, s => (s, a)
  | .stmt f k, s => (k s).exec (f s)

@[simp] theorem exec_bind (p : Prog σ α) (g : α → Prog σ β) (s : σ) :
    exec (p >>= g) s = exec (g (exec p s).2) (exec p s).1 := by
  show exec (p.bind g) s = _
  induction p generalizing s with
  | ret a => rfl
  | stmt f k ih => exact ih s (f s)

/-! ## Interleaved runs -/

/-- `Runs rely p s tr a s'`: started at `s`, `p` ends at `s'` with result `a`, its own statements
making the moves `tr`, with steps of `rely` by others in between. -/
inductive Runs (rely : σ → σ → Prop) : Prog σ α → σ → List (σ × σ) → α → σ → Prop
  | ret {a : α} {s : σ} : Runs rely (.ret a) s [] a s
  | other {p : Prog σ α} {s t s' : σ} {tr : List (σ × σ)} {a : α} :
      rely s t → Runs rely p t tr a s' → Runs rely p s tr a s'
  | own {f : σ → σ} {k : σ → Prog σ α} {s s' : σ} {tr : List (σ × σ)} {a : α} :
      Runs rely (k s) (f s) tr a s' → Runs rely (.stmt f k) s ((s, f s) :: tr) a s'

theorem runs_exec (rely : σ → σ → Prop) (p : Prog σ α) (s : σ) :
    ∃ tr, Runs rely p s tr (exec p s).2 (exec p s).1 := by
  induction p generalizing s with
  | ret a => exact ⟨[], .ret⟩
  | stmt f k ih =>
    obtain ⟨tr, h⟩ := ih s (f s)
    exact ⟨(s, f s) :: tr, .own h⟩

theorem runs_ret {rely : σ → σ → Prop} {a b : α} {s s' : σ} {tr : List (σ × σ)}
    (h : Runs rely (.ret a) s tr b s') : tr = [] ∧ b = a := by
  generalize hp : (Prog.ret a : Prog σ α) = p at h
  induction h with
  | ret => cases hp; exact ⟨rfl, rfl⟩
  | other _ _ ih => exact ih hp
  | own => cases hp

theorem runs_bind {rely : σ → σ → Prop} {p : Prog σ α} {g : α → Prog σ β} {s s' : σ}
    {tr : List (σ × σ)} {b : β} (h : Runs rely (p >>= g) s tr b s') :
    ∃ a t tr₁ tr₂, Runs rely p s tr₁ a t ∧ Runs rely (g a) t tr₂ b s' ∧ tr = tr₁ ++ tr₂ := by
  generalize hq : p >>= g = q at h
  induction h generalizing p with
  | ret =>
    cases p with
    | ret a =>
      have hg : g a = _ := hq
      exact ⟨a, _, [], [], .ret, by rw [hg]; exact .ret, rfl⟩
    | stmt => cases hq
  | other hst _ ih =>
    obtain ⟨a, t, tr₁, tr₂, h₁, h₂, rfl⟩ := ih hq
    exact ⟨a, t, tr₁, tr₂, .other hst h₁, h₂, rfl⟩
  | own hrest ih =>
    cases p with
    | ret a =>
      have hg : g a = _ := hq
      exact ⟨a, _, [], _, .ret, by rw [hg]; exact .own hrest, rfl⟩
    | stmt f k =>
      cases hq
      obtain ⟨a, t, tr₁, tr₂, h₁, h₂, rfl⟩ := ih rfl
      exact ⟨a, t, _ :: tr₁, tr₂, .own h₁, h₂, rfl⟩

/-- Started in `I`, every statement is a step of `G` inside `I`, and the result satisfies `Q`. -/
def Ensures (I : σ → Prop) (G : σ → σ → Prop) (Q : α → Prop) : Prog σ α → Prop
  | .ret a => Q a
  | .stmt f k => ∀ s, I s → G s (f s) ∧ I (f s) ∧ Ensures I G Q (k s)

section
variable {I : σ → Prop} {G : σ → σ → Prop} {Q : α → Prop} {R : β → Prop}

theorem Ensures.mono {Q' : α → Prop} (hQ : ∀ a, Q a → Q' a) : ∀ {p : Prog σ α}, Ensures I G Q p → Ensures I G Q' p
  | .ret a, h => hQ a h
  | .stmt _ _, h => fun s hs => ⟨(h s hs).1, (h s hs).2.1, Ensures.mono hQ (h s hs).2.2⟩

theorem Ensures.imp {G' : σ → σ → Prop} (hG : ∀ s t, G s t → G' s t) :
    ∀ {p : Prog σ α}, Ensures I G Q p → Ensures I G' Q p
  | .ret _, h => h
  | .stmt _ _, h => fun s hs => ⟨hG _ _ (h s hs).1, (h s hs).2.1, Ensures.imp hG (h s hs).2.2⟩

theorem Ensures.bind {g : α → Prog σ β} :
    ∀ {p : Prog σ α}, Ensures I G (fun a => Ensures I G R (g a)) p → Ensures I G R (p >>= g)
  | .ret _, h => h
  | .stmt _ _, h => fun s hs => ⟨(h s hs).1, (h s hs).2.1, Ensures.bind (h s hs).2.2⟩

/-- Soundness: in every interleaving with others that keep `I`, each statement of the program is a
step of `G`, and the result satisfies `Q`. -/
theorem Ensures.runs {rely : σ → σ → Prop} (hrely : ∀ s t, I s → rely s t → I t)
    {p : Prog σ α} {s s' : σ} {tr : List (σ × σ)} {a : α} (hr : Runs rely p s tr a s')
    (hp : Ensures I G Q p) (hs : I s) : (∀ m ∈ tr, G m.1 m.2) ∧ Q a ∧ I s' := by
  induction hr with
  | ret => exact ⟨nofun, hp, hs⟩
  | other hst _ ih => exact ih hp (hrely _ _ hs hst)
  | own _ ih =>
    obtain ⟨hG, hI, hk⟩ := hp _ hs
    obtain ⟨htr, hQ, hI'⟩ := ih hk hI
    refine ⟨fun m hm => ?_, hQ, hI'⟩
    rcases List.mem_cons.1 hm with rfl | hm
    · exact hG
    · exact htr m hm

/-- A statement of `p` takes `s` to `t`: its first one, or one that follows when the earlier ones read
states of `I`. -/
inductive Statement (I : σ → Prop) : Prog σ α → σ → σ → Prop
  | here {f : σ → σ} {k : σ → Prog σ α} {s : σ} : Statement I (.stmt f k) s (f s)
  | later {f : σ → σ} {k : σ → Prog σ α} {s₀ s t : σ} :
      I s₀ → Statement I (k s₀) s t → Statement I (.stmt f k) s t

theorem Ensures.statement {p : Prog σ α} {s t : σ} (hp : Ensures I G Q p) (hs : I s)
    (h : Statement I p s t) : G s t ∧ I t := by
  induction h with
  | here => exact ⟨(hp _ hs).1, (hp _ hs).2.1⟩
  | later h₀ _ ih => exact ih (hp _ h₀).2.2 hs

theorem Ensures.exec_statements {p : Prog σ α} {s : σ} (hp : Ensures I G Q p) (hs : I s) :
    Relation.ReflTransGen (Statement I p) s (exec p s).1 := by
  induction p generalizing s with
  | ret a => exact .refl
  | stmt f k ih =>
    obtain ⟨-, hI, hk⟩ := hp s hs
    exact .head .here (Relation.ReflTransGen.mono (fun _ _ => .later hs) _ _ (ih s hk hI))

end

end Prog

/-! ## Programs that may fail -/

/-- A program that may end with an error. -/
abbrev Method (σ ε : Type) := ExceptT ε (Prog σ)

namespace Method

variable {σ α β ε : Type} {I : σ → Prop} {G : σ → σ → Prop}

/-- Run alone: the state after the call and what it returned. -/
def call (m : Method σ ε α) (s : σ) : σ × Except ε α := Prog.exec m.run s

/-- What is computed without the state. -/
def lift (r : Except ε α) : Method σ ε α := ExceptT.mk (pure r)

/-- A statement that only reads. -/
def read (f : σ → α) : Method σ ε α := (Prog.atomically fun s => (s, f s) : Prog σ α)

/-- A statement that writes, with what it reports. -/
def write (f : σ → σ × α) : Method σ ε α := (Prog.atomically f : Prog σ α)

/-- A transaction: a statement that rolls back when it fails. -/
def transaction (f : σ → Except ε (σ × α)) : Method σ ε α :=
  ExceptT.mk <| Prog.atomically fun s =>
    match f s with
    | .ok (s', a) => (s', .ok a)
    | .error e => (s, .error e)

/-- Run for its effect: what it returns, an error or not, is dropped. -/
def attempt (m : Method σ ε α) : Method σ ε Unit := ExceptT.mk (m.run >>= fun _ => pure (.ok ()))

@[simp] theorem call_pure (a : α) (s : σ) : call (pure a : Method σ ε α) s = (s, .ok a) := rfl

@[simp] theorem call_throw (e : ε) (s : σ) : call (throw e : Method σ ε α) s = (s, .error e) := rfl

@[simp] theorem call_lift (r : Except ε α) (s : σ) : call (lift r : Method σ ε α) s = (s, r) := rfl

@[simp] theorem call_read (f : σ → α) (s : σ) : call (read f : Method σ ε α) s = (s, .ok (f s)) :=
  rfl

@[simp] theorem call_write (f : σ → σ × α) (s : σ) : call (write f : Method σ ε α) s = ((f s).1, .ok (f s).2) := rfl

theorem call_transaction (f : σ → Except ε (σ × α)) (s : σ) : call (transaction f) s =
      match f s with
      | .ok (s', a) => (s', .ok a)
      | .error e => (s, .error e) := rfl

theorem call_bind (m : Method σ ε α) (g : α → Method σ ε β) (s : σ) : call (m >>= g) s =
      match call m s with
      | (s', .ok a) => call (g a) s'
      | (s', .error e) => (s', .error e) := by
  show Prog.exec (m.run >>= _) s = _
  rw [Prog.exec_bind]
  unfold call
  generalize Prog.exec m.run s = r
  obtain ⟨s', _ | a⟩ := r <;> rfl

theorem call_bind_pure (m : Method σ ε α) (g : α → β) (s : σ) :
    (call (m >>= fun a => pure (g a)) s).1 = (call m s).1 := by
  rw [call_bind]
  generalize call m s = r
  obtain ⟨s', _ | a⟩ := r <;> rfl

theorem call_discard (m : Method σ ε α) (s : σ) : (call (discard m) s).1 = (call m s).1 :=
  call_bind_pure m (fun _ => PUnit.unit) s

theorem call_bind_throw (m : Method σ ε α) (g : α → ε) (s : σ) :
    (call (m >>= fun a => (throw (g a) : Method σ ε β)) s).1 = (call m s).1 := by
  rw [call_bind]
  generalize call m s = r
  obtain ⟨s', _ | a⟩ := r <;> rfl

theorem call_bind_ok {m : Method σ ε α} {g : α → Method σ ε β} {s s' : σ} {a : α}
    (h : call m s = (s', .ok a)) : call (m >>= g) s = call (g a) s' := by rw [call_bind, h]

/-- `Prog.Ensures` of a method, with a postcondition for what it returns and one for how it fails. -/
def Ensures (I : σ → Prop) (G : σ → σ → Prop) (Q : Except ε α → Prop) (m : Method σ ε α) : Prop :=
  Prog.Ensures I G Q m.run

section
variable {Q : Except ε α → Prop} {R : Except ε β → Prop}

theorem Ensures.mono {Q' : Except ε α → Prop} {m : Method σ ε α} (hQ : ∀ r, Q r → Q' r)
    (h : Ensures I G Q m) : Ensures I G Q' m := Prog.Ensures.mono hQ h

theorem Ensures.bind {m : Method σ ε α} {g : α → Method σ ε β}
    (h : Ensures I G (fun | .ok a => Ensures I G R (g a) | .error e => R (.error e)) m) :
    Ensures I G R (m >>= g) := by
  refine Prog.Ensures.bind (Prog.Ensures.mono (fun r hr => ?_) h)
  cases r with
  | ok a | error e => exact hr

theorem Ensures.andThen {m : Method σ ε α} {g : α → Method σ ε β} (hm : Ensures I G Q m)
    (hok : ∀ a, Q (.ok a) → Ensures I G R (g a)) (herror : ∀ e, Q (.error e) → R (.error e)) :
    Ensures I G R (m >>= g) := by
  refine .bind (hm.mono fun r hr => ?_)
  cases r with
  | ok a => exact hok a hr
  | error e => exact herror e hr

theorem Ensures.pure {a : α} (h : Q (.ok a)) : Ensures I G Q (pure a : Method σ ε α) := h

theorem Ensures.lift {r : Except ε α} (h : Q r) : Ensures I G Q (lift r : Method σ ε α) := h

theorem Ensures.read {f : σ → α} (hG : ∀ s, G s s) (h : ∀ s, I s → Q (.ok (f s))) :
    Ensures I G Q (read f : Method σ ε α) := fun s hs => ⟨hG s, hs, h s hs⟩

theorem Ensures.write {f : σ → σ × α} (h : ∀ s, I s → G s (f s).1 ∧ I (f s).1 ∧ Q (.ok (f s).2)) :
    Ensures I G Q (write f : Method σ ε α) := h

theorem Ensures.transaction {f : σ → Except ε (σ × α)} (hG : ∀ s, G s s)
    (hok : ∀ s s' a, I s → f s = .ok (s', a) → G s s' ∧ I s' ∧ Q (.ok a))
    (herr : ∀ s e, I s → f s = .error e → Q (.error e)) : Ensures I G Q (transaction f : Method σ ε α) := by
  intro s hs
  cases h : f s with
  | ok r =>
    obtain ⟨s', a⟩ := r
    simpa [Prog.Ensures, h] using hok s s' a hs h
  | error e => simpa [Prog.Ensures, h] using ⟨hG s, hs, herr s e hs h⟩

theorem Ensures.within {m : Method σ ε α} (hI : ∀ s t, I s → G s t → I t)
    (h : Ensures (fun _ => True) G Q m) : Ensures I G Q m := by
  unfold Ensures at h ⊢
  generalize m.run = p at h
  induction p with
  | ret a => exact h
  | stmt f k ih =>
    intro s hs
    obtain ⟨hstep, -, hk⟩ := h s trivial
    exact ⟨hstep, hI _ _ hs hstep, ih _ hk⟩

theorem Ensures.keeping {m : Method σ ε α} (h : Ensures I G Q m) :
    Ensures I (fun s t => G s t ∧ (I s → I t)) Q m := by
  unfold Ensures at h ⊢
  generalize m.run = p at h
  induction p with
  | ret a => exact h
  | stmt f k ih =>
    intro s hs
    obtain ⟨hstep, ht, hk⟩ := h s hs
    exact ⟨⟨hstep, fun _ => ht⟩, ht, ih _ hk⟩

theorem Ensures.call (hrefl : ∀ s, G s s) (htrans : ∀ s t u, G s t → G t u → G s u)
    {m : Method σ ε α} {s : σ} (h : Ensures I G Q m) (hs : I s) :
    G s (call m s).1 ∧ I (call m s).1 ∧ Q (call m s).2 := by
  unfold Ensures at h
  unfold Method.call
  generalize m.run = p at h
  induction p generalizing s with
  | ret a => exact ⟨hrefl s, hs, h⟩
  | stmt f k ih =>
    obtain ⟨hG, hI, hk⟩ := h s hs
    obtain ⟨hG', hI', hQ⟩ := ih s hI hk
    exact ⟨htrans _ _ _ hG hG', hI', hQ⟩

theorem Ensures.runs {rely : σ → σ → Prop} (hrely : ∀ s t, I s → rely s t → I t)
    {m : Method σ ε α} {s s' : σ} {tr : List (σ × σ)} {r : Except ε α}
    (hr : Prog.Runs rely m.run s tr r s') (hm : Ensures I G Q m) (hs : I s) : (∀ x ∈ tr, G x.1 x.2) ∧ Q r :=
  have h := Prog.Ensures.runs hrely hr hm hs
  ⟨h.1, h.2.1⟩

end

/-! ## What every statement of a method does -/

/-- Every statement of the method is a step of `G` inside `I`, whatever it returns. -/
def Always (I : σ → Prop) (G : σ → σ → Prop) (m : Method σ ε α) : Prop :=
  Ensures I G (fun _ => True) m

/-- Every write is a step of `G`, from any state. -/
abbrev Only (G : σ → σ → Prop) (m : Method σ ε α) : Prop := Always (fun _ => True) G m

namespace Always

theorem pure (a : α) : Always I G (pure a : Method σ ε α) := trivial

theorem throw (e : ε) : Always I G (throw e : Method σ ε α) := trivial

theorem lift (r : Except ε α) : Always I G (lift r : Method σ ε α) := trivial

theorem bind {m : Method σ ε α} {g : α → Method σ ε β} (hm : Always I G m)
    (hg : ∀ a, Always I G (g a)) : Always I G (m >>= g) :=
  Ensures.andThen hm (fun a _ => hg a) fun _ _ => trivial

theorem ite {c : Prop} [Decidable c] {m m' : Method σ ε α} (h : c → Always I G m) (h' : ¬ c → Always I G m') :
    Always I G (if c then m else m') :=
  iteInduction h h'

theorem discard {m : Method σ ε α} (hm : Always I G m) : Always I G (discard m) :=
  bind hm fun _ => pure _

theorem read (hG : ∀ s, G s s) (f : σ → α) : Always I G (read f : Method σ ε α) :=
  Ensures.read hG fun _ _ => trivial

theorem write {f : σ → σ × α} (h : ∀ s, I s → G s (f s).1 ∧ I (f s).1) : Always I G (write f : Method σ ε α) :=
  Ensures.write fun s hs => ⟨(h s hs).1, (h s hs).2, trivial⟩

theorem step {f : σ → σ × α} (h : ∀ s, G s (f s).1) : Only G (Method.write f : Method σ ε α) :=
  write fun s _ => ⟨h s, trivial⟩

theorem transaction {f : σ → Except ε (σ × α)} (hG : ∀ s, G s s)
    (h : ∀ s t a, I s → f s = .ok (t, a) → G s t ∧ I t) : Always I G (transaction f : Method σ ε α) :=
  Ensures.transaction hG (fun s t a hs hf => ⟨(h s t a hs hf).1, (h s t a hs hf).2, trivial⟩)
    fun _ _ _ _ => trivial

theorem forM {f : α → Method σ ε PUnit} {xs : List α} (hf : ∀ x, Always I G (f x)) : Always I G (xs.forM f) := by
  induction xs with
  | nil => exact pure _
  | cons x xs ih => exact bind (hf x) fun _ => ih

end Always

section
variable {rely : σ → σ → Prop} {s s' : σ} {tr : List (σ × σ)} {f : σ → α}

/-- An interleaved run that starts with a read: others move, the read sees the state they leave, and
the rest runs from there. -/
theorem runs_read_bind {g : α → Method σ ε β} {r : Except ε β} (h : Prog.Runs rely (read f >>= g).run s tr r s') :
    ∃ t tr', Relation.ReflTransGen rely s t ∧ tr = (t, t) :: tr' ∧
      Prog.Runs rely (g (f t)).run t tr' r s' := by
  generalize hp : (read f >>= g).run = p at h
  induction h with
  | ret => cases hp
  | other hst _ ih =>
    obtain ⟨t, tr', ht, htr, hrest⟩ := ih hp
    exact ⟨t, tr', .head hst ht, htr, hrest⟩
  | own hrest =>
    cases hp
    exact ⟨_, _, .refl, rfl, hrest⟩

theorem runs_write {f : σ → σ × α} {r : Except ε α} (h : Prog.Runs rely (write f : Method σ ε α).run s tr r s') :
    ∃ t, Relation.ReflTransGen rely s t ∧ tr = [(t, (f t).1)] ∧ r = .ok (f t).2 := by
  generalize hp : (write f : Method σ ε α).run = p at h
  induction h with
  | ret => cases hp
  | other hst _ ih =>
    obtain ⟨t, ht, htr, hr⟩ := ih hp
    exact ⟨t, .head hst ht, htr, hr⟩
  | own hrest =>
    cases hp
    obtain ⟨htr, hr⟩ := Prog.runs_ret hrest
    exact ⟨_, .refl, by rw [htr], hr⟩

theorem runs_pure {a : α} {r : Except ε α}
    (h : Prog.Runs rely (pure a : Method σ ε α).run s tr r s') : tr = [] ∧ r = .ok a :=
  Prog.runs_ret h

theorem runs_discard {m : Method σ ε α} {r : Except ε Unit}
    (h : Prog.Runs rely (discard m).run s tr r s') : ∃ a t, Prog.Runs rely m.run s tr a t := by
  obtain ⟨a, t, tr₁, tr₂, h₁, h₂, rfl⟩ := Prog.runs_bind h
  cases a with
  | ok a | error e => rw [(Prog.runs_ret h₂).1, List.append_nil]; exact ⟨_, t, h₁⟩

end

end Method

end Concurrent
