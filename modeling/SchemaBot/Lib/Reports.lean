import SchemaBot.Lib.Threads

/-!
# Programs that report what they did

`Faithful E report p` says that the result of `p` tells its caller whether `p` made a move of `E`: the
statement that makes the move is the last one and the result reports it, and a result that reports the
move comes from nowhere else. `Faithful.next` is the step rule for programs that run side by side.

`Method.Delivers I Q m` is the other thing a caller relies on: among others that keep `I` the method
does not fail, and what it returns satisfies `Q`. `Method.FailsOnly E m` says the same of how it fails: whatever
others do, with an error of `E` or not at all.
-/

namespace Concurrent

variable {σ α β ε : Type} {E : σ → σ → Prop}

namespace Prog

/-- The program reports a move of `E` exactly where it makes one. -/
def Faithful (E : σ → σ → Prop) (report : α → Prop) : Prog σ α → Prop
  | .ret a => ¬ report a
  | .stmt f k => ∀ s, (E s (f s) ∧ ∃ a, k s = .ret a ∧ report a) ∨ (¬ E s (f s) ∧ Faithful E report (k s))

section
variable {report : α → Prop}

theorem Faithful.bind {report : β → Prop} {g : α → Prog σ β} :
    ∀ {p : Prog σ α}, Ensures (fun _ => True) (fun s t => ¬ E s t) (fun a => Faithful E report (g a)) p →
      Faithful E report (p >>= g)
  | .ret _, h => h
  | .stmt _ _, h => fun s =>
    .inr ⟨(h s trivial).1, Faithful.bind (h s trivial).2.2⟩

theorem Faithful.next {p : Prog σ α} (h : Faithful E report p) (hE : ∀ s, ¬ E s s) (s : σ) :
    (E s (p.next s).1 ∧ ∃ a, (p.next s).2 = .ret a ∧ report a) ∨
      (¬ E s (p.next s).1 ∧ Faithful E report (p.next s).2) := by
  cases p with
  | ret a => exact .inr ⟨hE s, h⟩
  | stmt f k => exact h s

theorem Ensures.next {I : σ → Prop} {G : σ → σ → Prop} {Q : α → Prop} {p : Prog σ α} {s : σ}
    (h : Ensures I G Q p) (hG : ∀ s, G s s) (hs : I s) :
    G s (p.next s).1 ∧ I (p.next s).1 ∧ Ensures I G Q (p.next s).2 := by
  cases p with
  | ret a => exact ⟨hG s, hs, h⟩
  | stmt f k => exact h s hs

end

end Prog

namespace Method

/-- A result that makes the report; an error makes none. -/
def Reported (report : α → Prop) : Except ε α → Prop
  | .ok a => report a
  | .error _ => False

/-- `Prog.Faithful` of a method. -/
def Faithful (E : σ → σ → Prop) (report : α → Prop) (m : Method σ ε α) : Prop :=
  Prog.Faithful E (Reported report) m.run

/-- What a method returns satisfies `Q`, unless it fails. -/
def OnOk (Q : α → Prop) : Except ε α → Prop
  | .ok a => Q a
  | .error _ => True

namespace Faithful

variable {report : β → Prop} {Q : α → Prop}

theorem pure {b : β} (h : ¬ report b) : Faithful E report (pure b : Method σ ε β) := h

theorem throw (e : ε) : Faithful E report (throw e : Method σ ε β) := id

theorem bind {m : Method σ ε α} {g : α → Method σ ε β}
    (hm : Ensures (fun _ => True) (fun s t => ¬ E s t) (OnOk Q) m)
    (hg : ∀ a, Q a → Faithful E report (g a)) : Faithful E report (m >>= g) := by
  refine Prog.Faithful.bind (Prog.Ensures.mono (fun r hr => ?_) hm)
  cases r with
  | ok a => exact hg a hr
  | error e => exact id

theorem read_bind {f : σ → α} {g : α → Method σ ε β} (hE : ∀ s, ¬ E s s)
    (h : ∀ s, Faithful E report (g (f s))) : Faithful E report (Method.read f >>= g) :=
  fun s => .inr ⟨hE s, h s⟩

theorem write_bind {f : σ → σ × α} {g : α → Method σ ε β}
    (h : ∀ s, (E s (f s).1 ∧ ∃ b, report b ∧ g (f s).2 = Pure.pure b) ∨
      (¬ E s (f s).1 ∧ Faithful E report (g (f s).2))) :
    Faithful E report (Method.write f >>= g) := by
  intro s
  rcases h s with ⟨hE, b, hb, hg⟩ | ⟨hE, hg⟩
  · exact .inl ⟨hE, .ok b, congrArg ExceptT.run hg, hb⟩
  · exact .inr ⟨hE, hg⟩

end Faithful

/-! ## Methods and what they return -/

/-- Every statement is a step of `G` inside `I`, and what the method returns satisfies `Q`. -/
def Returns (I : σ → Prop) (G : σ → σ → Prop) (Q : α → Prop) (m : Method σ ε α) : Prop :=
  Ensures I G (OnOk Q) m

abbrev Gives (G : σ → σ → Prop) (Q : α → Prop) (m : Method σ ε α) : Prop := Returns (fun _ => True) G Q m

namespace Returns

variable {I : σ → Prop} {G : σ → σ → Prop} {Q : α → Prop} {R : β → Prop} {m : Method σ ε α}

theorem pure {a : α} (h : Q a) : Returns I G Q (pure a : Method σ ε α) := h

theorem lift {r : Except ε α} (h : ∀ a, r = .ok a → Q a) : Returns I G Q (lift r : Method σ ε α) := by
  cases r with
  | ok a => exact h a rfl
  | error e => exact trivial

theorem throw (e : ε) : Returns I G Q (throw e : Method σ ε α) := trivial

theorem read {f : σ → α} (hG : ∀ s, G s s) (h : ∀ s, I s → Q (f s)) : Returns I G Q (read f : Method σ ε α) :=
  Ensures.read hG h

theorem mono {Q' : α → Prop} (hQ : ∀ a, Q a → Q' a) (h : Returns I G Q m) : Returns I G Q' m := by
  refine Ensures.mono (fun r hr => ?_) h
  cases r with
  | ok a => exact hQ a hr
  | error e => exact trivial

theorem of_always (h : Always I G m) : Returns I G (fun _ => True) m :=
  Ensures.mono (fun r _ => by cases r <;> trivial) h

theorem always (h : Returns I G Q m) : Always I G m := Ensures.mono (fun _ _ => trivial) h

theorem bind {g : α → Method σ ε β} (hm : Returns I G Q m) (hg : ∀ a, Q a → Returns I G R (g a)) :
    Returns I G R (m >>= g) := Ensures.andThen hm hg fun _ => id

theorem ite {c : Prop} [Decidable c] {m' : Method σ ε α} (h : c → Returns I G Q m)
    (h' : ¬ c → Returns I G Q m') : Returns I G Q (if c then m else m') :=
  iteInduction h h'

end Returns

/-- Every statement is a step of `G` inside `I`, and the method returns something that satisfies `Q`. -/
def Yields (I : σ → Prop) (G : σ → σ → Prop) (Q : α → Prop) (m : Method σ ε α) : Prop :=
  Ensures I G (Reported Q) m

namespace Yields

variable {I : σ → Prop} {G : σ → σ → Prop} {Q : α → Prop} {R : β → Prop} {m : Method σ ε α}

theorem pure {a : α} (h : Q a) : Yields I G Q (pure a : Method σ ε α) := h

theorem lift {a : α} {r : Except ε α} (hr : r = .ok a) (h : Q a) : Yields I G Q (lift r : Method σ ε α) := by
  subst hr
  exact h

theorem read {f : σ → α} (hG : ∀ s, G s s) (h : ∀ s, I s → Q (f s)) : Yields I G Q (read f : Method σ ε α) :=
  Ensures.read hG h

theorem bind {g : α → Method σ ε β} (hm : Yields I G Q m) (hg : ∀ a, Q a → Yields I G R (g a)) :
    Yields I G R (m >>= g) := Ensures.andThen hm hg fun _ => id

theorem ite {c : Prop} [Decidable c] {m' : Method σ ε α} (h : c → Yields I G Q m)
    (h' : ¬ c → Yields I G Q m') : Yields I G Q (if c then m else m') :=
  iteInduction h h'

theorem within (hI : ∀ s t, I s → G s t → I t) (h : Yields (fun _ => True) G Q m) : Yields I G Q m :=
  Ensures.within hI h

theorem attempt (h : Always I G m) : Yields I G (fun _ => True) (attempt m) :=
  Prog.Ensures.bind (Prog.Ensures.mono (fun _ _ => trivial) h)

theorem outcome {Q : Except ε α → Prop} (h : Ensures I G Q m) : Yields I G Q (outcome m) :=
  Prog.Ensures.bind (Prog.Ensures.mono (fun _ hr => hr) h)

theorem returns (h : Yields I G Q m) : Returns I G Q m := by
  refine Ensures.mono (fun r hr => ?_) h
  cases r with
  | ok a => exact hr
  | error e => exact trivial

end Yields

/-! ## Methods that do not fail -/

/-- Among others that keep `I`, the method does not fail, and what it returns satisfies `Q`. -/
def Delivers (I : σ → Prop) (Q : α → Prop) (m : Method σ ε α) : Prop :=
  Ensures I (fun _ _ => True) (Reported Q) m

namespace Delivers

variable {I : σ → Prop} {Q : α → Prop} {R : β → Prop}

theorem pure {a : α} (h : Q a) : Delivers I Q (pure a : Method σ ε α) := h

theorem lift {a : α} {r : Except ε α} (hr : r = .ok a) (h : Q a) :
    Delivers I Q (lift r : Method σ ε α) := Yields.lift hr h

theorem read {f : σ → α} (h : ∀ s, I s → Q (f s)) : Delivers I Q (read f : Method σ ε α) :=
  Yields.read (fun _ => trivial) h

theorem write {f : σ → σ × α} (h : ∀ s, I s → I (f s).1 ∧ Q (f s).2) :
    Delivers I Q (write f : Method σ ε α) := Ensures.write fun s hs => ⟨trivial, h s hs⟩

theorem bind {m : Method σ ε α} {g : α → Method σ ε β} (hm : Delivers I Q m)
    (hg : ∀ a, Q a → Delivers I R (g a)) : Delivers I R (m >>= g) := Yields.bind hm hg

theorem runs {rely : σ → σ → Prop} (hrely : ∀ s t, I s → rely s t → I t) {m : Method σ ε α}
    {s s' : σ} {tr : List (σ × σ)} {r : Except ε α} (hr : Prog.Runs rely m.run s tr r s')
    (hm : Delivers I Q m) (hs : I s) : (∃ a, r = .ok a ∧ Q a) ∧ I s' := by
  obtain ⟨-, hQ, hI⟩ := Prog.Ensures.runs hrely hr hm hs
  cases r with
  | ok a => exact ⟨⟨a, rfl, hQ⟩, hI⟩
  | error e => exact hQ.elim

end Delivers

/-! ## Methods and how they fail -/

/-- A result that is an error of `E`, if it is one. -/
def OnError (E : ε → Prop) : Except ε α → Prop
  | .ok _ => True
  | .error e => E e

/-- Whatever others do, the method fails only with errors of `E`. -/
def FailsOnly (E : ε → Prop) (m : Method σ ε α) : Prop :=
  Ensures (fun _ => True) (fun _ _ => True) (OnError E) m

namespace FailsOnly

variable {E : ε → Prop}

theorem pure (a : α) : FailsOnly E (pure a : Method σ ε α) := trivial

theorem throw {e : ε} (h : E e) : FailsOnly E (throw e : Method σ ε α) := h

theorem read (f : σ → α) : FailsOnly E (read f : Method σ ε α) :=
  Ensures.read (fun _ => trivial) fun _ _ => trivial

theorem write (f : σ → σ × α) : FailsOnly E (write f : Method σ ε α) :=
  Ensures.write fun _ _ => ⟨trivial, trivial, trivial⟩

theorem bind {m : Method σ ε α} {g : α → Method σ ε β} (hm : FailsOnly E m) (hg : ∀ a, FailsOnly E (g a)) :
    FailsOnly E (m >>= g) := Ensures.andThen hm (fun a _ => hg a) fun _ => id

theorem discard {m : Method σ ε α} (hm : FailsOnly E m) : FailsOnly E (discard m) := bind hm fun _ => pure _

theorem ite {c : Prop} [Decidable c] {m m' : Method σ ε α} (hm : c → FailsOnly E m)
    (hm' : ¬ c → FailsOnly E m') : FailsOnly E (if c then m else m') :=
  iteInduction hm hm'

theorem forM {f : α → Method σ ε PUnit} {xs : List α} (hf : ∀ x, FailsOnly E (f x)) : FailsOnly E (xs.forM f) := by
  induction xs with
  | nil => exact pure _
  | cons x xs ih => exact bind (hf x) fun _ => ih

theorem returned (p : Prog σ α) : FailsOnly E (ExceptT.mk (p >>= fun a => Pure.pure (.ok a)) : Method σ ε α) := by
  refine Prog.Ensures.bind ?_
  induction p with
  | ret a => trivial
  | stmt f k ih => exact fun s _ => ⟨trivial, trivial, ih s⟩

theorem runs {rely : σ → σ → Prop} {m : Method σ ε α} {s s' : σ} {tr : List (σ × σ)} {e : ε}
    (hr : Prog.Runs rely m.run s tr (.error e) s') (hm : FailsOnly E m) : E e :=
  (Ensures.runs (fun _ _ _ _ => trivial) hr hm trivial).2

end FailsOnly

end Method

end Concurrent
