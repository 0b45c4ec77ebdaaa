import SchemaBot.Lib.Evolving
import SchemaBot.Lib.Reports

/-!
# Triples for programs among others

Pre- and postconditions for programs that run within an `Evolution`. `Triple W P Q m` says that `m`, started
where `P` holds, makes moves of `W` only, and that `Q` holds of what it returns and of the state from then on,
whatever the others do within `W`. Conditions have to be `Stable`: the others keep them.

`Ends W P Q m` is the triple for a program whose way of ending does not matter, an error or not; it is what
a caller knows that drops the error.
-/

namespace Concurrent

variable {σ τ α β ε : Type}

/-- A condition that the others keep. -/
@[grind]
def Evolution.Stable (W : Evolution σ) (P : σ → Prop) : Prop :=
  ∀ ⦃s t⦄, W.inv s → W.inv t → W.le s t → P s → P t

namespace Evolution

variable {W : Evolution σ} {P Q : σ → Prop}

theorem Stable.true : W.Stable fun _ => True := fun _ _ _ _ _ _ => trivial

theorem Stable.const (p : Prop) : W.Stable fun _ => p := fun _ _ _ _ _ hp => hp

end Evolution

namespace Prog

/-- The program makes moves of `W`, and ends in `Q` if it starts in `P`. -/
def Triple (W : Evolution σ) (P : σ → Prop) (Q : α → σ → Prop) (p : Prog σ α) : Prop :=
  ∀ s, W.inv s → P s → Acts W Q p s

section
variable {W : Evolution σ} {P P' : σ → Prop} {Q : α → σ → Prop} {R : β → σ → Prop} {p : Prog σ α}

theorem Triple.mono {Q' : α → σ → Prop} (hP : ∀ s, W.inv s → P' s → P s) (h : Triple W P Q p)
    (hQ : ∀ a s, W.inv s → Q a s → Q' a s) : Triple W P' Q' p :=
  fun s hs hpre => (h s hs (hP s hs hpre)).mono hQ

theorem Triple.bind {g : α → Prog σ β} (h : Triple W P Q p) (hg : ∀ a, Triple W (Q a) R (g a)) :
    Triple W P R (p >>= g) :=
  fun s hs hpre => (h s hs hpre).sequence hg

theorem Triple.of_ensures {I : σ → Prop} {G : σ → σ → Prop} {Q : α → Prop} (hP : W.Stable P)
    (h : Ensures I G Q p) (hI : ∀ s, W.inv s → P s → I s)
    (hG : ∀ s t, W.inv s → P s → G s t → W.move s t ∧ P t) : Triple W P (fun a s => Q a ∧ P s) p := by
  intro s hs hpre
  induction p generalizing s with
  | ret a => exact fun t hst ht => ⟨h, hP hs ht hst hpre⟩
  | stmt f k ih =>
    intro t hst ht
    have hpt := hP hs ht hst hpre
    obtain ⟨hstep, -, hk⟩ := h t (hI t ht hpt)
    obtain ⟨hmove, hpost⟩ := hG _ _ ht hpt hstep
    exact ⟨hmove, ih t hk (f t) (W.keep ht hmove) hpost⟩

end

end Prog

namespace Method

/-- `Prog.Triple` of a method; a method that fails has nothing to say of its end. -/
def Triple (W : Evolution σ) (P : σ → Prop) (Q : α → σ → Prop) (m : Method σ ε α) : Prop :=
  Prog.Triple W P (fun | .ok a, t => Q a t | .error _, _ => True) m.run

/-- The method makes moves of `W`, and ends in `Q`, with an error or not. -/
def Ends (W : Evolution σ) (P Q : σ → Prop) (m : Method σ ε α) : Prop :=
  Prog.Triple W P (fun _ => Q) m.run

variable {W : Evolution σ} {P P' : σ → Prop}

namespace Triple

variable {Q : α → σ → Prop} {R : β → σ → Prop} {m : Method σ ε α}

theorem acts {s : σ} (h : Triple W P Q m) (hs : W.inv s) (hP : P s) : Acts W Q m s := h s hs hP

theorem done {a : α} (hP : W.Stable P) (h : ∀ s, P s → Q a s) :
    Triple W P Q (Pure.pure a : Method σ ε α) :=
  fun _ hs hpre t hst ht => h t (hP hs ht hst hpre)

theorem throw (e : ε) : Triple W P Q (throw e : Method σ ε α) := fun _ _ _ _ _ _ => trivial

theorem lift {r : Except ε α} (hP : W.Stable P) : Triple W P (fun _ => P) (lift r : Method σ ε α) := by
  intro s hs hpre t hst ht
  cases r with
  | ok a => exact hP hs ht hst hpre
  | error e => trivial

theorem mono {Q' : α → σ → Prop} (hP : ∀ s, W.inv s → P' s → P s) (h : Triple W P Q m)
    (hQ : ∀ a s, W.inv s → Q a s → Q' a s) : Triple W P' Q' m := by
  refine Prog.Triple.mono hP h fun r s hs hr => ?_
  cases r with
  | ok a => exact hQ a s hs hr
  | error e => trivial

theorem pre (hP : ∀ s, W.inv s → P' s → P s) (h : Triple W P Q m) : Triple W P' Q m :=
  mono hP h fun _ _ _ => id

/-- What all states say in which the program starts is a hypothesis. -/
theorem known {p : Prop} (hp : ∀ s, P' s → p ∧ P s) (h : p → Triple W P Q m) : Triple W P' Q m :=
  fun s hs hpre => h (hp s hpre).1 s hs (hp s hpre).2

theorem post {Q' : α → σ → Prop} (h : Triple W P Q m) (hQ : ∀ a s, W.inv s → Q a s → Q' a s) :
    Triple W P Q' m := mono (fun _ _ => id) h hQ

theorem bind {g : α → Method σ ε β} (h : Triple W P Q m) (hg : ∀ a, Triple W (Q a) R (g a)) :
    Triple W P R (m >>= g) := by
  refine Prog.Triple.bind h fun r => ?_
  cases r with
  | ok a => exact hg a
  | error e => exact fun _ _ _ _ _ _ => trivial

theorem read {f : σ → α} (hP : W.Stable P) (hQ : ∀ a, W.Stable (Q a))
    (h : ∀ s, W.inv s → P s → Q (f s) s) : Triple W P Q (read f : Method σ ε α) := by
  intro s hs hpre
  refine Prog.Acts.atomically fun t hst ht => ⟨W.stay t, fun u htu hu => ?_⟩
  exact hQ _ ht hu htu (h t ht (hP hs ht hst hpre))

theorem look {f : σ → α} (hP : W.Stable P) : Triple W P (fun _ => P) (Method.read f : Method σ ε α) :=
  .read hP (fun _ => hP) fun _ _ hs => hs

theorem write {f : σ → σ × α} (hP : W.Stable P) (hQ : ∀ a, W.Stable (Q a))
    (h : ∀ s, W.inv s → P s → W.move s (f s).1 ∧ Q (f s).2 (f s).1) : Triple W P Q (write f : Method σ ε α) := by
  intro s hs hpre
  refine Prog.Acts.atomically fun t hst ht => ?_
  obtain ⟨hmove, hpost⟩ := h t ht (hP hs ht hst hpre)
  exact ⟨hmove, fun u htu hu => hQ _ (W.keep ht hmove) hu htu hpost⟩

theorem ite {c : Prop} [Decidable c] {m' : Method σ ε α} (h : c → Triple W P Q m)
    (h' : ¬ c → Triple W P Q m') : Triple W P Q (if c then m else m') :=
  iteInduction h h'

theorem attempt {Q : σ → Prop} (h : Ends W P Q m) : Triple W P (fun _ => Q) (attempt m) :=
  fun s hs hpre => (h s hs hpre).lasting.sequence fun _ _ _ hlast => hlast

theorem of_returns {I : σ → Prop} {G : σ → σ → Prop} {Q : α → Prop} (hP : W.Stable P) (h : Returns I G Q m)
    (hI : ∀ s, W.inv s → P s → I s) (hG : ∀ s t, W.inv s → P s → G s t → W.move s t ∧ P t) :
    Triple W P (fun a s => Q a ∧ P s) m := by
  refine Prog.Triple.mono (fun _ _ => id) (Prog.Triple.of_ensures hP h hI hG) fun r s _ hr => ?_
  cases r with
  | ok a => exact hr
  | error e => trivial

end Triple

namespace Ends

variable {Q : σ → Prop} {m : Method σ ε α}

theorem write {f : σ → σ × α} (hP : W.Stable P) (hQ : W.Stable Q)
    (h : ∀ s, W.inv s → P s → W.move s (f s).1 ∧ Q (f s).1) : Ends W P Q (write f : Method σ ε α) := by
  intro s hs hpre t hst ht
  obtain ⟨hmove, hpost⟩ := h t ht (hP hs ht hst hpre)
  exact ⟨hmove, fun u htu hu => hQ (W.keep ht hmove) hu htu hpost⟩

theorem bind {g : α → Method σ ε β} (h : Ends W P Q m) (hg : ∀ a, Ends W Q Q (g a)) : Ends W P Q (m >>= g) := by
  intro s hs hpre
  refine Prog.Acts.sequence (h s hs hpre).lasting fun r t ht hlast => ?_
  cases r with
  | ok a => exact hg a t ht (hlast t (W.refl t) ht)
  | error e => exact hlast

theorem of_always {I : σ → Prop} {G : σ → σ → Prop} (hP : W.Stable P) (h : Always I G m)
    (hI : ∀ s, W.inv s → P s → I s) (hG : ∀ s t, W.inv s → P s → G s t → W.move s t ∧ P t) : Ends W P P m := by
  exact Prog.Triple.mono (fun _ _ => id) (Prog.Triple.of_ensures hP h hI hG) fun _ _ _ hr => hr.2

theorem triple (h : Ends W P Q m) : Triple W P (fun _ => Q) m := by
  refine Prog.Triple.mono (fun _ _ => id) h fun r s _ hr => ?_
  cases r with
  | ok a => exact hr
  | error e => trivial

end Ends

end Method

end Concurrent
