import SchemaBot.Lib.Threads

/-!
# Programs that carry what they have learned

A program among others knows little of the state at its next statement. What it may rely on is that the
state has kept its invariant and has only moved forward, in an order in which some facts last: a record
that has been appended stays, a row that nobody deletes stays. An `Evolution` is such an invariant with
such an order, and with the moves that the program itself may make.

`Carries W Q p s` says that `p`, which goes on after the state was `s`, makes moves of `W` that are steps
forward as well, and ends with a result and a state in `Q`, whatever the others do in between within `W`.
The rules follow `do`: a fact that lasts is established by one statement and is used by a later one.
`Acts W Q p s` allows statements that are no steps forward: after such a statement the program knows what
it has done, and nothing of what it knew before.
-/

namespace Concurrent

variable {σ τ α β ε : Type}

/-- An invariant of a shared state, the order in which its values follow one another, and the moves of a
program, which keep the invariant. -/
structure Evolution (σ : Type) where
  inv : σ → Prop
  le : σ → σ → Prop
  move : σ → σ → Prop
  refl : ∀ s, le s s
  trans : ∀ {s t u}, le s t → le t u → le s u
  stay : ∀ s, move s s
  keep : ∀ {s t}, inv s → move s t → inv t

namespace Prog

/-- Every statement is a move forward, and the end is in `Q`. -/
def Carries (W : Evolution σ) (Q : α → σ → Prop) : Prog σ α → σ → Prop
  | .ret a, s => ∀ t, W.le s t → W.inv t → Q a t
  | .stmt f k, s => ∀ t, W.le s t → W.inv t → W.move t (f t) ∧ W.le t (f t) ∧ Carries W Q (k t) (f t)

/-- Every statement is a move, and the end is in `Q`. -/
def Acts (W : Evolution σ) (Q : α → σ → Prop) : Prog σ α → σ → Prop
  | .ret a, s => ∀ t, W.le s t → W.inv t → Q a t
  | .stmt f k, s => ∀ t, W.le s t → W.inv t → W.move t (f t) ∧ Acts W Q (k t) (f t)

section
variable {W : Evolution σ} {Q : α → σ → Prop} {R : β → σ → Prop} {p : Prog σ α} {s t : σ}

theorem Carries.of_later (h : ∀ t, W.le s t → W.inv t → Carries W Q p t) : Carries W Q p s := by
  cases p with
  | ret a | stmt f k => exact fun t hst ht => h t hst ht t (W.refl t) ht

theorem Carries.mono {Q' : α → σ → Prop} (hQ : ∀ a t, W.le s t → W.inv t → Q a t → Q' a t)
    (h : Carries W Q p s) : Carries W Q' p s := by
  induction p generalizing s with
  | ret a => exact fun t hst ht => hQ a t hst ht (h t hst ht)
  | stmt f k ih =>
    intro t hst ht
    obtain ⟨hmove, hle, hk⟩ := h t hst ht
    refine ⟨hmove, hle, ih t (fun a u hu hinv => ?_) hk⟩
    exact hQ a u (W.trans hst (W.trans hle hu)) hinv

theorem Carries.bind {g : α → Prog σ β} (h : Carries W (fun a t => Carries W R (g a) t) p s) :
    Carries W R (p >>= g) s := by
  induction p generalizing s with
  | ret a => exact Carries.of_later h
  | stmt f k ih =>
    intro t hst ht
    obtain ⟨hmove, hle, hk⟩ := h t hst ht
    exact ⟨hmove, hle, ih t hk⟩

theorem Carries.lasting (h : Carries W Q p s) : Carries W (fun a t => ∀ u, W.le t u → W.inv u → Q a u) p s := by
  induction p generalizing s with
  | ret a => exact fun t hst _ u htu hu => h u (W.trans hst htu) hu
  | stmt f k ih =>
    intro t hst ht
    obtain ⟨hmove, hle, hk⟩ := h t hst ht
    exact ⟨hmove, hle, ih t hk⟩

/-- A program on a part of the state: its statements make moves of `G` on the part, and those are moves
forward of the whole. -/
theorem Ensures.zoom_carries {L : Part τ σ} {W : Evolution τ} {G : σ → σ → Prop} {Q : α → Prop}
    {p : Prog σ α} (h : Ensures (fun _ => True) G Q p) {t : τ}
    (hG : ∀ u s', W.le t u → W.inv u → G (L.get u) s' → W.move u (L.set u s') ∧ W.le u (L.set u s')) :
    Carries W (fun a _ => Q a) (p.zoom L) t := by
  induction p generalizing t with
  | ret a => exact fun _ _ _ => h
  | stmt f k ih =>
    intro u htu hu
    obtain ⟨hstep, -, hk⟩ := h (L.get u) trivial
    obtain ⟨hmove, hle⟩ := hG u _ htu hu hstep
    exact ⟨hmove, hle, ih (L.get u) hk fun v s' hv => hG v s' (W.trans htu (W.trans hle hv))⟩

theorem Acts.of_carries (h : Carries W Q p s) : Acts W Q p s := by
  induction p generalizing s with
  | ret a => exact h
  | stmt f k ih =>
    intro t hst ht
    obtain ⟨hmove, -, hk⟩ := h t hst ht
    exact ⟨hmove, ih t hk⟩

theorem Acts.later (h : Acts W Q p s) (hst : W.le s t) : Acts W Q p t := by
  cases p with
  | ret a | stmt f k => exact fun u htu hu => h u (W.trans hst htu) hu

theorem Acts.of_later (h : ∀ t, W.le s t → W.inv t → Acts W Q p t) : Acts W Q p s := by
  cases p with
  | ret a | stmt f k => exact fun t hst ht => h t hst ht t (W.refl t) ht

theorem Acts.mono {Q' : α → σ → Prop} (hQ : ∀ a t, W.inv t → Q a t → Q' a t) (h : Acts W Q p s) :
    Acts W Q' p s := by
  induction p generalizing s with
  | ret a => exact fun t hst ht => hQ a t ht (h t hst ht)
  | stmt f k ih =>
    intro t hst ht
    obtain ⟨hmove, hk⟩ := h t hst ht
    exact ⟨hmove, ih t hk⟩

theorem Acts.bind {g : α → Prog σ β} (h : Acts W (fun a t => Acts W R (g a) t) p s) : Acts W R (p >>= g) s := by
  induction p generalizing s with
  | ret a => exact Acts.of_later h
  | stmt f k ih =>
    intro t hst ht
    obtain ⟨hmove, hk⟩ := h t hst ht
    exact ⟨hmove, ih t hk⟩

theorem Acts.lasting (h : Acts W Q p s) : Acts W (fun a t => ∀ u, W.le t u → W.inv u → Q a u) p s := by
  induction p generalizing s with
  | ret a => exact fun t hst _ u htu hu => h u (W.trans hst htu) hu
  | stmt f k ih =>
    intro t hst ht
    obtain ⟨hmove, hk⟩ := h t hst ht
    exact ⟨hmove, ih t hk⟩

theorem Acts.pure {a : α} (h : ∀ t, W.le s t → W.inv t → Q a t) : Acts W Q (pure a : Prog σ α) s := h

theorem Acts.atomically {f : σ → σ × α}
    (h : ∀ t, W.le s t → W.inv t → W.move t (f t).1 ∧ ∀ u, W.le (f t).1 u → W.inv u → Q (f t).2 u) :
    Acts W Q (atomically f) s := h

theorem Acts.sequence {g : α → Prog σ β} (h : Acts W Q p s)
    (hg : ∀ a t, W.inv t → Q a t → Acts W R (g a) t) : Acts W R (p >>= g) s := Acts.bind (h.mono hg)

theorem Acts.next (h : Acts W Q p s) (hs : W.inv s) :
    W.move s (p.next s).1 ∧ Acts W Q (p.next s).2 (p.next s).1 := by
  cases p with
  | ret a => exact ⟨W.stay s, h⟩
  | stmt f k => exact h s (W.refl s) hs

end

/-! ## Programs that are under way -/

/-- `Partway rely p s moves q t`: from `s`, `p` has come to `q` at `t`, its own statements making the moves,
with steps of `rely` by others in between. -/
inductive Partway (rely : σ → σ → Prop) (p : Prog σ α) (s : σ) : List (σ × σ) → Prog σ α → σ → Prop
  | start : Partway rely p s [] p s
  | other {moves : List (σ × σ)} {q : Prog σ α} {t u : σ} :
      Partway rely p s moves q t → rely t u → Partway rely p s moves q u
  | own {moves : List (σ × σ)} {f : σ → σ} {k : σ → Prog σ α} {t : σ} :
      Partway rely p s moves (.stmt f k) t → Partway rely p s (moves ++ [(t, f t)]) (k t) (f t)

/-- The moves of a program that nothing interrupts. -/
def moves : Prog σ α → σ → List (σ × σ)
  | .ret _, _ => []
  | .stmt f k, s => (s, f s) :: moves (k s) (f s)

section
variable {W : Evolution σ} {Q : α → σ → Prop} {rely : σ → σ → Prop} {p q : Prog σ α} {s t : σ}
  {moves : List (σ × σ)}

theorem Partway.acts (hrely : ∀ t u, W.inv t → rely t u → W.le t u ∧ W.inv u)
    (h : Partway rely p s moves q t) (hp : Acts W Q p s) (hs : W.inv s) :
    (∀ m ∈ moves, W.move m.1 m.2) ∧ W.inv t ∧ Acts W Q q t := by
  induction h with
  | start => exact ⟨fun m hm => absurd hm List.not_mem_nil, hs, hp⟩
  | other _ hstep ih =>
    obtain ⟨hmoves, hinv, hacts⟩ := ih
    obtain ⟨hle, hinv'⟩ := hrely _ _ hinv hstep
    exact ⟨hmoves, hinv', hacts.later hle⟩
  | own _ ih =>
    obtain ⟨hmoves, hinv, hacts⟩ := ih
    obtain ⟨hmove, hk⟩ := hacts _ (W.refl _) hinv
    refine ⟨fun m hm => ?_, W.keep hinv hmove, hk⟩
    rcases List.mem_append.1 hm with hm | hm
    · exact hmoves m hm
    · rw [List.mem_singleton.1 hm]
      exact hmove

theorem Partway.ret {a : α} (h : Partway rely (.ret a) s moves q t) : moves = [] ∧ q = .ret a := by
  induction h with
  | start => exact ⟨rfl, rfl⟩
  | other _ _ ih => exact ih
  | own _ ih => cases ih.2

theorem Partway.stmt {f : σ → σ} {k : σ → Prog σ α} (h : Partway rely (.stmt f k) s moves q t) :
    (moves = [] ∧ q = .stmt f k ∧ Relation.ReflTransGen rely s t) ∨
      ∃ u rest, Relation.ReflTransGen rely s u ∧ moves = (u, f u) :: rest ∧
        Partway rely (k u) (f u) rest q t := by
  induction h with
  | start => exact .inl ⟨rfl, rfl, .refl⟩
  | other _ hstep ih =>
    rcases ih with ⟨hmoves, hq, hst⟩ | ⟨u, rest, hsu, hmoves, hrest⟩
    · exact .inl ⟨hmoves, hq, hst.tail hstep⟩
    · exact .inr ⟨u, rest, hsu, hmoves, hrest.other hstep⟩
  | own _ ih =>
    rcases ih with ⟨rfl, hq, hst⟩ | ⟨u, rest, hsu, rfl, hrest⟩
    · cases hq
      exact .inr ⟨_, [], hst, rfl, .start⟩
    · exact .inr ⟨u, _, hsu, List.cons_append, hrest.own⟩

theorem Partway.exec (h : Partway rely p s moves q t) :
    Partway rely p s (moves ++ q.moves t) (.ret (q.exec t).2) (q.exec t).1 := by
  induction q generalizing moves t with
  | ret a => rw [Prog.moves, List.append_nil]; exact h
  | stmt f k ih =>
    rw [Prog.moves, List.append_cons]
    exact ih t h.own

theorem partway_exec (rely : σ → σ → Prop) (p : Prog σ α) (s : σ) :
    Partway rely p s (p.moves s) (.ret (p.exec s).2) (p.exec s).1 := Partway.exec .start

end

end Prog

namespace Method

/-- `Prog.Carries` of a method; a method that fails has nothing to say of its end. -/
def Carries (W : Evolution σ) (Q : α → σ → Prop) (m : Method σ ε α) (s : σ) : Prop :=
  Prog.Carries W (fun | .ok a, t => Q a t | .error _, _ => True) m.run s

/-- `Prog.Acts` of a method. -/
def Acts (W : Evolution σ) (Q : α → σ → Prop) (m : Method σ ε α) (s : σ) : Prop :=
  Prog.Acts W (fun | .ok a, t => Q a t | .error _, _ => True) m.run s

section
variable {W : Evolution σ} {Q : α → σ → Prop} {R : β → σ → Prop} {m : Method σ ε α} {s t : σ}

namespace Carries

theorem of_later (h : ∀ t, W.le s t → W.inv t → Carries W Q m t) : Carries W Q m s :=
  Prog.Carries.of_later h

theorem mono {Q' : α → σ → Prop} (hQ : ∀ a t, W.le s t → W.inv t → Q a t → Q' a t)
    (h : Carries W Q m s) : Carries W Q' m s := by
  refine Prog.Carries.mono (fun r t hst ht hr => ?_) h
  cases r with
  | ok a => exact hQ a t hst ht hr
  | error e => trivial

theorem pure {a : α} (h : ∀ t, W.le s t → W.inv t → Q a t) : Carries W Q (pure a : Method σ ε α) s := h

theorem done {a : α} : Carries W (fun _ _ => True) (Pure.pure a : Method σ ε α) s := pure fun _ _ _ => trivial

theorem throw (e : ε) : Carries W Q (throw e : Method σ ε α) s := fun _ _ _ => trivial

theorem bind {g : α → Method σ ε β} (h : Carries W (fun a t => Carries W R (g a) t) m s) :
    Carries W R (m >>= g) s := by
  refine Prog.Carries.bind (Prog.Carries.mono (fun r t _ _ hr => ?_) h)
  cases r with
  | ok a => exact hr
  | error e => exact fun _ _ _ => trivial

theorem andThen {g : α → Method σ ε β} (h : Carries W Q m s)
    (hg : ∀ a t, W.le s t → W.inv t → Q a t → Carries W R (g a) t) : Carries W R (m >>= g) s :=
  bind (h.mono hg)

theorem discard (h : Carries W Q m s) : Carries W (fun _ _ => True) (discard m) s :=
  andThen h fun _ _ _ _ _ => pure fun _ _ _ => trivial

theorem read {f : σ → α} (h : ∀ t u, W.le s t → W.inv t → W.le t u → W.inv u → Q (f t) u) :
    Carries W Q (read f : Method σ ε α) s :=
  fun t hst ht => ⟨W.stay t, W.refl t, fun u htu hu => h t u hst ht htu hu⟩

theorem read_bind {f : σ → α} {g : α → Method σ ε β}
    (h : ∀ t, W.le s t → W.inv t → Carries W R (g (f t)) t) : Carries W R (Method.read f >>= g) s :=
  fun t hst ht => ⟨W.stay t, W.refl t, h t hst ht⟩

theorem write {f : σ → σ × α} (h : ∀ t, W.le s t → W.inv t → W.move t (f t).1 ∧ W.le t (f t).1 ∧
      ∀ u, W.le (f t).1 u → W.inv u → Q (f t).2 u) :
    Carries W Q (write f : Method σ ε α) s := h

theorem ite {c : Prop} [Decidable c] {m' : Method σ ε α} (h : c → Carries W Q m s)
    (h' : ¬ c → Carries W Q m' s) : Carries W Q (if c then m else m') s :=
  iteInduction (motive := (Carries W Q · s)) h h'

theorem lasting (h : Carries W Q m s) : Carries W (fun a t => ∀ u, W.le t u → W.inv u → Q a u) m s := by
  refine Prog.Carries.mono (fun r t _ _ hr => ?_) (Prog.Carries.lasting h)
  cases r with
  | ok a => exact hr
  | error e => trivial

theorem of_always {G : σ → σ → Prop} (h : Always (fun _ => True) G m)
    (hG : ∀ t u, W.inv t → G t u → W.move t u ∧ W.le t u) : Carries W (fun _ _ => True) m s := by
  unfold Always Ensures at h
  unfold Carries
  generalize m.run = p at h
  induction p generalizing s with
  | ret r =>
    intro t _ _
    cases r with
    | ok a | error e => trivial
  | stmt f k ih =>
    intro t _ ht
    obtain ⟨hstep, -, hk⟩ := h t trivial
    obtain ⟨hmove, hle⟩ := hG _ _ ht hstep
    exact ⟨hmove, hle, ih t hk⟩

theorem forM {f : β → Method σ ε PUnit} {xs : List β} {Q : β → σ → Prop}
    (h : ∀ x ∈ xs, ∀ t, W.le s t → W.inv t → Carries W (fun _ u => Q x u) (f x) t) :
    Carries W (fun _ t => ∀ x ∈ xs, Q x t) (xs.forM f) s := by
  induction xs generalizing s with
  | nil => exact pure fun _ _ _ _ hx => absurd hx List.not_mem_nil
  | cons x xs ih =>
    have hx : Carries W (fun _ u => Q x u) (f x) s := of_later fun t hst ht => h x (.head _) t hst ht
    refine andThen hx.lasting fun _ t hst _ hlast => ?_
    have hrest := ih fun y hy u htu hu => h y (.tail _ hy) u (W.trans hst htu) hu
    refine hrest.mono fun _ u htu hu hall y hy => ?_
    rcases List.mem_cons.1 hy with rfl | hy
    · exact hlast u htu hu
    · exact hall y hy

end Carries

namespace Acts

theorem of_carries (h : Carries W Q m s) : Acts W Q m s := Prog.Acts.of_carries h

theorem pure {a : α} (h : ∀ t, W.le s t → W.inv t → Q a t) : Acts W Q (pure a : Method σ ε α) s := h

theorem done {a : α} : Acts W (fun _ _ => True) (Pure.pure a : Method σ ε α) s := pure fun _ _ _ => trivial

theorem throw (e : ε) : Acts W Q (throw e : Method σ ε α) s := fun _ _ _ => trivial

theorem bind {g : α → Method σ ε β} (h : Acts W (fun a t => Acts W R (g a) t) m s) : Acts W R (m >>= g) s := by
  refine Prog.Acts.bind (Prog.Acts.mono (fun r t _ hr => ?_) h)
  cases r with
  | ok a => exact hr
  | error e => exact fun _ _ _ => trivial

theorem lasting (h : Acts W Q m s) : Acts W (fun a t => ∀ u, W.le t u → W.inv u → Q a u) m s := by
  refine Prog.Acts.mono (fun r t _ hr => ?_) (Prog.Acts.lasting h)
  cases r with
  | ok a => exact hr
  | error e => trivial

theorem sequence {g : α → Method σ ε β} (h : Acts W Q m s)
    (hg : ∀ a t, W.inv t → Q a t → Acts W R (g a) t) : Acts W R (m >>= g) s := by
  refine Prog.Acts.bind (Prog.Acts.mono (fun r t ht hr => ?_) h)
  cases r with
  | ok a => exact hg a t ht hr
  | error e => exact fun _ _ _ => trivial

theorem andThen {g : α → Method σ ε β} (h : Carries W Q m s)
    (hg : ∀ a t, W.le s t → W.inv t → Q a t → Acts W R (g a) t) : Acts W R (m >>= g) s :=
  bind (of_carries (h.mono hg))

theorem write {f : σ → σ × α}
    (h : ∀ t, W.le s t → W.inv t → W.move t (f t).1 ∧ ∀ u, W.le (f t).1 u → W.inv u → Q (f t).2 u) :
    Acts W Q (write f : Method σ ε α) s := h

theorem read_bind {f : σ → α} {g : α → Method σ ε β} (h : ∀ t, W.le s t → W.inv t → Acts W R (g (f t)) t) :
    Acts W R (Method.read f >>= g) s :=
  fun t hst ht => ⟨W.stay t, h t hst ht⟩

theorem of_ensures {G : σ → σ → Prop} {Q : Except ε α → Prop} (h : Ensures W.inv G Q m)
    (hG : ∀ t u, W.inv t → G t u → W.move t u) : Acts W (fun _ _ => True) m s := by
  unfold Ensures at h
  unfold Acts
  generalize m.run = p at h
  induction p generalizing s with
  | ret r =>
    intro t _ _
    cases r with
    | ok a | error e => trivial
  | stmt f k ih =>
    intro t _ ht
    obtain ⟨hstep, -, hk⟩ := h t ht
    exact ⟨hG _ _ ht hstep, ih t hk⟩

theorem ite {c : Prop} [Decidable c] {m' : Method σ ε α} (h : c → Acts W Q m s)
    (h' : ¬ c → Acts W Q m' s) : Acts W Q (if c then m else m') s :=
  iteInduction (motive := (Acts W Q · s)) h h'

end Acts

/-- A method under way that starts with a read: it has not made it yet, or the read has seen a state that
the others have left, and the rest goes on from there. -/
theorem partway_read_bind {rely : σ → σ → Prop} {f : σ → α} {g : α → Method σ ε β} {moves : List (σ × σ)}
    {q : Prog σ (Except ε β)} (h : Prog.Partway rely (Method.read f >>= g).run s moves q t) :
    moves = [] ∨ ∃ u rest, Relation.ReflTransGen rely s u ∧ moves = (u, u) :: rest ∧
      Prog.Partway rely (g (f u)).run u rest q t := by
  rcases Prog.Partway.stmt h with ⟨hmoves, -, -⟩ | hmade
  · exact .inl hmoves
  · exact .inr hmade

end

end Method

end Concurrent
