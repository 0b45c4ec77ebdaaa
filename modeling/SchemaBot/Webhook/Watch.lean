import SchemaBot.Webhook.Runs

/-!
# Runs that are watched

A `Watch` is a world with two records that the deployments do not have: which events were delivered, and which
moves each handling has made.
-/

namespace SchemaBot.Webhook

open Concurrent

def World.isUnderWay (w : World) (n : Nat) : Bool :=
  match w.handlings[n]? with
  | some (_, .stmt _ _) => true
  | _ => false

def Action.advances (n : Nat) : Action → Bool
  | .advance m => m = n
  | _ => false

structure Watch where
  world : World := {}
  events : List (Nat × Event) := []
  moves : Nat → List (Hub × Hub) := fun _ => []

def Watch.deliver (v : Watch) : Action → List (Nat × Event)
  | .deliver i event => v.events ++ [(i, event)]
  | _ => v.events

def Watch.step (cfg : Nat → ServerConfig) (v : Watch) (a : Action) : Watch where
  world := v.world.step cfg a
  events := v.deliver a
  moves n :=
    if a.advances n && v.world.isUnderWay n then
      (v.events[n]?).elim (v.moves n) fun e =>
        v.moves n ++ [(v.world.hub e.1, (v.world.step cfg a).hub e.1)]
    else v.moves n

def Watch.after (cfg : Nat → ServerConfig) (actions : List Action) : Watch :=
  Transition.run (Watch.step cfg) {} actions

section
variable {cfg : Nat → ServerConfig} {v : Watch} {w : World} {n i : Nat} {a : Action} {event : Event}

theorem Watch.deliver_cases (he : (v.deliver a)[n]? = some (i, event)) :
    v.events[n]? = some (i, event) ∨ a = .deliver i event ∧ n = v.events.length := by
  cases a with
  | deliver j event' =>
    have hconcat : (v.events ++ [(j, event')])[n]? = some (i, event) := he
    rcases Nat.lt_trichotomy n v.events.length with hlt | rfl | hgt
    · rw [List.getElem?_append_left hlt] at hconcat
      exact .inl hconcat
    · rw [List.getElem?_concat_length] at hconcat
      cases hconcat
      exact .inr ⟨rfl, rfl⟩
    · rw [List.getElem?_eq_none] at hconcat
      · cases hconcat
      · rw [List.length_append]
        exact hgt
  | _ => exact .inl he

theorem World.handlings_step_of_idle (hlt : n < w.handlings.length)
    (hidle : (a.advances n && w.isUnderWay n) = false) : (w.step cfg a).handlings[n]? = w.handlings[n]? := by
  cases a with
  | deliver j event => exact List.getElem?_append_left hlt
  | change j c => rfl
  | advance m =>
    simp only [World.step]
    split
    · rfl
    · next j p hm =>
      by_cases hmn : m = n
      · subst hmn
        simp only [Action.advances, World.isUnderWay, hm] at hidle
        cases p with
        | ret r =>
          show (w.handlings.set m (j, .ret r))[m]? = w.handlings[m]?
          rw [List.getElem?_set_self hlt, hm]
        | stmt f k => cases hidle
      · exact List.getElem?_set_ne hmn

theorem World.handlings_step {p : Prog Hub (Except Reply Unit)} (hp : w.handlings[n]? = some (i, p)) :
    (w.step cfg a).handlings[n]? = some (i, p) ∨
      (w.step cfg a).handlings[n]? = some (i, (p.next (w.hub i)).2) := by
  have hlt : n < w.handlings.length := (List.getElem?_eq_some_iff.1 hp).1
  cases hmade : a.advances n && w.isUnderWay n with
  | false => exact .inl ((World.handlings_step_of_idle hlt hmade).trans hp)
  | true =>
    obtain ⟨hadv, -⟩ := Bool.and_eq_true_iff.1 hmade
    cases a with
    | deliver j event | change j c => cases hadv
    | advance m =>
      cases of_decide_eq_true hadv
      refine .inr ?_
      simp only [World.step, hp]
      exact List.getElem?_set_self hlt

theorem Watch.length_step (hlen : v.events.length = v.world.handlings.length) :
    (v.step cfg a).events.length = (v.step cfg a).world.handlings.length := by
  cases a with
  | deliver j event =>
    show (v.events ++ [(j, event)]).length = (v.world.handlings ++ [_]).length
    rw [List.length_append, List.length_append, hlen]
    rfl
  | change j c => exact hlen
  | advance m =>
    show v.events.length = (v.world.step cfg (.advance m)).handlings.length
    simp only [World.step]
    split
    · exact hlen
    · exact hlen.trans (List.length_set ..).symm

theorem Watch.getElem?_deliver (hlen : v.events.length = v.world.handlings.length) :
    (v.world.step cfg (.deliver i event)).handlings[v.events.length]? =
      some (i, (event.program (cfg i) ⟨i, v.events.length⟩).run) := by
  rw [hlen]
  exact List.getElem?_concat_length

end

/-! ## What holds of the rest of a program -/

/-- The handlings go on with programs that satisfy `P` for their events. -/
structure Watch.Follows (P : Nat → Event → Prog Hub (Except Reply Unit) → Prop) (v : Watch) : Prop where
  length : v.events.length = v.world.handlings.length
  rest : ∀ (n i : Nat) (event : Event), v.events[n]? = some (i, event) →
    ∃ p, v.world.handlings[n]? = some (i, p) ∧ P i event p

section
variable {cfg : Nat → ServerConfig} {v : Watch} {P : Nat → Event → Prog Hub (Except Reply Unit) → Prop}

theorem Watch.Follows.step (hv : v.Follows P)
    (hstart : ∀ i event handling, P i event (event.program (cfg i) handling).run)
    (hnext : ∀ i event p h, P i event p → P i event (p.next h).2) (a : Action) : (v.step cfg a).Follows P where
  length := Watch.length_step hv.length
  rest n i event he := by
    rcases Watch.deliver_cases he with hold | ⟨rfl, rfl⟩
    · obtain ⟨p, hp, hP⟩ := hv.rest n i event hold
      rcases World.handlings_step hp with hstay | hmade
      · exact ⟨p, hstay, hP⟩
      · exact ⟨_, hmade, hnext i event p _ hP⟩
    · exact ⟨_, Watch.getElem?_deliver hv.length, hstart i event _⟩

end

end SchemaBot.Webhook
