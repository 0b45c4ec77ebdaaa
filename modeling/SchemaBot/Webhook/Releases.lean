import SchemaBot.Webhook.Watch

/-!
# What a closed pull request and `unlock` release

The handling of a closed pull request and that of `unlock` read the applies and list the locks, and release the
locks and delete the rows afterwards, each in a statement of its own.
-/

namespace SchemaBot.Webhook

open Concurrent

variable {event : Event} {listed : List Lock} {lock : Lock} {pr : Nat} {repo : String}
  {result : CommandResult}

/-! ## What an event releases -/

namespace Event

/-- The closing of a pull request, or `unlock`. -/
def frees : Event → Bool
  | .closed _ _ | .comment .unlock _ _ _ => true
  | _ => false

/-- The applies that the event must leave their locks: those of the closed pull request, and all that `unlock`
meets. -/
def protects : Event → PRApply → Bool
  | .closed repo pr, a => a.repository = repo && a.pullRequest = pr
  | _, _ => true

def reaches : Event → String → Bool
  | .comment _ _ _ result, database => result.database = "" || database = result.database
  | _, _ => true

def forces : Event → Bool
  | .comment _ _ _ result => result.force
  | _ => false

def listsAt : Event → Nat
  | .closed _ _ => 1
  | .comment _ _ _ result => if result.force ∧ result.database = "" then 1 else 0
  | _ => 0

end Event

def sameHolder (l l' : Lock) : Bool :=
  l.databaseName = l'.databaseName && l.databaseType = l'.databaseType && l.owner = l'.owner

def Event.AtRest (event : Event) (l : Lock) (h : Hub) : Prop :=
  ∀ a ∈ h.inst.applies, event.protects a = true → l.isFor id a.database a.databaseType = true →
    a.state.isTerminal = true

def Check.Disowned (c : Check) (h : Hub) : Prop :=
  ∀ a ∈ h.inst.applies, a.id = c.applyId → a.state.isTerminal = true

structure Event.Spares (event : Event) (listed : List Lock) (h h' : Hub) : Prop where
  atRest : ∀ l ∈ h.inst.locks.locks, l ∉ h'.inst.locks.locks → event.AtRest l h
  listed : ∀ l ∈ h.inst.locks.locks, l ∉ h'.inst.locks.locks → ∃ l' ∈ listed, sameHolder l' l = true
  rows : ∀ c ∈ h.inst.checks, c ∉ h'.inst.checks → c.Disowned h

@[mk_iff]
structure Event.Undisturbed (event : Event) (h h' : Hub) : Prop where
  applies : ∀ a' ∈ h'.inst.applies, event.protects a' = true → event.reaches a'.database = true →
    a'.state.isTerminal = false →
      ∃ a ∈ h.inst.applies, a.state.isTerminal = false ∧ { a with state := a'.state } = a'
  locks : event.forces = true → ∀ l' ∈ h'.inst.locks.locks, event.reaches l'.databaseName = true →
    ∃ l ∈ h.inst.locks.locks, sameHolder l l' = true

instance {event : Event} {h h' : Hub} : Decidable (event.Undisturbed h h') :=
  decidable_of_iff' _ (event.undisturbed_iff h h')

def Hub.Linked (h : Hub) : Prop :=
  ∀ c ∈ h.inst.checks, ∀ a ∈ h.inst.applies, a.id = c.applyId → a.isOf c = true

/-! ## The evolution of a release -/

section
variable {h h' h'' : Hub} {l l' l'' : Lock} {a a' : PRApply}

theorem sameHolder_iff : sameHolder l l' = true ↔
    l.databaseName = l'.databaseName ∧ l.databaseType = l'.databaseType ∧ l.owner = l'.owner := by
  unfold sameHolder
  simp only [Bool.and_eq_true, decide_eq_true_eq, and_assoc]

theorem sameHolder_refl (l : Lock) : sameHolder l l = true := sameHolder_iff.2 ⟨rfl, rfl, rfl⟩

theorem sameHolder_trans (h₁ : sameHolder l l' = true) (h₂ : sameHolder l' l'' = true) :
    sameHolder l l'' = true := by
  obtain ⟨hd, ht, ho⟩ := sameHolder_iff.1 h₁
  obtain ⟨hd', ht', ho'⟩ := sameHolder_iff.1 h₂
  exact sameHolder_iff.2 ⟨hd.trans hd', ht.trans ht', ho.trans ho'⟩

theorem database_eq (hsame : { a with state := a'.state } = a') :
    a.database = a'.database ∧ a.databaseType = a'.databaseType := by
  rw [← hsame]
  exact ⟨rfl, rfl⟩

theorem Event.protects_eq (hsame : { a with state := a'.state } = a') : event.protects a' = event.protects a := by
  rw [← hsame]
  cases event <;> rfl

theorem Event.Undisturbed.of_inst_eq (hinst : h'.inst = h.inst) : event.Undisturbed h h' where
  applies a ha _ _ hstate := ⟨a, hinst ▸ ha, hstate, rfl⟩
  locks _ l hl _ := ⟨l, hinst ▸ hl, sameHolder_refl l⟩

theorem Event.Undisturbed.trans (h₁ : event.Undisturbed h h') (h₂ : event.Undisturbed h' h'') :
    event.Undisturbed h h'' where
  applies a'' ha'' hp hr hstate := by
    obtain ⟨a', ha', hstate', hsame'⟩ := h₂.applies a'' ha'' hp hr hstate
    rw [Event.protects_eq hsame'] at hp
    rw [← (database_eq hsame').1] at hr
    obtain ⟨a, ha, hstate₀, hsame⟩ := h₁.applies a' ha' hp hr hstate'
    refine ⟨a, ha, hstate₀, ?_⟩
    rw [← hsame', ← hsame]
  locks hf l'' hl'' hr := by
    obtain ⟨l', hl', hsame'⟩ := h₂.locks hf l'' hl'' hr
    have hr' : event.reaches l'.databaseName = true := by
      rw [(sameHolder_iff.1 hsame').1]
      exact hr
    obtain ⟨l, hl, hsame⟩ := h₁.locks hf l' hl' hr'
    exact ⟨l, hl, sameHolder_trans hsame hsame'⟩

theorem Event.AtRest.later (hrest : event.AtRest l h) (hreach : event.reaches l.databaseName = true)
    (hu : event.Undisturbed h h') : event.AtRest l h' := by
  intro a' ha' hp hfor
  by_contra hstate
  have hdb : l.databaseName = a'.database := by
    simp only [Lock.isFor, Bool.and_eq_true, decide_eq_true_eq] at hfor
    exact hfor.1
  obtain ⟨a, ha, hopen, hsame⟩ := hu.applies a' ha' hp (hdb ▸ hreach) (Bool.eq_false_iff.2 hstate)
  rw [Event.protects_eq hsame] at hp
  rw [← (database_eq hsame).1, ← (database_eq hsame).2] at hfor
  rw [hrest a ha hp hfor] at hopen
  cases hopen

theorem Event.AtRest.congr (hrest : event.AtRest l h) (hd : l'.databaseName = l.databaseName)
    (ht : l'.databaseType = l.databaseType) : event.AtRest l' h := by
  intro a ha hp hfor
  refine hrest a ha hp ?_
  unfold Lock.isFor at hfor ⊢
  rw [hd, ht] at hfor
  exact hfor

end

/-- Among the others, the handling of the event moves as `Spares` says, once it has listed the locks. -/
def Event.releasing (event : Event) (listed : List Lock) : Evolution Hub where
  inv := Hub.Linked
  le := event.Undisturbed
  move h h' := event.Spares listed h h' ∧ (h.Linked → h'.Linked)
  refl _ := .of_inst_eq rfl
  trans := .trans
  stay _ := ⟨⟨fun _ hl hl' => absurd hl hl', fun _ hl hl' => absurd hl hl', fun _ hc hc' => absurd hc hc'⟩, id⟩
  keep hinv hmove := hmove.2 hinv

/-! ## Statements -/

section
variable {h t : Hub}

theorem Event.releasing_of_inst_eq (hinst : t.inst = h.inst) :
    (event.releasing listed).move h t ∧ (event.releasing listed).le h t := by
  refine ⟨⟨⟨fun l hl hl' => ?_, fun l hl hl' => ?_, fun c hc hc' => ?_⟩, fun hlinked => ?_⟩, .of_inst_eq hinst⟩
  · exact absurd (hinst ▸ hl) hl'
  · exact absurd (hinst ▸ hl) hl'
  · exact absurd (hinst ▸ hc) hc'
  · unfold Hub.Linked
    rw [hinst]
    exact hlinked

theorem Event.releasing_deleteLocks {p : Lock → Bool} (locks : LockDb)
    (hlocks : locks.locks = h.inst.locks.locks.filter fun l => !p l)
    (hrest : ∀ l ∈ h.inst.locks.locks, p l = true → event.AtRest l h)
    (hlisted : ∀ l ∈ h.inst.locks.locks, p l = true → ∃ l' ∈ listed, sameHolder l' l = true) :
    (event.releasing listed).move h { h with inst := { h.inst with locks := locks } } ∧
      (event.releasing listed).le h { h with inst := { h.inst with locks := locks } } := by
  have hdeleted : ∀ l ∈ h.inst.locks.locks, l ∉ locks.locks → p l = true := by
    intro l hl hgone
    by_contra hp
    refine hgone ?_
    rw [hlocks]
    exact List.mem_filter.2 ⟨hl, by rw [Bool.eq_false_iff.2 hp]; rfl⟩
  refine ⟨⟨⟨fun l hl hgone => ?_, fun l hl hgone => ?_, fun c hc hgone => absurd hc hgone⟩, id⟩, ?_, ?_⟩
  · exact hrest l hl (hdeleted l hl hgone)
  · exact hlisted l hl (hdeleted l hl hgone)
  · exact fun a ha _ _ hstate => ⟨a, ha, hstate, rfl⟩
  · intro _ l hl _
    have hl' : l ∈ locks.locks := hl
    rw [hlocks] at hl'
    exact ⟨l, List.mem_of_mem_filter hl', sameHolder_refl l⟩

theorem always_releaseLock_deletes (database dbType owner : String) : Method.Only
      (fun s s' : LockDb => s'.locks = s.locks ∨
        s'.locks = s.locks.filter fun l => !l.isHeldBy id database dbType owner)
      (releaseLock id database dbType owner) := by
  refine .bind (.step fun s => ?_) fun rows => ?_
  · split
    · exact .inl rfl
    · exact .inr rfl
  cases rows with
  | none => exact .throw _
  | some rows =>
    dsimp only
    split
    · refine .bind (.read (fun _ => .inl rfl) _) fun row => ?_
      cases row with
      | none | some row => exact .throw _
    · exact .pure _

theorem carries_locksRelease_listed (hlock : lock ∈ listed)
    (hreach : event.reaches lock.databaseName = true) (hrest : event.AtRest lock h) :
    Method.Carries (event.releasing listed) (fun _ _ => True)
      (locksRelease lock.databaseName lock.databaseType lock.owner) h := by
  refine Prog.Carries.bind (Prog.Carries.mono (fun _ _ _ _ _ _ _ _ => trivial)
    (Prog.Ensures.zoom_carries
      (always_releaseLock_deletes lock.databaseName lock.databaseType lock.owner) fun u locks hu _ hr => ?_))
  have hheld : ∀ l : Lock, l.isHeldBy id lock.databaseName lock.databaseType lock.owner = true →
      l.databaseName = lock.databaseName ∧ l.databaseType = lock.databaseType ∧ l.owner = lock.owner := by
    intro l hl
    simpa only [Lock.isHeldBy, Lock.isFor, id_eq, Bool.and_eq_true, decide_eq_true_eq, and_assoc] using hl
  have hdelete : ∀ p : Lock → Bool, locks.locks = u.inst.locks.locks.filter (fun l => !p l) →
      (∀ l, p l = true → l.isHeldBy id lock.databaseName lock.databaseType lock.owner = true) →
      (event.releasing listed).move u (lockPart.set u locks) ∧
        (event.releasing listed).le u (lockPart.set u locks) := by
    intro p hlocks hp
    refine Event.releasing_deleteLocks locks hlocks (fun l _ hl => ?_) fun l _ hl => ?_
    · obtain ⟨hd, ht, -⟩ := hheld l (hp l hl)
      exact (hrest.later hreach hu).congr hd ht
    · obtain ⟨hd, ht, ho⟩ := hheld l (hp l hl)
      exact ⟨lock, hlock, sameHolder_iff.2 ⟨hd.symm, ht.symm, ho.symm⟩⟩
  rcases hr with hsame | hdel
  · refine hdelete (fun _ => false) ?_ fun _ h => absurd h Bool.false_ne_true
    rw [hsame]
    exact (List.filter_eq_self.2 fun _ _ => rfl).symm
  · exact hdelete _ hdel fun _ hl => hl

def KeepsStore (h h' : Hub) : Prop := h'.inst = h.inst

theorem keepsStore_refl (h : Hub) : KeepsStore h h := rfl

theorem carries_of_keepsStore {α : Type} {m : Handling α} (hm : Method.Only KeepsStore m) :
    Method.Carries (event.releasing listed) (fun _ _ => True) m h :=
  .of_always hm fun _ _ _ hinst => Event.releasing_of_inst_eq hinst

theorem always_enforceActorAuthorization {action : CommandAction} {requestedBy database : String} :
    Method.Only KeepsStore
      (enforceActorAuthorization repo pr action requestedBy database) := by
  refine .bind (.read keepsStore_refl _) fun authorized => ?_
  cases authorized with
  | true => exact .pure _
  | false => exact .throw _

theorem always_updateCheckRunAfterUnlock {cfg : ServerConfig} : Method.Only KeepsStore
      (updateCheckRunAfterUnlock cfg repo pr lock) := by
  refine .bind (.read keepsStore_refl _) fun head => ?_
  cases head with
  | error e => exact .pure _
  | ok headSHA =>
    refine .discard (.step fun s => ?_)
    split <;> rfl

end

/-! ## Unlock -/

section
variable {h : Hub} {locks : List Lock} {cfg : ServerConfig} {t : Hub}

theorem carries_noActiveApply {listed : List Lock} (hreach : event.reaches lock.databaseName = true) :
    Method.Carries (event.releasing listed) (fun _ t => event.AtRest lock t) (noActiveApply lock) h := by
  refine .read_bind fun t _ _ => ?_
  split
  · exact .throw _
  · next hnone =>
    refine .pure fun u hu _ => ?_
    have hrest : event.AtRest lock t := by
      intro a ha _ hfor
      have hof : a ∈ t.inst.applies.filter
          fun a => a.database = lock.databaseName && a.databaseType = lock.databaseType := by
        simp only [Lock.isFor, Bool.and_eq_true, decide_eq_true_eq] at hfor
        simp only [List.mem_filter, Bool.and_eq_true, decide_eq_true_eq]
        exact ⟨ha, hfor.1.symm, hfor.2.symm⟩
      have hterm := List.find?_eq_none.1 hnone a hof
      simpa using hterm
    exact hrest.later hreach hu

section
variable (hlock : lock ∈ h.inst.locks.locks) (hreach : event.reaches lock.databaseName = true)
  (hf : event.forces = result.force) (ht : event.Undisturbed h t) (hrest : event.AtRest lock t)
include hlock hreach hf ht hrest

theorem carries_releaseForUnlock : Method.Carries (event.releasing h.inst.locks.locks) (fun _ _ => True)
      (releaseForUnlock result.force lock) t := by
  unfold releaseForUnlock
  split
  · next hforce =>
    refine .andThen (Q := fun _ _ => True) (.write fun u hu _ => ?_) fun _ _ _ _ _ => .done
    have hheld : ∀ l : Lock, l.isFor id lock.databaseName lock.databaseType = true →
        l.databaseName = lock.databaseName ∧ l.databaseType = lock.databaseType := by
      intro l hl
      simpa only [Lock.isFor, id_eq, Bool.and_eq_true, decide_eq_true_eq] using hl
    have hatRest : ∀ l ∈ u.inst.locks.locks, l.isFor id lock.databaseName lock.databaseType = true →
        event.AtRest l u :=
      fun l _ hl => (hrest.later hreach hu).congr (hheld l hl).1 (hheld l hl).2
    have hlisted : ∀ l ∈ u.inst.locks.locks, l.isFor id lock.databaseName lock.databaseType = true →
        ∃ l' ∈ h.inst.locks.locks, sameHolder l' l = true :=
      fun l hl hfor => (ht.trans hu).locks (hf.trans hforce) l hl ((hheld l hfor).1 ▸ hreach)
    obtain ⟨hmove, hle⟩ := Event.releasing_deleteLocks
      { u.inst.locks with
        locks := u.inst.locks.locks.filter (!·.isFor id lock.databaseName lock.databaseType) }
      rfl hatRest hlisted
    exact ⟨hmove, hle, fun _ _ _ => trivial⟩
  · exact .andThen (carries_locksRelease_listed hlock hreach hrest) fun _ _ _ _ _ => .done

theorem carries_unlockOne : Method.Carries (event.releasing h.inst.locks.locks) (fun _ _ => True)
      (unlockOne cfg repo pr result.force lock) t := by
  refine .andThen (carries_releaseForUnlock hlock hreach hf ht hrest) fun released u _ _ _ => ?_
  exact .ite (fun _ => carries_of_keepsStore always_updateCheckRunAfterUnlock) fun _ => .done

end

theorem carries_unlockAll (hlocks : ∀ lock ∈ locks, lock ∈ h.inst.locks.locks)
    (hreach : ∀ lock ∈ locks, event.reaches lock.databaseName = true) (hf : event.forces = result.force) :
    Method.Carries (event.releasing h.inst.locks.locks) (fun _ _ => True)
      (unlockAll cfg repo pr result locks) h := by
  refine .andThen (.forM fun _ _ _ _ _ =>
    carries_of_keepsStore always_enforceActorAuthorization) fun _ t ht _ _ => ?_
  refine .andThen (.lasting (.forM fun lock hlock _ _ _ => carries_noActiveApply (hreach lock hlock)))
    fun _ u hu _ hrest => ?_
  refine .mono (fun _ _ _ _ _ => trivial) (.forM (Q := fun _ _ => True) fun lock hlock v hv hlinked => ?_)
  exact carries_unlockOne (hlocks lock hlock) (hreach lock hlock) hf ((ht.trans hu).trans hv)
    (hrest v hv hlinked lock hlock)

end

/-! ## The programs -/

def Event.others (event : Event) (h h' : Hub) : Prop := event.Undisturbed h h' ∧ h'.Linked

def Event.listing (event : Event) (moves : List (Hub × Hub)) : List Lock :=
  (moves[event.listsAt]?).elim [] fun m => m.1.inst.locks.locks

section
variable {h t : Hub} {moves : List (Hub × Hub)} {q : Prog Hub (Except Reply Unit)} {cfg : ServerConfig}
  {database : String}

theorem Event.Undisturbed.of_others (ho : Relation.ReflTransGen event.others h t) : event.Undisturbed h t := by
  induction ho with
  | refl => exact .of_inst_eq rfl
  | tail _ hstep ih => exact ih.trans hstep.1

theorem Hub.Linked.of_others (hlinked : h.Linked) (ho : Relation.ReflTransGen event.others h t) : t.Linked := by
  induction ho with
  | refl => exact hlinked
  | tail _ hstep _ => exact hstep.2

theorem Event.Spares.read (h : Hub) : event.Spares listed h h :=
  ((event.releasing listed).stay h).1

theorem Event.Spares.of_carries {m : Handling Unit} (hpart : Prog.Partway event.others m.run h moves q t)
    (hm : Method.Carries (event.releasing listed) (fun _ _ => True) m h) (hlinked : h.Linked) :
    ∀ x ∈ moves, event.Spares listed x.1 x.2 :=
  fun x hx => ((hpart.acts (fun _ _ _ ho => ho) (.of_carries hm) hlinked).1 x hx).1

/-! ### A closed pull request -/

def inFlightOf (repo : String) (pr : Nat) (h : Hub) : List PRApply :=
  (h.inst.applies.filter fun a => a.repository = repo && a.pullRequest = pr).filter (!·.state.isTerminal)

theorem mem_inFlightOf {a : PRApply} : a ∈ inFlightOf repo pr h ↔
    a ∈ h.inst.applies ∧ (Event.closed repo pr).protects a = true ∧ a.state.isTerminal = false := by
  unfold inFlightOf Event.protects
  simp only [List.mem_filter, Bool.not_eq_true', and_assoc]

theorem atRest_of_inFlightOf (hnone : ¬ (inFlightOf repo pr h).any fun a =>
      a.database = lock.databaseName && a.databaseType = lock.databaseType) :
    (Event.closed repo pr).AtRest lock h := by
  intro a ha hp hfor
  by_contra hstate
  refine hnone (List.any_eq_true.2 ⟨a, mem_inFlightOf.2 ⟨ha, hp, Bool.eq_false_iff.2 hstate⟩, ?_⟩)
  simp only [Lock.isFor, Bool.and_eq_true, decide_eq_true_eq] at hfor ⊢
  exact ⟨hfor.1.symm, hfor.2.symm⟩

theorem carries_deleteRows (hnone : inFlightOf repo pr h = []) (hu : (Event.closed repo pr).Undisturbed h t) :
    Method.Carries ((Event.closed repo pr).releasing listed) (fun _ _ => True)
      (checksDeleteByPRExcludingApplyOwned repo pr) t := by
  refine .discard (Q := fun _ _ => True) (.write fun v hv hlinked => ?_)
  have hdisowned : ∀ c ∈ v.inst.checks, c ∉ v.inst.writtenRows (.delete repo pr) → c.Disowned v := by
    intro c hc hgone a ha hid
    have hof : c.repository = repo ∧ c.pullRequest = pr := by
      by_contra hother
      have hkept : Instance.kept (.delete repo pr) c = true := by
        simp only [Instance.kept, Bool.not_eq_true', Bool.and_eq_false_iff, decide_eq_false_iff_not]
        exact .inl (not_and_or.1 hother)
      exact hgone (List.mem_append_left _ (Table.mem_update_of_neg (List.mem_filter.2 ⟨hc, hkept⟩) rfl))
    have hkey := PRApply.isOf_iff.1 (hlinked c hc a ha hid)
    simp only [Check.key, PRApply.key, Prod.mk.injEq] at hkey
    have hp : (Event.closed repo pr).protects a = true := by
      simp only [Event.protects, Bool.and_eq_true, decide_eq_true_eq]
      exact ⟨hkey.1 ▸ hof.1, hkey.2.1 ▸ hof.2⟩
    have hrest : (Event.closed repo pr).AtRest { databaseName := a.database, databaseType := a.databaseType } h :=
      atRest_of_inFlightOf (by rw [hnone]; exact Bool.false_ne_true)
    exact hrest.later rfl (hu.trans hv) a ha hp (by simp [Lock.isFor])
  have hkeep : ∀ c ∈ v.inst.writtenRows (.delete repo pr), c ∈ v.inst.checks := by
    intro c hc
    rcases Instance.mem_writtenRows hc with ⟨hold, -⟩ | ⟨check, hrow, -⟩
    · exact hold
    · cases hrow
  refine ⟨⟨⟨fun l hl hgone => absurd hl hgone, fun l hl hgone => absurd hl hgone, hdisowned⟩, ?_⟩, ?_, ?_⟩
  · exact fun hl c hc => hl c (hkeep c hc)
  · exact ⟨fun a ha _ _ hstate => ⟨a, ha, hstate, rfl⟩, fun _ l hl _ => ⟨l, hl, sameHolder_refl l⟩⟩
  · exact fun _ _ _ => trivial

theorem spares_closed (hlinked : h.Linked)
    (hpart : Prog.Partway (Event.closed repo pr).others (handlePRClosed repo pr).run h moves q t) :
    ∀ m ∈ moves, (Event.closed repo pr).Spares ((Event.closed repo pr).listing moves) m.1 m.2 := by
  rcases Method.partway_read_bind hpart with rfl | ⟨u, rest, hhu, rfl, hread⟩
  · exact fun m hm => absurd hm List.not_mem_nil
  rcases Method.partway_read_bind hread with rfl | ⟨v, rest, huv, rfl, hrest⟩
  · intro m hm
    rw [List.mem_singleton.1 hm]
    exact .read u
  have hlinkedV : v.Linked := (hlinked.of_others hhu).of_others huv
  have huv' : (Event.closed repo pr).Undisturbed u v := .of_others huv
  -- the statements that follow the listing
  have hmoves : ∀ m ∈ rest, (Event.closed repo pr).Spares v.inst.locks.locks m.1 m.2 := by
    refine .of_carries hrest ?_ hlinkedV
    refine .andThen (.forM (Q := fun _ _ => True) fun lock hlock x hx _ => ?_) fun _ x hx _ _ => ?_
    · refine .ite (fun _ => .done) fun hnone => ?_
      have hatRest : (Event.closed repo pr).AtRest lock u := atRest_of_inFlightOf hnone
      have hnow : (Event.closed repo pr).AtRest lock x := hatRest.later rfl (huv'.trans hx)
      exact .discard (carries_locksRelease_listed (List.mem_of_mem_filter hlock) rfl hnow)
    · refine .ite (fun hempty => ?_) fun _ => .done
      exact carries_deleteRows (List.isEmpty_iff.1 hempty) (huv'.trans hx)
  intro m hm
  rcases List.mem_cons.1 hm with rfl | hm
  · exact .read u
  rcases List.mem_cons.1 hm with rfl | hm
  · exact .read v
  · exact hmoves m hm

/-! ### `unlock` -/

/-- `handleUnlockCommand`, for a database that is known. -/
def unlockListed (cfg : ServerConfig) (repo : String) (pr : Nat) (result : CommandResult) (database : String) :
    Handling Unit := do
  match ← locksForUnlock repo pr result.force database with
  | .error e => throw (.commandError .unlock "" ("Failed to look up locks: " ++ e))
  | .ok locks => if locks.isEmpty then throw .noLocksFound else unlockAll cfg repo pr result locks

/-- What `unlock` finds in the table. -/
def unlockListing (repo : String) (pr : Nat) (force : Bool) (database : String) (locks : List Lock) :
    Except String (List Lock) :=
  if force then
    if (locks.filter (·.databaseName = database)).any fun l =>
        l.pullRequest ≠ 0 && (l.repository ≠ repo || l.pullRequest ≠ pr) then
      .error ("lock for " ++ database ++ " is held by another pull request")
    else .ok (locks.filter (·.databaseName = database))
  else
    let own := locks.filter fun l => l.repository = repo && l.pullRequest = pr
    .ok (if database = "" then own else own.filter (·.databaseName = database))

theorem locksForUnlock_eq (force : Bool) (database : String) : locksForUnlock repo pr force database =
    Method.read fun h => unlockListing repo pr force database h.inst.locks.locks := by
  cases force with
  | false => rfl
  | true =>
    show Prog.stmt _ _ = Prog.stmt _ _
    congr 1
    funext u
    show ExceptT.run (ite _ _ _) = Prog.ret (Except.ok (ite _ _ _))
    split <;> rfl

theorem mem_of_unlockListing {force : Bool} {table locks : List Lock}
    (hok : unlockListing repo pr force database table = .ok locks) (hlock : lock ∈ locks) :
    lock ∈ table ∧ (lock.databaseName = database ∨ force = false ∧ database = "") := by
  unfold unlockListing at hok
  cases force with
  | true =>
    simp only [if_true] at hok
    split at hok
    · cases hok
    · cases hok
      exact ⟨List.mem_of_mem_filter hlock, .inl (of_decide_eq_true (List.mem_filter.1 hlock).2)⟩
  | false =>
    cases hok
    split at hlock
    · next hdb => exact ⟨List.mem_of_mem_filter hlock, .inr ⟨rfl, hdb⟩⟩
    · obtain ⟨hown, hname⟩ := List.mem_filter.1 hlock
      exact ⟨List.mem_of_mem_filter hown, .inl (of_decide_eq_true hname)⟩

theorem spares_unlockListed (hf : event.forces = result.force)
    (hreach : ∀ lock : Lock, lock.databaseName = database ∨ result.force = false ∧ database = "" →
      event.reaches lock.databaseName = true)
    (hlinked : h.Linked)
    (hpart : Prog.Partway event.others (unlockListed cfg repo pr result database).run h moves q t) :
    ∀ m ∈ moves, event.Spares ((moves[0]?).elim [] fun m => m.1.inst.locks.locks) m.1 m.2 := by
  unfold unlockListed at hpart
  rw [locksForUnlock_eq] at hpart
  rcases Method.partway_read_bind hpart with rfl | ⟨u, rest, hhu, rfl, hrest⟩
  · exact fun m hm => absurd hm List.not_mem_nil
  have hmoves : ∀ m ∈ rest, event.Spares u.inst.locks.locks m.1 m.2 := by
    refine .of_carries hrest ?_ (hlinked.of_others hhu)
    cases hok : unlockListing repo pr result.force database u.inst.locks.locks with
    | error e => exact .throw _
    | ok locks =>
      refine .ite (fun _ => .throw _) fun _ => carries_unlockAll (fun lock hlock => ?_) (fun lock hlock => ?_) hf
      · exact (mem_of_unlockListing hok hlock).1
      · exact hreach lock (mem_of_unlockListing hok hlock).2
  intro m hm
  rcases List.mem_cons.1 hm with rfl | hm
  · exact .read u
  · exact hmoves m hm

theorem spares_unlock (hlinked : h.Linked)
    (hpart : Prog.Partway (Event.comment .unlock repo pr result).others (handleUnlockCommand cfg repo pr result).run
      h moves q t) :
    ∀ m ∈ moves, (Event.comment .unlock repo pr result).Spares
      ((Event.comment .unlock repo pr result).listing moves) m.1 m.2 := by
  unfold handleUnlockCommand unlockDatabase at hpart
  unfold Event.listing
  split at hpart
  · next hinfer =>
    have hat : (Event.comment .unlock repo pr result).listsAt = 1 := if_pos hinfer
    have hreach : ∀ lock : Lock, (Event.comment .unlock repo pr result).reaches lock.databaseName = true :=
      fun lock => by simp [Event.reaches, hinfer.2]
    rw [hat]
    rcases Prog.Partway.stmt hpart with ⟨rfl, -, -⟩ | ⟨u, rest, hhu, rfl, hrest⟩
    · exact fun m hm => absurd hm List.not_mem_nil
    intro m hm
    rcases List.mem_cons.1 hm with rfl | hm
    · exact .read u
    cases hdb : u.inst.outside.unlockDatabase repo pr with
    | error e =>
      have hend : Prog.Partway (Event.comment .unlock repo pr result).others
          (throw (.commandError .unlock "" ("Failed to infer database for force unlock: " ++ e)) :
            Handling Unit).run u rest q t := by
        simp only [hdb] at hrest
        exact hrest
      rw [hend.ret.1] at hm
      exact absurd hm List.not_mem_nil
    | ok database =>
      have hlisted : Prog.Partway (Event.comment .unlock repo pr result).others
          (unlockListed cfg repo pr result database).run u rest q t := by
        simp only [hdb] at hrest
        exact hrest
      exact spares_unlockListed rfl (fun lock _ => hreach lock) (hlinked.of_others hhu) hlisted m hm
  · next hgiven =>
    have hat : (Event.comment .unlock repo pr result).listsAt = 0 := if_neg hgiven
    rw [hat]
    have hlisted : Prog.Partway (Event.comment .unlock repo pr result).others
        (unlockListed cfg repo pr result result.database).run h moves q t := hpart
    refine spares_unlockListed rfl (fun lock hof => ?_) hlinked hlisted
    simp only [Event.reaches, Bool.or_eq_true, decide_eq_true_eq]
    rcases hof with hname | ⟨-, hdb⟩
    · exact .inr hname
    · exact .inl hdb

theorem spares_program {handling : Handle} (hfrees : event.frees = true) (hlinked : h.Linked)
    (hpart : Prog.Partway event.others (event.program cfg handling).run h moves q t) :
    ∀ m ∈ moves, event.Spares (event.listing moves) m.1 m.2 := by
  cases event with
  | closed repo pr => exact spares_closed hlinked hpart
  | comment action repo pr result =>
    cases action with
    | unlock =>
      have hcomment : Prog.Partway (Event.comment .unlock repo pr result).others
          (handleComment cfg handling .unlock repo pr result).run h moves q t := hpart
      unfold handleComment at hcomment
      split at hcomment
      · rw [hcomment.ret.1]
        exact fun m hm => absurd hm List.not_mem_nil
      split at hcomment
      · rw [hcomment.ret.1]
        exact fun m hm => absurd hm List.not_mem_nil
      · exact spares_unlock hlinked hcomment
    | _ => cases hfrees
  | _ => cases hfrees

end

/-! ## Runs -/

/-- The step does not disturb the closings and the `unlock`s that are under way. -/
def Watch.Calm (cfg : Nat → ServerConfig) (v : Watch) (a : Action) : Prop :=
  ∀ x ∈ v.events.zipIdx, x.1.2.frees = true → v.world.isUnderWay x.2 = true → a.advances x.2 = false →
    x.1.2.Undisturbed (v.world.hub x.1.1) ((v.world.step cfg a).hub x.1.1)

instance {cfg : Nat → ServerConfig} {v : Watch} {a : Action} : Decidable (v.Calm cfg a) := by
  unfold Watch.Calm
  infer_instance

/-- The handling of the event has come to `p`, at `t`, with the moves it has made. -/
def Event.Reached (event : Event) (cfg : ServerConfig) (handling : Handle) (moves : List (Hub × Hub))
    (p : Prog Hub (Except Reply Unit)) (t : Hub) : Prop :=
  ∃ h : Hub, h.Linked ∧ Prog.Partway event.others (event.program cfg handling).run h moves p t

/-- Each closing and each `unlock` has come as far as its moves say, undisturbed while it was under way. -/
structure Watch.Sound (cfg : Nat → ServerConfig) (v : Watch) : Prop where
  world : v.world.Sound cfg
  length : v.events.length = v.world.handlings.length
  fresh : ∀ n, v.events.length ≤ n → v.moves n = []
  reached : ∀ (n i : Nat) (event : Event), v.events[n]? = some (i, event) → event.frees = true →
    ∃ p t, v.world.handlings[n]? = some (i, p) ∧ event.Reached (cfg i) ⟨i, n⟩ (v.moves n) p t ∧
      (v.world.isUnderWay n = true → t = v.world.hub i)

section
variable {cfg : Nat → ServerConfig} {v : Watch} {n i : Nat} {a : Action}

theorem Hub.Sound.linked {h : Hub} (hs : h.Sound cfg i) : h.Linked := by
  intro c hc a ha hid
  have hne : c.applyId ≠ 0 := hid ▸ Nat.ne_of_gt (hs.applyIdsPos a ha)
  obtain ⟨⟨a', ha', hid', hof⟩, -⟩ := (hs.checks c hc).owned hne
  rw [hs.applyIds.eq ha ha' (hid.trans hid'.symm)]
  exact hof

theorem Watch.Sound.others (hv : v.Sound cfg) (hcalm : v.Calm cfg a)
    (he : v.events[n]? = some (i, event)) (hfrees : event.frees = true)
    (hidle : (a.advances n && v.world.isUnderWay n) = false) :
    ∃ p t, (v.world.step cfg a).handlings[n]? = some (i, p) ∧
      event.Reached (cfg i) ⟨i, n⟩ ((v.step cfg a).moves n) p t ∧
      ((v.world.step cfg a).isUnderWay n = true → t = (v.world.step cfg a).hub i) := by
  have hlt : n < v.world.handlings.length := hv.length ▸ (List.getElem?_eq_some_iff.1 he).1
  have hstay : (v.world.step cfg a).handlings[n]? = v.world.handlings[n]? :=
    World.handlings_step_of_idle hlt hidle
  have hway : (v.world.step cfg a).isUnderWay n = v.world.isUnderWay n := by
    unfold World.isUnderWay
    rw [hstay]
  have hmoves : (v.step cfg a).moves n = v.moves n := if_neg (Bool.eq_false_iff.1 hidle)
  obtain ⟨p, t, hp, ⟨h, hlinked, hpart⟩, ht⟩ := hv.reached n i event he hfrees
  rw [hstay, hway, hmoves]
  by_cases hunder : v.world.isUnderWay n = true
  · have hmem : ((i, event), n) ∈ v.events.zipIdx := List.mem_zipIdx_iff_getElem?.2 he
    have hquiet : a.advances n = false := by
      rw [hunder, Bool.and_true] at hidle
      exact hidle
    have hu : event.Undisturbed (v.world.hub i) ((v.world.step cfg a).hub i) := hcalm _ hmem hfrees hunder hquiet
    have hothers : event.others t ((v.world.step cfg a).hub i) := by
      rw [ht hunder]
      exact ⟨hu, ((hv.world.step a).hubs i).linked⟩
    exact ⟨p, _, hp, ⟨h, hlinked, hpart.other hothers⟩, fun _ => rfl⟩
  · exact ⟨p, t, hp, ⟨h, hlinked, hpart⟩, fun hu => absurd hu hunder⟩

theorem Watch.Sound.own (hv : v.Sound cfg) (he : v.events[n]? = some (i, event))
    (hfrees : event.frees = true) (hmade : (a.advances n && v.world.isUnderWay n) = true) :
    ∃ p t, (v.world.step cfg a).handlings[n]? = some (i, p) ∧
      event.Reached (cfg i) ⟨i, n⟩ ((v.step cfg a).moves n) p t ∧
      ((v.world.step cfg a).isUnderWay n = true → t = (v.world.step cfg a).hub i) := by
  obtain ⟨hadv, hway⟩ := Bool.and_eq_true_iff.1 hmade
  have hlt : n < v.world.handlings.length := hv.length ▸ (List.getElem?_eq_some_iff.1 he).1
  obtain ⟨p, t, hp, ⟨h, hlinked, hpart⟩, ht⟩ := hv.reached n i event he hfrees
  have hmoves : (v.step cfg a).moves n =
      v.moves n ++ [(v.world.hub i, (v.world.step cfg a).hub i)] := by
    show (if _ then _ else _) = _
    rw [if_pos hmade, he]
    rfl
  cases a with
  | deliver j event | change j c => cases hadv
  | advance m =>
    cases of_decide_eq_true hadv
    cases p with
    | ret r =>
      simp only [World.isUnderWay, hp] at hway
      cases hway
    | stmt f k =>
      have hstep : v.world.step cfg (.advance n) =
          { v.world.put i (f (v.world.hub i)) with
            handlings := v.world.handlings.set n (i, k (v.world.hub i)) } := by
        simp only [World.step, hp]
        rfl
      have hhub : (v.world.step cfg (.advance n)).hub i = f (v.world.hub i) := by
        rw [hstep]
        exact World.hub_put_self
      rw [ht hway] at hpart
      refine ⟨k (v.world.hub i), f (v.world.hub i), ?_, ⟨h, hlinked, ?_⟩, fun _ => hhub.symm⟩
      · rw [hstep]
        exact List.getElem?_set_self hlt
      · rw [hmoves, hhub]
        exact hpart.own

theorem Watch.Sound.step (hv : v.Sound cfg) (a : Action) (hcalm : v.Calm cfg a) : (v.step cfg a).Sound cfg where
  world := hv.world.step a
  length := Watch.length_step hv.length
  fresh n hn := by
    have hle : v.events.length ≤ (v.deliver a).length := by
      cases a with
      | deliver j event => exact List.length_append ▸ Nat.le_add_right _ _
      | _ => exact Nat.le_refl _
    have hnone : v.events[n]? = none := List.getElem?_eq_none (hle.trans hn)
    show (if _ then _ else _) = _
    rw [hnone]
    split
    · exact hv.fresh n (hle.trans hn)
    · exact hv.fresh n (hle.trans hn)
  reached n i event he hfrees := by
    rcases Watch.deliver_cases he with hold | ⟨rfl, rfl⟩
    · cases hmade : a.advances n && v.world.isUnderWay n with
      | true => exact hv.own hold hfrees hmade
      | false => exact hv.others hcalm hold hfrees hmade
    · refine ⟨_, v.world.hub i, Watch.getElem?_deliver hv.length, ⟨v.world.hub i, (hv.world.hubs i).linked, ?_⟩, fun _ => rfl⟩
      have hmoves : (v.step cfg (.deliver i event)).moves v.events.length = [] :=
        hv.fresh _ (Nat.le_refl _)
      rw [hmoves]
      exact .start

theorem Watch.sound_init (cfg : Nat → ServerConfig) : Watch.Sound cfg {} where
  world := World.sound_init cfg
  length := rfl
  fresh _ _ := rfl
  reached n i event he := by cases he

end

/-- In every run whose steps do not disturb the closings of pull requests and the `unlock`s under way, these
take away no lock of an unfinished apply that they have to protect, no lock that has changed hands since they
listed it, and no row that an unfinished apply owns. -/
theorem releases_spared (cfg : Nat → ServerConfig) (actions : List Action)
    (hcalm : Transition.Along (Watch.step cfg) (Watch.Calm cfg) {} actions) (n i : Nat) (event : Event)
    (he : (Watch.after cfg actions).events[n]? = some (i, event)) (hfrees : event.frees = true) :
    ∀ m ∈ (Watch.after cfg actions).moves n,
      event.Spares (event.listing ((Watch.after cfg actions).moves n)) m.1 m.2 := by
  have hv : (Watch.after cfg actions).Sound cfg :=
    Transition.run_induction (fun _ a hv hc => hv.step a hc) (Watch.sound_init cfg) hcalm
  obtain ⟨p, t, -, ⟨h, hlinked, hpart⟩, -⟩ := hv.reached n i event he hfrees
  exact spares_program hfrees hlinked hpart

def closedRun : List Action :=
  Sample.endedRun ++ [.deliver 0 (.closed "app" 1)] ++ Sample.steps 2 2 ++ [Sample.push "B"] ++ Sample.steps 2 2

/-- The lock and the rows go, when the apply has completed. -/
theorem releases_spared_closedRun :
    Transition.Along (Watch.step Sample.config) (Watch.Calm Sample.config) {} closedRun ∧
      ((World.after Sample.config closedRun).instances 0).locks.locks = [] ∧
      ((World.after Sample.config closedRun).instances 0).checks = [] ∧
      ∀ m ∈ (Watch.after Sample.config closedRun).moves 2,
        (Event.closed "app" 1).Spares
          ((Event.closed "app" 1).listing ((Watch.after Sample.config closedRun).moves 2)) m.1 m.2 := by
  have hcalm : Transition.Along (Watch.step Sample.config) (Watch.Calm Sample.config) {} closedRun := by
    decide +kernel
  refine ⟨hcalm, by decide +kernel, by decide +kernel, ?_⟩
  exact releases_spared Sample.config closedRun hcalm 2 0 (.closed "app" 1) rfl rfl

def Sample.held (actions : List Action) : List Lock × List PRApply :=
  (((World.after config actions).instances 0).locks.locks, ((World.after config actions).instances 0).applies)

/-- `apply -y` has taken the lock, and has not stored its apply yet. -/
def lockedRun : List Action :=
  [Sample.push "A", Sample.plans fun _ => [Sample.tableChange],
    Sample.comment .apply { environment := "staging", autoConfirm := true }] ++ Sample.steps 0 20

def closeRace : List Action :=
  lockedRun ++ [.deliver 0 (.closed "app" 1)] ++ Sample.steps 1 2 ++ Sample.steps 0 10

/-- `unlock` has found no apply; then the apply is stored. -/
def unlockRace : List Action :=
  lockedRun ++ [Sample.comment .unlock {}] ++ Sample.steps 1 3 ++ Sample.steps 0 10

/-- `unlock --force` has listed the lock of the pull request; then somebody else takes it. -/
def forceRace : List Action :=
  lockedRun ++ [Sample.comment .unlock { database := "users", force := true }] ++ Sample.steps 1 3 ++
    [.change 0 (.apiUnlock "users" "mysql"),
      .change 0 (.apiLock { databaseName := "users", databaseType := "mysql", owner := "cli:bob" })]

/-- The lock of an apply that has not begun to run is released under it, and the lock of somebody else by
force. -/
theorem releases_unguarded :
    (∀ run ∈ [closeRace, unlockRace], ∃ a ∈ (Sample.held run).2, a.state.isTerminal = false ∧
      a.lockId = (Sample.lock 1 "plan-1").id ∧ Sample.lock 1 "plan-1" ∈ (Sample.held run).1 ∧
      Sample.lock 1 "plan-1" ∉ (Sample.held (run ++ [.advance 1])).1) ∧
    (Sample.held lockedRun).1 = [Sample.lock 1 "plan-1"] ∧
    (∃ l ∈ (Sample.held forceRace).1, l.owner = "cli:bob" ∧ l ∉ (Sample.held (forceRace ++ [.advance 1])).1) := by
  decide +kernel

end SchemaBot.Webhook
