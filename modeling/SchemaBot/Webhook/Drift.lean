import SchemaBot.Webhook.PlanChanges

/-!
# Plans that differ

`apply -y` plans twice: once for the comment that it posts, and again right before it queues the apply.
-/

namespace SchemaBot.Webhook

open Concurrent

/-! ## The comparison -/

section
variable {storedDDL newDDL : List String}

theorem foldl_storedSet (set : String → Nat) (ddl : String) :
    storedDDL.foldl (fun set ddl => Function.update set ddl (set ddl + 1)) set ddl =
      set ddl + storedDDL.count ddl := by
  induction storedDDL generalizing set with
  | nil => rfl
  | cons first rest ih =>
    rw [List.foldl_cons, ih, List.count_cons, Function.update_apply]
    by_cases h : ddl = first
    · simp only [h, if_true, beq_self_eq_true]
      omega
    · have hne : ¬ first = ddl := Ne.symm h
      simp only [h, hne, if_false, beq_iff_eq]
      omega

theorem storedSet_apply (ddl : String) : storedSet storedDDL ddl = storedDDL.count ddl := by
  unfold storedSet
  rw [foldl_storedSet, Nat.zero_add]

theorem takeStatements_iff {set : String → Nat} :
    takeStatements newDDL set = true ↔ ∀ ddl, newDDL.count ddl ≤ set ddl := by
  induction newDDL generalizing set with
  | nil => exact ⟨fun _ _ => Nat.zero_le _, fun _ => rfl⟩
  | cons first rest ih =>
    have hcount (ddl : String) :
        rest.count ddl ≤ Function.update set first (set first - 1) ddl ∧ set first ≠ 0 ↔
          (first :: rest).count ddl ≤ set ddl ∧ set first ≠ 0 := by
      rw [List.count_cons, Function.update_apply]
      by_cases h : ddl = first
      · simp only [h, if_true, beq_self_eq_true]
        omega
      · have hne : ¬ first = ddl := Ne.symm h
        simp only [h, hne, if_false, beq_iff_eq]
        omega
    rw [takeStatements]
    split
    · next hzero =>
      refine ⟨nofun, fun h => ?_⟩
      have hfirst := h first
      rw [List.count_cons_self] at hfirst
      omega
    · next hpos =>
      rw [ih]
      exact forall_congr' fun ddl => ⟨fun h => ((hcount ddl).1 ⟨h, hpos⟩).1, fun h => ((hcount ddl).2 ⟨h, hpos⟩).1⟩

theorem takeStatements_storedSet_iff :
    newDDL.length = storedDDL.length ∧ takeStatements newDDL (storedSet storedDDL) = true ↔
      newDDL.Perm storedDDL := by
  rw [takeStatements_iff]
  simp only [storedSet_apply]
  constructor
  · rintro ⟨hlen, hcount⟩
    have hsub : newDDL.Subperm storedDDL := List.subperm_ext_iff.2 fun ddl _ => hcount ddl
    exact hsub.perm_of_length_le hlen.ge
  · intro hperm
    exact ⟨hperm.length_eq, fun ddl => (hperm.count_eq ddl).le⟩

end

def PlanResponse.SameStatements (r : PlanResponse) (stored : StoredPlan) : Prop :=
  (r.flatTables.map (·.ddl)).Perm (stored.content.flatDDLChanges.map (·.ddl))

theorem ddlMatchesStoredPlan_eq {r : PlanResponse} {stored : StoredPlan} :
    ddlMatchesStoredPlan r stored = true ↔ r.SameStatements stored := by
  unfold ddlMatchesStoredPlan PlanResponse.SameStatements
  rw [← takeStatements_storedSet_iff]
  dsimp only
  split
  · next hlen => exact ⟨nofun, fun h => absurd h.1 hlen⟩
  · next hlen => exact ⟨fun h => ⟨not_not.1 hlen, h⟩, fun h => h.2⟩

/-! ## What is queued -/

def Queues {α : Type} (m : Handling α) : Prop :=
  ∃ h tr result h', Prog.Runs (fun _ _ => True) m.run h tr result h' ∧
    ∃ step ∈ tr, step.2.inst.applies ≠ step.1.inst.applies

def KeepsApplies (s t : Hub) : Prop := t.inst.applies = s.inst.applies

section
variable {cfg : ServerConfig} {handling : Handle} {repo : String} {pr : Nat} {origin : Origin}
  {schema : SchemaRequest} {environment : String} {result : CommandResult} {r : PlanResponse}
  {stored : StoredPlan}

theorem keepsApplies_releaseAndReply {α : Type} {database dbType : String} {reply : Reply} :
    Method.Only KeepsApplies
      (releaseAndReply repo pr database dbType reply : Handling α) := by
  have hrelease : Method.Only KeepsApplies
      (locksRelease database dbType (lockOwner repo pr)) := by
    have hzoom := Prog.Ensures.zoom (L := lockPart) (G := KeepsApplies) (fun _ _ => rfl)
      (releaseLock id database dbType (lockOwner repo pr)).run
    exact Prog.Ensures.bind (hzoom.mono fun _ _ => trivial)
  exact .bind hrelease.discard fun _ => .throw _

theorem keepsApplies_executeReplanned (h : ¬ r.SameStatements stored) : Method.Only KeepsApplies
      (executeReplanned cfg handling repo pr origin schema environment result (some stored) r) := by
  have hdiffer : (some stored).any (!ddlMatchesStoredPlan r ·) = true := by
    rw [Option.any_some, Bool.not_eq_true', Bool.eq_false_iff]
    exact fun hm => h (ddlMatchesStoredPlan_eq.1 hm)
  refine .bind (.step fun _ => rfl) fun _ => ?_
  split
  · exact keepsApplies_releaseAndReply
  · exact .throw _

/-- The comparison accepts the plans with the same statements, and an apply is queued for no other. -/
theorem ddlMatchesStoredPlan_iff (r : PlanResponse) (stored : StoredPlan) : (ddlMatchesStoredPlan r stored = true ↔
      (r.flatTables.map (·.ddl)).Perm (stored.content.flatDDLChanges.map (·.ddl))) ∧
    ∀ cfg handling repo pr origin schema environment result,
      Queues (executeReplanned cfg handling repo pr origin schema environment result (some stored) r) →
        (r.flatTables.map (·.ddl)).Perm (stored.content.flatDDLChanges.map (·.ddl)) := by
  refine ⟨ddlMatchesStoredPlan_eq, fun cfg handling repo pr origin schema environment result hq => ?_⟩
  by_contra hne
  obtain ⟨h, tr, res, h', hrun, step, hstep, hchanged⟩ := hq
  have halways : Method.Only KeepsApplies
      (executeReplanned cfg handling repo pr origin schema environment result (some stored) r) :=
    keepsApplies_executeReplanned hne
  exact hchanged ((halways.runs (fun _ _ _ _ => trivial) hrun trivial).1 step hstep)

end

def strayChange : SchemaChange :=
  { Sample.tableChange with
    namespaceName := "orders", vschemaDiff := "+ hash", vschemaChanged := true, vschema := "hash" }

/-- `apply -y`, between whose two plans the change moves to the other namespace. -/
def strayRun : List Action :=
  [Sample.push "A", Sample.plans fun _ => [Sample.tableChange],
    Sample.comment .apply { environment := "staging", autoConfirm := true }] ++ Sample.steps 0 18 ++
  [Sample.plans fun _ => [strayChange]] ++ Sample.steps 0 19

/-- The plan that `apply -y` has posted does not change the namespace, and that of the apply it queues changes a
table and the VSchema there. -/
theorem stray_change_applied :
    let storage := (World.after Sample.config strayRun).instances 0
    ddlMatchesStoredPlan { changes := [strayChange] } (Sample.plan "plan-1" "staging" "A") = true ∧
      (Sample.plan "plan-1" "staging" "A").content.namespaces.lookup "orders" = none ∧
      storage.applies.map (·.planIdentifier) = ["plan-2"] ∧
      (storage.plans.map fun p => (p.planIdentifier, p.content.namespaces.lookup "orders")) =
        [("plan-1", none), ("plan-2", some
          { tables := [{ table := "t", ddl := "ALTER TABLE t ADD c INT" }], vschema := "hash" })] := by
  decide +kernel

end SchemaBot.Webhook
