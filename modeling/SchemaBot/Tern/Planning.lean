import SchemaBot.Tern.Drive

/-!
# What a plan keeps of its shards

`LocalClient.Plan` (`pkg/tern/local_client.go`) stores what the engine plans.
-/

namespace SchemaBot

open Concurrent (bind_eq_ok)

variable {host : Host} {changes : List EngineSchemaChange} {p : Plan} {q : ShardedChange}

/-! ## The stored plan -/

def Host.planNamespace (host : Host) (namespaceName : String) : String :=
  if namespaceName = "" ∨ (host.databaseType = databaseTypeMySQL ∧ namespaceName = "default") then
    host.database
  else namespaceName

def trimSpace (s : String) : String :=
  String.ofList ((s.toList.dropWhile Char.isWhitespace).reverse.dropWhile Char.isWhitespace).reverse

/-- The loop over the table changes of a `SchemaChange`: the first change of a table is kept. -/
def keepFirst : List TableChange → List EngineTableChange → List TableChange
  | tables, [] => tables
  | tables, tc :: tcs =>
    keepFirst (if tables.any (·.table = tc.table) then tables
      else tables ++ [{ table := tc.table, ddl := tc.ddl, operation := tc.operation }]) tcs

def updateNamespace (namespaceName : String) (f : NamespacePlanData → NamespacePlanData)
    (entries : List (String × NamespacePlanData)) : List (String × NamespacePlanData) :=
  if entries.any (·.1 = namespaceName) then
    entries.map fun e => if e.1 = namespaceName then (e.1, f e.2) else e
  else entries ++ [(namespaceName, f {})]

/-- The body of the loop over the engine's changes; `vschemaFile` is the `vschema.json` of a namespace
among the schema files, empty when there is none. -/
def Host.planChange (host : Host) (vschemaFile : String → String) (p : Plan) (sc : EngineSchemaChange) : Plan where
  namespaces := updateNamespace (host.planNamespace sc.namespaceName) (fun d =>
    { tables := keepFirst d.tables sc.tableChanges
      vschema := if sc.vschemaChanged ∧ vschemaFile (host.planNamespace sc.namespaceName) ≠ "" then
          vschemaFile (host.planNamespace sc.namespaceName)
        else d.vschema }) p.namespaces
  shards := if trimSpace sc.shard ≠ "" then
      p.shards ++ [⟨trimSpace sc.shard, host.planNamespace sc.namespaceName, true⟩]
    else p.shards

/-- The plan that `LocalClient.Plan` stores for the changes of the engine, if it stores one. -/
def Host.storedPlan (host : Host) (vschemaFile : String → String) (changes : List EngineSchemaChange) :
    Option Plan :=
  let p := changes.foldl (host.planChange vschemaFile) {}
  let p := if p.namespaces.isEmpty then { p with namespaces := [(host.database, {})] } else p
  if (changes.flatMap (·.tableChanges)).isEmpty ∧ ¬ p.namespaces.any (·.2.vschema ≠ "") then none
  else some p

/-! ## Planned changes and tasks -/

structure ShardedChange where
  namespaceName : String
  shard : String
  table : String
  ddl : String
  deriving DecidableEq

def Host.plannedChanges (host : Host) (changes : List EngineSchemaChange) : List ShardedChange :=
  changes.flatMap fun sc => sc.tableChanges.map fun tc =>
    ⟨host.planNamespace sc.namespaceName, trimSpace sc.shard, tc.table, tc.ddl⟩

def Task.shardedChange (t : Task) : ShardedChange := ⟨t.namespaceName, t.shard, t.tableName, t.ddl⟩

def deploymentChanges (deployment : String) (groups : List ApplyOperationWithTasks) : List ShardedChange :=
  (groups.filter (·.operation.deployment = deployment)).flatMap (·.tasks.map Task.shardedChange)

structure Host.AlikeShards (host : Host) (changes : List EngineSchemaChange) : Prop where
  named : ∀ sc ∈ changes, sc.tableChanges ≠ [] → trimSpace sc.shard ≠ ""
  oneDDL : ∀ q ∈ host.plannedChanges changes, ∀ q' ∈ host.plannedChanges changes,
    q.namespaceName = q'.namespaceName → q.table = q'.table → q.ddl = q'.ddl
  all : ∀ q ∈ host.plannedChanges changes, ∀ sc ∈ changes,
    host.planNamespace sc.namespaceName = q.namespaceName → trimSpace sc.shard ≠ "" →
      { q with shard := trimSpace sc.shard } ∈ host.plannedChanges changes

/-! ## The first change of a table -/

section
variable {tables : List TableChange} {tcs : List EngineTableChange} {tc : TableChange}

theorem keepFirst_append (tables : List TableChange) (tcs tcs' : List EngineTableChange) :
    keepFirst tables (tcs ++ tcs') = keepFirst (keepFirst tables tcs) tcs' := by
  induction tcs generalizing tables with
  | nil => rfl
  | cons tc tcs ih => exact ih _

theorem mem_keepFirst_of_mem (h : tc ∈ tables) : tc ∈ keepFirst tables tcs := by
  induction tcs generalizing tables with
  | nil => exact h
  | cons e tcs ih =>
    refine ih ?_
    split
    · exact h
    · exact List.mem_append_left _ h

theorem mem_keepFirst (h : tc ∈ keepFirst tables tcs) :
    tc ∈ tables ∨ ∃ e ∈ tcs, tc = { table := e.table, ddl := e.ddl, operation := e.operation } := by
  induction tcs generalizing tables with
  | nil => exact .inl h
  | cons e tcs ih =>
    rcases ih h with h | ⟨e', he', rfl⟩
    · split at h
      · exact .inl h
      · rcases List.mem_append.1 h with h | h
        · exact .inl h
        · exact .inr ⟨e, .head _, List.mem_singleton.1 h⟩
    · exact .inr ⟨e', .tail _ he', rfl⟩

theorem exists_mem_keepFirst {e : EngineTableChange} (he : e ∈ tcs) :
    ∃ tc ∈ keepFirst tables tcs, tc.table = e.table := by
  induction tcs generalizing tables with
  | nil => cases he
  | cons e' tcs ih =>
    rcases List.mem_cons.1 he with rfl | he
    · by_cases hany : tables.any (·.table = e.table) = true
      · obtain ⟨tc, htc, ht⟩ := List.any_eq_true.1 hany
        refine ⟨tc, ?_, of_decide_eq_true ht⟩
        exact mem_keepFirst_of_mem htc
      · refine ⟨{ table := e.table, ddl := e.ddl, operation := e.operation }, ?_, rfl⟩
        simp only [keepFirst, hany]
        exact mem_keepFirst_of_mem (List.mem_append_right _ (.head _))
    · exact ih he

theorem keepFirst_nodup (h : (tables.map (·.table)).Nodup) : ((keepFirst tables tcs).map (·.table)).Nodup := by
  induction tcs generalizing tables with
  | nil => exact h
  | cons e tcs ih =>
    refine ih ?_
    split
    · exact h
    · next hany =>
      have hnew : e.table ∉ tables.map (·.table) := by
        intro hmem
        obtain ⟨tc, htc, ht⟩ := List.mem_map.1 hmem
        exact hany (List.any_eq_true.2 ⟨tc, htc, decide_eq_true ht⟩)
      rw [List.map_append]
      exact List.nodup_append.2 ⟨h, List.nodup_singleton _, by
        intro a ha b hb hab
        rw [List.map_singleton, List.mem_singleton] at hb
        rw [hab, hb] at ha
        exact hnew ha⟩

end

/-! ## What the stored plan keeps -/

def Host.changesOf (host : Host) (changes : List EngineSchemaChange) (namespaceName : String) :
    List EngineTableChange :=
  (changes.filter (host.planNamespace ·.namespaceName = namespaceName)).flatMap (·.tableChanges)

structure Host.Keeps (host : Host) (changes : List EngineSchemaChange) (p : Plan) : Prop where
  tables : ∀ e ∈ p.namespaces, e.2.tables = keepFirst [] (host.changesOf changes e.1)
  all : ∀ sc ∈ changes, ∃ e ∈ p.namespaces, e.1 = host.planNamespace sc.namespaceName
  shards : ∀ s : ShardPlan, s ∈ p.shards ↔ s.needsChange = true ∧ s.shard ≠ "" ∧
    ∃ sc ∈ changes, host.planNamespace sc.namespaceName = s.namespaceName ∧ trimSpace sc.shard = s.shard

theorem Host.changesOf_append (sc : EngineSchemaChange) (namespaceName : String) :
    host.changesOf (changes ++ [sc]) namespaceName = host.changesOf changes namespaceName ++
      if host.planNamespace sc.namespaceName = namespaceName then sc.tableChanges else [] := by
  unfold changesOf
  split
  · next h => simp [h]
  · next h => simp [h]

theorem Host.Keeps.planChange (h : host.Keeps changes p) (vschemaFile : String → String) (sc : EngineSchemaChange) :
    host.Keeps (changes ++ [sc]) (host.planChange vschemaFile p sc) where
  tables e he := by
    rw [Host.changesOf_append]
    simp only [Host.planChange, updateNamespace] at he
    split at he
    · obtain ⟨old, hold, rfl⟩ := List.mem_map.1 he
      have htables := h.tables old hold
      split
      · next hns => rw [if_pos hns.symm, keepFirst_append, ← htables]
      · next hns => rw [if_neg fun heq => hns heq.symm, List.append_nil, htables]
    · next hany =>
      rcases List.mem_append.1 he with he | he
      · have hns : ¬ host.planNamespace sc.namespaceName = e.1 := fun heq =>
          hany (List.any_eq_true.2 ⟨e, he, decide_eq_true heq.symm⟩)
        rw [if_neg hns, List.append_nil, h.tables e he]
      · rw [List.mem_singleton.1 he, if_pos rfl]
        have hnew : host.changesOf changes (host.planNamespace sc.namespaceName) = [] := by
          have hfilter : changes.filter (host.planNamespace ·.namespaceName =
              host.planNamespace sc.namespaceName) = [] := by
            refine List.filter_eq_nil_iff.2 fun sc' hsc' heq => ?_
            obtain ⟨e, he, hkey⟩ := h.all sc' hsc'
            exact hany (List.any_eq_true.2 ⟨e, he, decide_eq_true (hkey.trans (of_decide_eq_true heq))⟩)
          rw [Host.changesOf, hfilter, List.flatMap_nil]
        rw [hnew, List.nil_append]
  all sc' hsc' := by
    simp only [Host.planChange, updateNamespace]
    rcases List.mem_append.1 hsc' with hsc' | hsc'
    · obtain ⟨e, he, hkey⟩ := h.all sc' hsc'
      split
      · refine ⟨_, List.mem_map_of_mem he, ?_⟩
        split <;> exact hkey
      · exact ⟨e, List.mem_append_left _ he, hkey⟩
    · rw [List.mem_singleton.1 hsc']
      split
      · next hany =>
        obtain ⟨e, he, hkey⟩ := List.any_eq_true.1 hany
        refine ⟨_, List.mem_map_of_mem he, ?_⟩
        split <;> exact of_decide_eq_true hkey
      · exact ⟨_, List.mem_append_right _ (.head _), rfl⟩
  shards s := by
    have hold := h.shards s
    simp only [Host.planChange, List.mem_append, List.mem_singleton]
    split
    · next hname =>
      rw [List.mem_append, hold, List.mem_singleton]
      constructor
      · rintro (⟨hneeds, hne, sc', hsc', hs⟩ | rfl)
        · exact ⟨hneeds, hne, sc', .inl hsc', hs⟩
        · exact ⟨rfl, hname, sc, .inr rfl, rfl, rfl⟩
      · rintro ⟨hneeds, hne, sc', hsc' | rfl, hns, hshard⟩
        · exact .inl ⟨hneeds, hne, sc', hsc', hns, hshard⟩
        · refine .inr ?_
          obtain ⟨shard, namespaceName, needsChange⟩ := s
          cases hneeds
          cases hns
          cases hshard
          rfl
    · next hname =>
      rw [hold]
      constructor
      · rintro ⟨hneeds, hne, sc', hsc', hs⟩
        exact ⟨hneeds, hne, sc', .inl hsc', hs⟩
      · rintro ⟨hneeds, hne, sc', hsc' | rfl, hns, hshard⟩
        · exact ⟨hneeds, hne, sc', hsc', hns, hshard⟩
        · exact absurd hshard fun heq => hne (heq ▸ not_not.1 hname)

theorem Host.keeps_foldl (vschemaFile : String → String) (changes : List EngineSchemaChange)
    {done : List EngineSchemaChange} (h : host.Keeps done p) :
    host.Keeps (done ++ changes) (changes.foldl (host.planChange vschemaFile) p) := by
  induction changes generalizing done p with
  | nil => rwa [List.append_nil]
  | cons sc changes ih =>
    have hnext := ih (h.planChange vschemaFile sc)
    rwa [List.append_assoc] at hnext

theorem Host.keeps_storedPlan {vschemaFile : String → String} (h : host.storedPlan vschemaFile changes = some p) :
    host.Keeps changes p := by
  have hempty : host.Keeps [] {} := ⟨nofun, nofun, fun s => ⟨nofun, fun ⟨_, _, _, hmem, _⟩ => absurd hmem List.not_mem_nil⟩⟩
  have hfold := Host.keeps_foldl vschemaFile changes hempty
  simp only [Host.storedPlan, Option.ite_none_left_eq_some, Option.some.injEq] at h
  obtain ⟨-, rfl⟩ := h
  split
  · next hnone =>
    -- Without a namespace there is no change either.
    have hnil : changes = [] := by
      cases changes with
      | nil => rfl
      | cons sc changes =>
        obtain ⟨e, he, -⟩ := hfold.all sc (.head _)
        rw [List.isEmpty_iff.1 hnone] at he
        cases he
    subst hnil
    refine ⟨fun e he => ?_, nofun, hfold.shards⟩
    rw [List.mem_singleton.1 he]
    rfl
  · exact hfold

/-! ## The tasks of the groups -/

section
variable {r : RolloutPolicy} {target : ExecutionTarget} {targets : List ExecutionTarget}
  {groups groups' : List ApplyOperationWithTasks} {deployment : String}

def shardChange (c : TableChange × ShardPlan) : ShardedChange := ⟨c.1.namespaceName, c.2.shard, c.1.table, c.1.ddl⟩

theorem mem_deploymentChanges : q ∈ deploymentChanges deployment groups ↔
    ∃ g ∈ groups, g.operation.deployment = deployment ∧ ∃ t ∈ g.tasks, t.shardedChange = q := by
  simp [deploymentChanges, and_assoc]

theorem mem_deploymentChanges_addShardTask (operation : ApplyOperation) (task : Task) :
    q ∈ deploymentChanges deployment (addShardTask operation task groups) ↔
      q ∈ deploymentChanges deployment groups ∨ operation.deployment = deployment ∧ q = task.shardedChange := by
  induction groups with
  | nil => simp [addShardTask, mem_deploymentChanges, eq_comm]
  | cons g gs ih =>
    unfold addShardTask
    split
    · next h =>
      simp only [mem_deploymentChanges, List.mem_cons, List.mem_append, List.not_mem_nil, or_false, or_and_right,
        exists_or, exists_eq_left, and_or_left, h.2.1, eq_comm (a := q)]
      rw [or_assoc, or_assoc]
      exact or_congr_right or_comm
    · simp only [mem_deploymentChanges, List.mem_cons, exists_eq_or_imp] at ih ⊢
      rw [ih, or_assoc]

theorem mem_deploymentChanges_addShardOperations {changes : List (TableChange × ShardPlan)}
    (h : addShardOperations r target changes groups = .ok groups') :
    q ∈ deploymentChanges deployment groups' ↔ q ∈ deploymentChanges deployment groups ∨
      target.deployment = deployment ∧ ∃ c ∈ changes, q = shardChange c := by
  induction changes generalizing groups with
  | nil =>
    cases h
    simp
  | cons c rest ih =>
    obtain ⟨change, shard⟩ := c
    obtain ⟨_, -, h⟩ := bind_eq_ok h
    obtain ⟨_, -, h⟩ := bind_eq_ok h
    rw [ih h, mem_deploymentChanges_addShardTask, or_assoc]
    simp only [List.mem_cons, exists_eq_or_imp, and_or_left]
    rfl

theorem deploymentChanges_addFinalizers {namespaces : List String}
    (h : addFinalizers r target namespaces groups = .ok groups') :
    deploymentChanges deployment groups' = deploymentChanges deployment groups := by
  induction namespaces generalizing groups with
  | nil =>
    cases h
    rfl
  | cons n rest ih =>
    obtain ⟨_, -, h⟩ := bind_eq_ok h
    obtain ⟨_, -, h⟩ := bind_eq_ok h
    rw [ih h]
    simp only [deploymentChanges]
    cases decide ((newFinalizerOperation r target n).deployment = deployment) <;> simp

theorem mem_deploymentChanges_buildShardedGroups (h : buildShardedGroups p r targets groups = .ok groups') :
    q ∈ deploymentChanges deployment groups' ↔ q ∈ deploymentChanges deployment groups ∨
      (∃ t ∈ targets, t.deployment = deployment) ∧ ∃ c ∈ p.shardChanges, q = shardChange c := by
  induction targets generalizing groups with
  | nil =>
    cases h
    simp
  | cons t targets ih =>
    obtain ⟨_, hadd, h⟩ := bind_eq_ok h
    obtain ⟨_, hfinal, h⟩ := bind_eq_ok h
    rw [ih h, deploymentChanges_addFinalizers hfinal, mem_deploymentChanges_addShardOperations hadd, or_assoc,
      ← or_and_right]
    simp only [List.mem_cons, exists_eq_or_imp]

theorem deploymentChanges_nameGroups (uuid : Nat → String) (n : Nat) :
    deploymentChanges deployment (nameGroups uuid n groups) = deploymentChanges deployment groups := by
  have htasks : ∀ (n : Nat) (ts : List Task),
      (nameTasks uuid n ts).map Task.shardedChange = ts.map Task.shardedChange := by
    intro n ts
    induction ts generalizing n with
    | nil => rfl
    | cons t ts ih => exact congrArg (t.shardedChange :: ·) (ih _)
  induction groups generalizing n with
  | nil => rfl
  | cons g gs ih =>
    have hrest := ih (n + g.tasks.length)
    simp only [deploymentChanges, nameGroups, List.filter_cons] at hrest ⊢
    split
    · rw [List.flatMap_cons, List.flatMap_cons, htasks, hrest]
    · exact hrest

theorem exists_mem_shardChanges : (∃ c ∈ p.shardChanges, q = shardChange c) ↔
    ∃ c ∈ p.flatDDLChanges, ∃ s ∈ p.shards, s.needsChange = true ∧ s.namespaceName = c.namespaceName ∧
      q = ⟨c.namespaceName, s.shard, c.table, c.ddl⟩ := by
  simp only [Plan.shardChanges, Plan.changingShards, List.mem_flatMap, List.mem_map, List.mem_insertionSort,
    List.mem_filter, Bool.and_eq_true, decide_eq_true_eq, shardChange]
  constructor
  · rintro ⟨_, ⟨c, hc, s, ⟨hs, hneeds, hns⟩, rfl⟩, rfl⟩
    exact ⟨c, hc, s, hs, hneeds, hns, rfl⟩
  · rintro ⟨c, hc, s, hs, hneeds, hns, rfl⟩
    exact ⟨_, ⟨c, hc, s, ⟨hs, hneeds, hns⟩, rfl⟩, rfl⟩

end

/-! ## Tasks and planned changes -/

section
/-- What the stored plan makes of the changes: the first change of a table of the namespace, on every shard that the
namespace names. -/
theorem Host.Keeps.exists_mem_shardChanges_iff (h : host.Keeps changes p) :
    (∃ c ∈ p.shardChanges, q = shardChange c) ↔
      (∃ tc ∈ keepFirst [] (host.changesOf changes q.namespaceName), tc.table = q.table ∧ tc.ddl = q.ddl) ∧
      q.shard ≠ "" ∧ ∃ sc ∈ changes, host.planNamespace sc.namespaceName = q.namespaceName ∧
        trimSpace sc.shard = q.shard := by
  have hunnamed : ∀ {ns : String} {tc : TableChange}, tc ∈ keepFirst [] (host.changesOf changes ns) →
      tc.namespaceName = "" := by
    intro ns tc htc
    obtain hnil | ⟨e, -, rfl⟩ := mem_keepFirst htc
    · cases hnil
    · rfl
  rw [exists_mem_shardChanges]
  simp only [Plan.flatDDLChanges, Plan.sortedNamespaces, List.mem_flatMap, List.mem_insertionSort, List.mem_map]
  constructor
  · rintro ⟨_, ⟨e, he, tc, htc, rfl⟩, s, hs, -, hns, rfl⟩
    rw [h.tables e he] at htc
    rw [if_pos (hunnamed htc)] at hns ⊢
    obtain ⟨-, hne, sc, hsc, hnamespace, hshard⟩ := (h.shards s).1 hs
    exact ⟨⟨tc, htc, rfl, rfl⟩, hne, sc, hsc, hnamespace.trans hns, hshard⟩
  · rintro ⟨⟨tc, htc, htable, hddl⟩, hne, sc, hsc, hns, hshard⟩
    obtain ⟨e, he, hkey⟩ := h.all sc hsc
    rw [hns] at hkey
    have hmem : tc ∈ e.2.tables := by
      rw [h.tables e he, hkey]
      exact htc
    refine ⟨_, ⟨e, he, tc, hmem, rfl⟩, ⟨q.shard, q.namespaceName, true⟩, ?_, rfl, ?_, ?_⟩
    · exact (h.shards _).2 ⟨rfl, hne, sc, hsc, hns, hshard⟩
    · rw [if_pos (hunnamed htc)]
      exact hkey.symm
    · rw [if_pos (hunnamed htc), htable, hddl, hkey]

theorem Host.mem_plannedChanges : q ∈ host.plannedChanges changes ↔ ∃ sc ∈ changes, ∃ tc ∈ sc.tableChanges,
    host.planNamespace sc.namespaceName = q.namespaceName ∧ trimSpace sc.shard = q.shard ∧
      tc.table = q.table ∧ tc.ddl = q.ddl := by
  obtain ⟨ns, shard, table, ddl⟩ := q
  simp [plannedChanges]

theorem Host.mem_changesOf {ns : String} {tc : EngineTableChange} : tc ∈ host.changesOf changes ns ↔
    ∃ sc ∈ changes, host.planNamespace sc.namespaceName = ns ∧ tc ∈ sc.tableChanges := by
  simp [changesOf, and_assoc]

end

/-- For a sharded plan, the tasks of each deployment are the changes that the engine planned, shard by shard, exactly
if the shards of each namespace are alike. -/
theorem shard_tasks_planned_iff {host : Host} {vschemaFile : String → String} {changes : List EngineSchemaChange}
    {p : Plan} {targets : List ExecutionTarget} {r : RolloutPolicy} {uuid : Nat → String}
    {groups : List ApplyOperationWithTasks} (hplan : host.storedPlan vschemaFile changes = some p)
    (hsharded : p.canBuildSharded = true) (htargets : targets ≠ [])
    (hbuild : buildApplyOperationGroups p targets r true uuid = .ok groups) :
    (∀ target ∈ targets, ∀ q, q ∈ deploymentChanges target.deployment groups ↔ q ∈ host.plannedChanges changes) ↔
      host.AlikeShards changes := by
  have hkeeps := Host.keeps_storedPlan hplan
  -- What the tasks of a deployment are, by the stored plan.
  have htasks : ∀ target ∈ targets, ∀ q, q ∈ deploymentChanges target.deployment groups ↔
      ∃ c ∈ p.shardChanges, q = shardChange c := by
    intro target htarget q
    rw [buildApplyOperationGroups, hsharded] at hbuild
    obtain ⟨built, hbuilt, hnamed⟩ := bind_eq_ok hbuild
    cases hnamed
    rw [deploymentChanges_nameGroups, mem_deploymentChanges_buildShardedGroups hbuilt]
    simp only [deploymentChanges, List.filter_nil, List.flatMap_nil, List.not_mem_nil, false_or]
    exact and_iff_right ⟨target, htarget, rfl⟩
  constructor
  · intro hall
    obtain ⟨target, rest, rfl⟩ := List.exists_cons_of_ne_nil htargets
    have hplanned := fun q => (hall target (.head _) q).symm.trans
      ((htasks target (.head _) q).trans hkeeps.exists_mem_shardChanges_iff)
    refine ⟨fun sc hsc hne => ?_, fun q hq q' hq' hns htable => ?_, fun q hq sc hsc hns hne => ?_⟩
    · obtain ⟨tc, tcs, htcs⟩ := List.exists_cons_of_ne_nil hne
      have hmem : ⟨_, trimSpace sc.shard, tc.table, tc.ddl⟩ ∈ host.plannedChanges changes :=
        Host.mem_plannedChanges.2 ⟨sc, hsc, tc, by rw [htcs]; exact .head _, rfl, rfl, rfl, rfl⟩
      exact ((hplanned _).1 hmem).2.1
    · obtain ⟨⟨tc, htc, ht, hddl⟩, -⟩ := (hplanned q).1 hq
      obtain ⟨⟨tc', htc', ht', hddl'⟩, -⟩ := (hplanned q').1 hq'
      rw [hns] at htc
      have hsame : tc = tc' := List.inj_on_of_nodup_map (@keepFirst_nodup [] _ List.nodup_nil) htc htc'
        (ht.trans (htable.trans ht'.symm))
      rw [← hddl, ← hddl', hsame]
    · obtain ⟨hfirst, -⟩ := (hplanned q).1 hq
      exact (hplanned _).2 ⟨hfirst, hne, sc, hsc, hns, rfl⟩
  · intro halike target htarget q
    rw [htasks target htarget q, hkeeps.exists_mem_shardChanges_iff]
    constructor
    · rintro ⟨⟨tc, htc, htable, hddl⟩, hne, sc, hsc, hns, hshard⟩
      obtain hnil | ⟨e, he, rfl⟩ := mem_keepFirst htc
      · cases hnil
      · -- The change is planned on some shard, and so on this one.
        obtain ⟨sc', hsc', hns', he⟩ := Host.mem_changesOf.1 he
        have hsome : { q with shard := trimSpace sc'.shard } ∈ host.plannedChanges changes :=
          Host.mem_plannedChanges.2 ⟨sc', hsc', e, he, hns', rfl, htable, hddl⟩
        have hmem := halike.all _ hsome sc hsc hns (hshard ▸ hne)
        rwa [hshard] at hmem
    · intro hq
      obtain ⟨sc, hsc, e, he, hns, hshard, htable, hddl⟩ := Host.mem_plannedChanges.1 hq
      obtain ⟨tc, htc, ht⟩ := @exists_mem_keepFirst [] _ _ (Host.mem_changesOf.2 ⟨sc, hsc, hns, he⟩)
      refine ⟨⟨tc, htc, ht.trans htable, ?_⟩, ?_, sc, hsc, hns, hshard⟩
      · obtain hnil | ⟨e', he', rfl⟩ := mem_keepFirst htc
        · cases hnil
        · obtain ⟨sc', hsc', hns', he'⟩ := Host.mem_changesOf.1 he'
          have hfirst : ⟨q.namespaceName, trimSpace sc'.shard, e'.table, e'.ddl⟩ ∈ host.plannedChanges changes :=
            Host.mem_plannedChanges.2 ⟨sc', hsc', e', he', hns', rfl, rfl, rfl⟩
          exact halike.oneDDL _ hfirst q hq rfl (ht.trans htable)
      · rw [← hshard]
        exact halike.named sc hsc (List.ne_nil_of_mem he)

namespace Sample

def driftedHost : Host where
  database := "commerce"
  databaseType := "strata"
  engineApply _ := ([], .accepted none false)
  plan _ := none

def twoShards (second : List EngineTableChange) : List EngineSchemaChange :=
  [{ namespaceName := "commerce", shard := "-80", tableChanges := [⟨"users", "ALTER TABLE users ADD a int", "alter"⟩] },
    { namespaceName := "commerce", shard := "80-", tableChanges := second }]

def driftedTargets : List ExecutionTarget := [⟨"a", "a"⟩]

def shardRollout : RolloutPolicy := ⟨.rolling, .halt, 0⟩

def alikePlan : Plan where
  namespaces := [("commerce", { tables := [{ table := "users", ddl := "ALTER TABLE users ADD a int" }] })]
  shards := [⟨"-80", "commerce", true⟩, ⟨"80-", "commerce", true⟩]

def alikeGroups : List ApplyOperationWithTasks :=
  ((buildApplyOperationGroups alikePlan driftedTargets shardRollout true toString).toOption).getD []

def shardTasks (second : List EngineTableChange) : Option (List ShardedChange) := do
  let p ← driftedHost.storedPlan (fun _ => "") (twoShards second)
  let groups ← (buildApplyOperationGroups p driftedTargets shardRollout true toString).toOption
  pure (deploymentChanges "a" groups)

end Sample

open Sample in
/-- A shard that has drifted gets the change of the other shard, and one without a change of the table gets it too. -/
theorem drifted_shard_gets_other_change :
    shardTasks [⟨"users", "ALTER TABLE users ADD a int, ADD b int", "alter"⟩] =
        some [⟨"commerce", "-80", "users", "ALTER TABLE users ADD a int"⟩,
          ⟨"commerce", "80-", "users", "ALTER TABLE users ADD a int"⟩] ∧
      shardTasks [⟨"orders", "ALTER TABLE orders ADD c int", "alter"⟩] =
        some [⟨"commerce", "-80", "users", "ALTER TABLE users ADD a int"⟩,
          ⟨"commerce", "80-", "users", "ALTER TABLE users ADD a int"⟩,
          ⟨"commerce", "-80", "orders", "ALTER TABLE orders ADD c int"⟩,
          ⟨"commerce", "80-", "orders", "ALTER TABLE orders ADD c int"⟩] := by
  decide +kernel

open Sample in
/-- Two shards that are alike. -/
theorem alike_shards_get_planned_changes : alikeGroups.length = 2 ∧ ∀ target ∈ driftedTargets, ∀ q,
      q ∈ deploymentChanges target.deployment alikeGroups ↔
        q ∈ driftedHost.plannedChanges (twoShards [⟨"users", "ALTER TABLE users ADD a int", "alter"⟩]) := by
  have hplan : driftedHost.storedPlan (fun _ => "") (twoShards [⟨"users", "ALTER TABLE users ADD a int", "alter"⟩]) =
      some alikePlan := by decide +kernel
  have hbuild : buildApplyOperationGroups alikePlan driftedTargets shardRollout true toString = .ok alikeGroups := rfl
  refine ⟨by decide +kernel, (shard_tasks_planned_iff hplan (by decide +kernel) (by decide) hbuild).2 ⟨?_, ?_, ?_⟩⟩
  all_goals decide +kernel

end SchemaBot
