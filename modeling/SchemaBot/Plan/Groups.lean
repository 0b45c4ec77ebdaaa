import Mathlib.Data.List.Sort
import SchemaBot.Storage.OperationClaims

/-!
# The operations of a new apply

`buildApplyOperationGroups` (`pkg/api/plan_handlers.go`) turns a stored plan and the ordered execution targets into
the operations of an apply.
-/

namespace SchemaBot

open Concurrent (bind_eq_ok)

/-! ## Plans -/

structure TableChange where
  namespaceName : String := ""
  table : String
  ddl : String
  operation : String := "alter"
  deriving DecidableEq

/-- `NamespacePlanData`, the table changes and the artifact `vschema.json`, empty when absent. -/
structure NamespacePlanData where
  tables : List TableChange := []
  vschema : String := ""
  deriving DecidableEq

structure ShardPlan where
  shard : String
  namespaceName : String
  needsChange : Bool
  deriving DecidableEq

/-- `Plan`. The map of namespaces is a list of its entries. -/
structure Plan where
  namespaces : List (String × NamespacePlanData) := []
  shards : List ShardPlan := []
  deriving DecidableEq

structure ExecutionTarget where
  deployment : String
  target : String
  deriving DecidableEq

def Plan.sortedNamespaces (p : Plan) : List (String × NamespacePlanData) :=
  p.namespaces.insertionSort fun a b => ¬ b.1 < a.1

def Plan.flatDDLChanges (p : Plan) : List TableChange :=
  p.sortedNamespaces.flatMap fun (k, d) => d.tables.map fun tc =>
    if tc.namespaceName = "" then { tc with namespaceName := k } else tc

def Plan.vschemaFinalizerNamespaces (p : Plan) : List String :=
  (p.sortedNamespaces.filter (·.2.vschema ≠ "")).map (·.1)

/-- One entry of `changingShardsByNamespace`. -/
def Plan.changingShards (p : Plan) (namespaceName : String) : List ShardPlan :=
  (p.shards.filter fun s => s.needsChange && s.namespaceName = namespaceName).insertionSort
    fun a b => ¬ b.shard < a.shard

/-! ## Operation keys -/

def applyOperationKeyMaxLen : Nat := 255

def shardOperationKey (namespaceName shard table : String) : String :=
  namespaceName ++ "/" ++ shard ++ "/" ++ table

def finalizerOperationKey (namespaceName : String) : String := namespaceName ++ "/" ++ "group_finalizer"

def validateOperationKeyPart (label value : String) : Except StoreError Unit :=
  if '/' ∈ value.toList then
    .error ⟨"operation key " ++ label ++ " component " ++ value ++ " contains reserved delimiter /",
      .unnamed⟩
  else .ok ()

def validateShardOperationKeyParts (namespaceName shard table : String) : Except StoreError Unit := do
  validateOperationKeyPart "namespace" namespaceName
  validateOperationKeyPart "shard" shard
  validateOperationKeyPart "table" table

def checkOperationKeyLength (key what : String) : Except StoreError Unit :=
  if applyOperationKeyMaxLen < key.utf8ByteSize then
    .error ⟨"operation key for " ++ what ++ " exceeds 255 characters", .unnamed⟩
  else .ok ()

/-! ## Groups -/

structure RolloutPolicy where
  cutoverPolicy : CutoverPolicy
  onFailure : OnFailure
  now : Nat := 0
  deriving DecidableEq

def newPendingApplyOperation (r : RolloutPolicy) (target : ExecutionTarget) (operationKey : String) :
    ApplyOperation :=
  { deployment := target.deployment, operationKey, operationKind := .work, target := target.target
    state := .pending, cutoverPolicy := r.cutoverPolicy, onFailure := r.onFailure
    createdAt := r.now, updatedAt := r.now }

def newFinalizerOperation (r : RolloutPolicy) (target : ExecutionTarget) (namespaceName : String) :
    ApplyOperation :=
  { newPendingApplyOperation r target (finalizerOperationKey namespaceName) with
    operationKind := .groupFinalizer }

/-- `buildApplyTask`; the identifiers are drawn at the end. -/
def buildApplyTask (r : RolloutPolicy) (shard : String) (change : TableChange) : Task :=
  { namespaceName := change.namespaceName, tableName := change.table, shard, ddl := change.ddl
    ddlAction := change.operation, createdAt := r.now, updatedAt := r.now }

/-- The lookup in `groupsByTargetAndKey` and what follows it: the task joins the group of its deployment
and key, or opens one. Finalizers are not in the map. -/
def addShardTask (operation : ApplyOperation) (task : Task) :
    List ApplyOperationWithTasks → List ApplyOperationWithTasks
  | [] => [{ operation, tasks := [task] }]
  | g :: gs =>
    if g.operation.operationKind = .work ∧ g.operation.deployment = operation.deployment ∧
        g.operation.operationKey = operation.operationKey then
      { g with tasks := g.tasks ++ [task] } :: gs
    else g :: addShardTask operation task gs

def addShardOperations (r : RolloutPolicy) (target : ExecutionTarget) :
    List (TableChange × ShardPlan) → List ApplyOperationWithTasks →
      Except StoreError (List ApplyOperationWithTasks)
  | [], groups => .ok groups
  | (change, shard) :: rest, groups => do
    validateShardOperationKeyParts change.namespaceName shard.shard change.table
    let key := shardOperationKey change.namespaceName shard.shard change.table
    checkOperationKeyLength key ("namespace " ++ change.namespaceName ++ " shard " ++ shard.shard ++
      " table " ++ change.table)
    addShardOperations r target rest
      (addShardTask (newPendingApplyOperation r target key) (buildApplyTask r shard.shard change) groups)

def addFinalizers (r : RolloutPolicy) (target : ExecutionTarget) :
    List String → List ApplyOperationWithTasks → Except StoreError (List ApplyOperationWithTasks)
  | [], groups => .ok groups
  | namespaceName :: rest, groups => do
    validateOperationKeyPart "namespace" namespaceName
    checkOperationKeyLength (finalizerOperationKey namespaceName)
      ("namespace " ++ namespaceName ++ " finalizer")
    addFinalizers r target rest
      (groups ++ [{ operation := newFinalizerOperation r target namespaceName, tasks := [] }])

def Plan.shardChanges (p : Plan) : List (TableChange × ShardPlan) :=
  p.flatDDLChanges.flatMap fun c => (p.changingShards c.namespaceName).map fun s => (c, s)

/-- The target loop of `buildShardedApplyOperationGroups`. -/
def buildShardedGroups (p : Plan) (r : RolloutPolicy) : List ExecutionTarget → List ApplyOperationWithTasks →
      Except StoreError (List ApplyOperationWithTasks)
  | [], groups => .ok groups
  | target :: targets, groups => do
    let groups ← addShardOperations r target p.shardChanges groups
    let groups ← addFinalizers r target p.vschemaFinalizerNamespaces groups
    buildShardedGroups p r targets groups

/-- `canBuildShardedOperationGroups`. -/
def Plan.canBuildSharded (p : Plan) : Bool :=
  !p.shards.isEmpty && !p.flatDDLChanges.isEmpty && p.shards.any (·.needsChange) &&
    p.flatDDLChanges.all fun c =>
      c.ddl ≠ "" && c.table ≠ "" && !(p.changingShards c.namespaceName).isEmpty

def buildPlainGroups (p : Plan) (r : RolloutPolicy) (targets : List ExecutionTarget) :
    List ApplyOperationWithTasks :=
  targets.map fun target =>
    { operation := newPendingApplyOperation r target ""
      tasks := p.flatDDLChanges.map (buildApplyTask r "")
      allowTaskless := targets.length = 1 && p.flatDDLChanges.isEmpty &&
        !p.vschemaFinalizerNamespaces.isEmpty }

/-- Fresh identifiers for the tasks of one group, from the `n`-th on. -/
def nameTasks (uuid : Nat → String) : Nat → List Task → List Task
  | _, [] => []
  | n, t :: ts => { t with taskIdentifier := "task-" ++ uuid n } :: nameTasks uuid (n + 1) ts

def nameGroups (uuid : Nat → String) : Nat → List ApplyOperationWithTasks → List ApplyOperationWithTasks
  | _, [] => []
  | n, g :: gs => { g with tasks := nameTasks uuid n g.tasks } :: nameGroups uuid (n + g.tasks.length) gs

/-- `buildApplyOperationGroups`, over the UUIDs it draws. -/
def buildApplyOperationGroups (p : Plan) (targets : List ExecutionTarget) (r : RolloutPolicy)
    (shardedFanoutSupported : Bool) (uuid : Nat → String) : Except StoreError (List ApplyOperationWithTasks) :=
  if shardedFanoutSupported && p.canBuildSharded then do
    let groups ← buildShardedGroups p r targets []
    .ok (nameGroups uuid 0 groups)
  else .ok (nameGroups uuid 0 (buildPlainGroups p r targets))

/-! ## The shape of the result -/

inductive InBlocks : List String → List ApplyOperation → Prop
  | nil : InBlocks [] []
  | cons {d : String} {ds : List String} {block rest : List ApplyOperation}
      (hblock : ∀ o ∈ block, o.deployment = d) (hrest : InBlocks ds rest) :
      InBlocks (d :: ds) (block ++ rest)

/-- The operations of each target in turn: its work, and after it one finalizer for each namespace that changes its
VSchema. -/
inductive LaidOut (p : Plan) (r : RolloutPolicy) (sharded : Bool) : List ExecutionTarget → List ApplyOperation → Prop
  | nil : LaidOut p r sharded [] []
  | cons {t : ExecutionTarget} {ts : List ExecutionTarget} {work rest : List ApplyOperation}
      (hwork : ∀ o ∈ work, o.deployment = t.deployment ∧ o.operationKind = .work)
      (hrest : LaidOut p r sharded ts rest) :
      LaidOut p r sharded (t :: ts)
        (work ++ (if sharded then p.vschemaFinalizerNamespaces.map (newFinalizerOperation r t) else []) ++ rest)

structure PlannedOperations (ops : List ApplyOperation) : Prop where
  policies : ∀ o ∈ ops, ∀ o' ∈ ops, o.cutoverPolicy = o'.cutoverPolicy ∧ o.onFailure = o'.onFailure
  blocks : ∃ ds : List String, ds.Nodup ∧ InBlocks ds ops
  finalizers : ∀ f ∈ ops, f.operationKind = .groupFinalizer →
    (∀ o ∈ ops, o.deployment = f.deployment) ∨
      ∃ g ∈ ops, g.operationKind = .work ∧ g.deployment = f.deployment ∧
        keyNamespace g.operationKey = keyNamespace f.operationKey

def operationsOf (groups : List ApplyOperationWithTasks) : List ApplyOperation := groups.map (·.operation)

section
variable {p : Plan} {r : RolloutPolicy} {target : ExecutionTarget} {targets : List ExecutionTarget}
  {groups groups' : List ApplyOperationWithTasks}

theorem keyNamespace_append {namespaceName rest : String} (h : '/' ∉ namespaceName.toList) :
    keyNamespace (namespaceName ++ "/" ++ rest) = namespaceName.toList := by
  have hpos : ∀ c ∈ namespaceName.toList, decide (c ≠ '/') = true := by
    intro c hc
    rw [decide_eq_true_eq]
    rintro rfl
    exact h hc
  rw [keyNamespace, String.toList_append, String.toList_append, List.append_assoc,
    List.takeWhile_append_of_pos hpos]
  simp

theorem keyNamespace_shardOperationKey {namespaceName shard table : String} (h : '/' ∉ namespaceName.toList) :
    keyNamespace (shardOperationKey namespaceName shard table) = namespaceName.toList := by
  rw [shardOperationKey, String.append_assoc, String.append_assoc, keyNamespace_append h]

theorem validateOperationKeyPart_ok {label value : String} {u : Unit}
    (h : validateOperationKeyPart label value = .ok u) : '/' ∉ value.toList := by
  unfold validateOperationKeyPart at h
  split at h
  · cases h
  · assumption

@[simp] theorem operationsOf_nameGroups (uuid : Nat → String) (n : Nat) :
    operationsOf (nameGroups uuid n groups) = operationsOf groups := by
  induction groups generalizing n with
  | nil => rfl
  | cons g gs ih => exact congrArg (g.operation :: ·) (ih _)

theorem operationsOf_addShardTask (groups : List ApplyOperationWithTasks) (operation : ApplyOperation)
    (task : Task) : (operationsOf (addShardTask operation task groups) = operationsOf groups ∧
      ∃ g ∈ operationsOf groups, g.operationKind = .work ∧ g.deployment = operation.deployment ∧
        g.operationKey = operation.operationKey) ∨
    operationsOf (addShardTask operation task groups) = operationsOf groups ++ [operation] ∧
      ∀ g ∈ operationsOf groups, ¬ (g.operationKind = .work ∧ g.deployment = operation.deployment ∧
        g.operationKey = operation.operationKey) := by
  induction groups with
  | nil => exact .inr ⟨rfl, List.forall_mem_nil _⟩
  | cons g gs ih =>
    unfold addShardTask
    split
    · next h => exact .inl ⟨rfl, g.operation, .head _, h⟩
    · next hno =>
      rcases ih with ⟨he, g', hg', h⟩ | ⟨he, hall⟩
      · exact .inl ⟨congrArg (g.operation :: ·) he, g', .tail _ hg', h⟩
      · exact .inr ⟨congrArg (g.operation :: ·) he, List.forall_mem_cons.2 ⟨hno, hall⟩⟩

theorem operationsOf_addShardOperations {changes : List (TableChange × ShardPlan)}
    (h : addShardOperations r target changes groups = .ok groups') :
    ∃ new, operationsOf groups' = operationsOf groups ++ new ∧
      (∀ o ∈ new, ∃ c ∈ changes, o = newPendingApplyOperation r target
        (shardOperationKey c.1.namespaceName c.2.shard c.1.table)) ∧
      ∀ c ∈ changes, '/' ∉ c.1.namespaceName.toList ∧ ∃ g ∈ operationsOf groups',
        g.operationKind = .work ∧ g.deployment = target.deployment ∧
        g.operationKey = shardOperationKey c.1.namespaceName c.2.shard c.1.table := by
  induction changes generalizing groups with
  | nil =>
    cases h
    exact ⟨[], (List.append_nil _).symm, List.forall_mem_nil _, List.forall_mem_nil _⟩
  | cons c rest ih =>
    obtain ⟨change, shard⟩ := c
    obtain ⟨_, hvalid, h⟩ := bind_eq_ok h
    obtain ⟨_, -, h⟩ := bind_eq_ok h
    obtain ⟨_, hns, -⟩ := bind_eq_ok hvalid
    obtain ⟨new, hops, hnew, hfound⟩ := ih h
    have hslash := validateOperationKeyPart_ok hns
    rcases operationsOf_addShardTask groups
      (newPendingApplyOperation r target
        (shardOperationKey change.namespaceName shard.shard change.table))
      (buildApplyTask r shard.shard change) with ⟨he, g, hg, hkind, hdep, hkey⟩ | ⟨he, -⟩
    · rw [he] at hops
      refine ⟨new, hops, fun o ho => (hnew o ho).imp fun c hc => ⟨.tail _ hc.1, hc.2⟩,
        List.forall_mem_cons.2 ⟨⟨hslash, g, ?_, hkind, hdep, hkey⟩, hfound⟩⟩
      rw [hops]
      exact List.mem_append_left _ hg
    · rw [he, List.append_assoc] at hops
      have hmem : newPendingApplyOperation r target
          (shardOperationKey change.namespaceName shard.shard change.table) ∈ operationsOf groups' := by
        rw [hops]
        exact List.mem_append_right _ (.head _)
      refine ⟨_, hops, ?_, List.forall_mem_cons.2 ⟨⟨hslash, _, hmem, rfl, rfl, rfl⟩, hfound⟩⟩
      · intro o ho
        rcases List.mem_cons.1 ho with rfl | ho
        · exact ⟨_, .head _, rfl⟩
        · exact (hnew o ho).imp fun c hc => ⟨.tail _ hc.1, hc.2⟩

theorem operationsOf_addFinalizers {namespaces : List String}
    (h : addFinalizers r target namespaces groups = .ok groups') :
    operationsOf groups' = operationsOf groups ++ namespaces.map (newFinalizerOperation r target) ∧
      ∀ n ∈ namespaces, '/' ∉ n.toList := by
  induction namespaces generalizing groups with
  | nil => cases h; exact ⟨(List.append_nil _).symm, List.forall_mem_nil _⟩
  | cons n rest ih =>
    obtain ⟨_, hvalid, h⟩ := bind_eq_ok h
    obtain ⟨_, -, h⟩ := bind_eq_ok h
    obtain ⟨hops, hslash⟩ := ih h
    refine ⟨?_, List.forall_mem_cons.2 ⟨validateOperationKeyPart_ok hvalid, hslash⟩⟩
    rw [hops, operationsOf, List.map_append, List.append_assoc]
    rfl

theorem InBlocks.deployment_mem {ds : List String} {ops : List ApplyOperation} (h : InBlocks ds ops) :
    ∀ o ∈ ops, o.deployment ∈ ds := by
  induction h with
  | nil => exact List.forall_mem_nil _
  | cons hblock _ ih =>
    intro o ho
    rcases List.mem_append.1 ho with ho | ho
    · rw [hblock o ho]; exact .head _
    · exact .tail _ (ih o ho)

def ShardedOperation (p : Plan) (r : RolloutPolicy) (o : ApplyOperation) : Prop :=
  o.cutoverPolicy = r.cutoverPolicy ∧ o.onFailure = r.onFailure ∧
    if o.operationKind = .groupFinalizer then
      ∃ n ∈ p.vschemaFinalizerNamespaces, '/' ∉ n.toList ∧ o.operationKey = finalizerOperationKey n
    else ∃ n shard table, '/' ∉ n.toList ∧ o.operationKey = shardOperationKey n shard table

theorem operationsOf_buildShardedGroups (h : buildShardedGroups p r targets groups = .ok groups') :
    ∃ new, operationsOf groups' = operationsOf groups ++ new ∧
      LaidOut p r true targets new ∧ (∀ o ∈ new, ShardedOperation p r o) ∧
      ∀ t ∈ targets, ∀ c ∈ p.shardChanges, '/' ∉ c.1.namespaceName.toList ∧
        ∃ g ∈ operationsOf groups', g.operationKind = .work ∧ g.deployment = t.deployment ∧
          g.operationKey = shardOperationKey c.1.namespaceName c.2.shard c.1.table := by
  induction targets generalizing groups with
  | nil =>
    cases h
    exact ⟨[], (List.append_nil _).symm, .nil, List.forall_mem_nil _, List.forall_mem_nil _⟩
  | cons t ts ih =>
    obtain ⟨g₁, h₁, h⟩ := bind_eq_ok h
    obtain ⟨g₂, h₂, hrest⟩ := bind_eq_ok h
    obtain ⟨new₁, hops₁, hnew₁, hfound⟩ := operationsOf_addShardOperations h₁
    obtain ⟨hops₂, hslash⟩ := operationsOf_addFinalizers h₂
    obtain ⟨new₃, hops₃, hblocks, hsharded, hfound₃⟩ := ih hrest
    rw [hops₂, hops₁, List.append_assoc (operationsOf groups)] at hops₃
    refine ⟨(new₁ ++ p.vschemaFinalizerNamespaces.map (newFinalizerOperation r t)) ++ new₃,
      by rw [hops₃, List.append_assoc], .cons (fun o ho => ?_) hblocks, ?_, List.forall_mem_cons.2 ⟨?_, hfound₃⟩⟩
    · obtain ⟨c, -, rfl⟩ := hnew₁ o ho
      exact ⟨rfl, rfl⟩
    · intro o ho
      rcases List.mem_append.1 ho with ho | ho
      · rcases List.mem_append.1 ho with ho | ho
        · obtain ⟨c, hc, rfl⟩ := hnew₁ o ho
          exact ⟨rfl, rfl, _, _, _, (hfound c hc).1, rfl⟩
        · obtain ⟨n, hn, rfl⟩ := List.mem_map.1 ho
          exact ⟨rfl, rfl, n, hn, hslash n hn, rfl⟩
      · exact hsharded o ho
    · intro c hc
      obtain ⟨hns, g, hg, hkind, hdep, hkey⟩ := hfound c hc
      refine ⟨hns, g, ?_, hkind, hdep, hkey⟩
      simp only [hops₃, hops₁, List.mem_append] at hg ⊢
      rcases hg with hg | hg
      · exact .inl (.inl hg)
      · exact .inl (.inr (.inl hg))

theorem LaidOut.inBlocks {sharded : Bool} {ops : List ApplyOperation} (h : LaidOut p r sharded targets ops) :
    InBlocks (targets.map (·.deployment)) ops := by
  induction h with
  | nil => exact .nil
  | cons hwork _ ih =>
    refine .cons (fun o ho => ?_) ih
    rcases List.mem_append.1 ho with ho | ho
    · exact (hwork o ho).1
    · split at ho
      · obtain ⟨n, -, rfl⟩ := List.mem_map.1 ho
        rfl
      · cases ho

theorem laidOut_buildPlainGroups (targets' : List ExecutionTarget) :
    LaidOut p r false targets' (targets'.map fun t => newPendingApplyOperation r t "") := by
  induction targets' with
  | nil => exact .nil
  | cons t ts ih =>
    refine @LaidOut.cons _ _ _ _ _ [newPendingApplyOperation r t ""] _ (fun o ho => ?_) ih
    rw [List.mem_singleton.1 ho]
    exact ⟨rfl, rfl⟩

end

/-! ## Planned operations -/

def Plan.covered (p : Plan) (targets : List ExecutionTarget) (shardedFanoutSupported : Bool) : Bool :=
  targets.length ≤ 1 || !(shardedFanoutSupported && p.canBuildSharded) ||
    p.vschemaFinalizerNamespaces.all fun n => p.flatDDLChanges.any (·.namespaceName = n)

section
variable {p : Plan} {r : RolloutPolicy} {targets : List ExecutionTarget}
  {groups : List ApplyOperationWithTasks} {shardedFanoutSupported : Bool} {uuid : Nat → String}

theorem Plan.exists_shardChange (h : p.canBuildSharded = true) {c : TableChange}
    (hc : c ∈ p.flatDDLChanges) : ∃ s, (c, s) ∈ p.shardChanges := by
  simp only [canBuildSharded, Bool.and_eq_true, List.all_eq_true] at h
  have hshards := (h.2 c hc).2
  cases hs : p.changingShards c.namespaceName with
  | nil => rw [hs] at hshards; cases hshards
  | cons s ss =>
    refine ⟨s, List.mem_flatMap.2 ⟨c, hc, List.mem_map.2 ⟨s, ?_, rfl⟩⟩⟩
    rw [hs]
    exact .head _

theorem planned_buildPlainGroups (hnd : (targets.map (·.deployment)).Nodup) :
    PlannedOperations (operationsOf (buildPlainGroups p r targets)) := by
  have hops : operationsOf (buildPlainGroups p r targets) =
      targets.map fun t => newPendingApplyOperation r t "" := by
    rw [operationsOf, buildPlainGroups, List.map_map]
    rfl
  have hplain : ∀ o ∈ operationsOf (buildPlainGroups p r targets), ∃ t,
      o = newPendingApplyOperation r t "" := by
    intro o ho
    rw [hops] at ho
    obtain ⟨t, -, rfl⟩ := List.mem_map.1 ho
    exact ⟨t, rfl⟩
  refine ⟨fun o ho o' ho' => ?_, ⟨_, hnd, hops ▸ (laidOut_buildPlainGroups (p := p) targets).inBlocks⟩, fun f hf hk => ?_⟩
  · obtain ⟨t, rfl⟩ := hplain o ho
    obtain ⟨t', rfl⟩ := hplain o' ho'
    exact ⟨rfl, rfl⟩
  · obtain ⟨t, rfl⟩ := hplain f hf
    cases hk

theorem planned_buildApplyOperationGroups (hnd : (targets.map (·.deployment)).Nodup)
    (hcov : p.covered targets shardedFanoutSupported = true)
    (h : buildApplyOperationGroups p targets r shardedFanoutSupported uuid = .ok groups) :
    PlannedOperations (operationsOf groups) := by
  unfold buildApplyOperationGroups at h
  split at h
  · next hsharded =>
    obtain ⟨gs, hgs, h⟩ := bind_eq_ok h
    cases h
    rw [operationsOf_nameGroups]
    obtain ⟨new, hops, hblocks, hnew, hfound⟩ := operationsOf_buildShardedGroups hgs
    subst hops
    refine ⟨fun o ho o' ho' => ?_, ⟨_, hnd, hblocks.inBlocks⟩, fun f hf hk => ?_⟩
    · have h₁ := hnew o ho
      have h₂ := hnew o' ho'
      exact ⟨h₁.1.trans h₂.1.symm, h₁.2.1.trans h₂.2.1.symm⟩
    · obtain ⟨-, -, hfinal⟩ := hnew f hf
      rw [if_pos hk] at hfinal
      obtain ⟨n, hn, hslash, hkey⟩ := hfinal
      simp only [Plan.covered, hsharded, Bool.not_true, Bool.or_false, Bool.or_eq_true,
        decide_eq_true_eq, List.all_eq_true, List.any_eq_true] at hcov
      obtain ⟨t, ht, hft⟩ := List.mem_map.1 (hblocks.inBlocks.deployment_mem f hf)
      rcases hcov with hone | hcov
      -- with one target every operation is on it
      · refine .inl fun o ho => ?_
        obtain ⟨t', ht', hot⟩ := List.mem_map.1 (hblocks.inBlocks.deployment_mem o ho)
        have : t' = t := by
          match targets, hone, ht, ht' with
          | [_], _, ht, ht' => rw [List.mem_singleton.1 ht, List.mem_singleton.1 ht']
        rw [← hot, ← hft, this]
      -- the change of the namespace gives work on the finalizer's target
      · obtain ⟨c, hc, rfl⟩ := hcov n hn
        obtain ⟨s, hs⟩ := Plan.exists_shardChange (Bool.and_eq_true_iff.1 hsharded).2 hc
        obtain ⟨-, g, hg, hkind, hdep, hgkey⟩ := hfound t ht (c, s) hs
        refine .inr ⟨g, hg, hkind, hdep.trans hft, ?_⟩
        rw [hgkey, hkey, finalizerOperationKey, keyNamespace_append hslash,
          keyNamespace_shardOperationKey hslash]
  · cases h
    rw [operationsOf_nameGroups]
    exact planned_buildPlainGroups hnd

/-! ## The keys of the operations -/

def ApplyOperation.rowKey (o : ApplyOperation) : String × OperationKind × String :=
  (o.deployment, o.operationKind, o.operationKey)

theorem finalizerOperationKey_injective {n n' : String} (h : finalizerOperationKey n = finalizerOperationKey n') :
    n = n' := by
  unfold finalizerOperationKey at h
  simpa [← String.toList_inj] using h

theorem shardOperationKey_ne_finalizer {n shard table n' : String} (hn : '/' ∉ n.toList) (hn' : '/' ∉ n'.toList) :
    shardOperationKey n shard table ≠ finalizerOperationKey n' := by
  intro h
  have hsame : n = n' := by
    rw [← String.toList_inj, ← keyNamespace_shardOperationKey hn, h, finalizerOperationKey, keyNamespace_append hn']
  have hlist := congrArg String.toList h
  simp only [shardOperationKey, finalizerOperationKey, hsame, String.toList_append, List.append_assoc,
    List.append_cancel_left_eq] at hlist
  have hslash : '/' ∈ "group_finalizer".toList := by
    rw [← hlist]
    simp
  exact absurd hslash (by decide)

/-- A work key has one more delimiter than the key of a finalizer. -/
theorem ShardedOperation.kind_eq {o o' : ApplyOperation} (ho : ShardedOperation p r o)
    (ho' : ShardedOperation p r o') (hkey : o.operationKey = o'.operationKey) : o.operationKind = o'.operationKind := by
  obtain ⟨-, -, ho⟩ := ho
  obtain ⟨-, -, ho'⟩ := ho'
  cases hk : o.operationKind <;> cases hk' : o'.operationKind <;> grind [shardOperationKey_ne_finalizer]

theorem nodup_addShardOperations {target : ExecutionTarget} {changes : List (TableChange × ShardPlan)}
    {gs gs' : List ApplyOperationWithTasks} (h : addShardOperations r target changes gs = .ok gs')
    (hgs : ((operationsOf gs).map ApplyOperation.rowKey).Nodup) :
    ((operationsOf gs').map ApplyOperation.rowKey).Nodup := by
  induction changes generalizing gs with
  | nil => cases h; exact hgs
  | cons c rest ih =>
    obtain ⟨_, -, h⟩ := bind_eq_ok h
    obtain ⟨_, -, h⟩ := bind_eq_ok h
    refine ih h ?_
    rcases operationsOf_addShardTask gs _ _ with ⟨he, -⟩ | ⟨he, hnew⟩
    · rwa [he]
    · rw [he, List.map_append]
      refine List.nodup_append.2 ⟨hgs, List.nodup_singleton _, ?_⟩
      grind [ApplyOperation.rowKey, newPendingApplyOperation]

theorem nodup_buildShardedGroups {gs gs' : List ApplyOperationWithTasks}
    (h : buildShardedGroups p r targets gs = .ok gs') (hns : p.vschemaFinalizerNamespaces.Nodup) (hnd : (targets.map (·.deployment)).Nodup)
    (hfresh : ∀ o ∈ operationsOf gs, o.deployment ∉ targets.map (·.deployment))
    (hgs : ((operationsOf gs).map ApplyOperation.rowKey).Nodup) :
    ((operationsOf gs').map ApplyOperation.rowKey).Nodup := by
  induction targets generalizing gs with
  | nil => cases h; exact hgs
  | cons t ts ih =>
    obtain ⟨g₁, h₁, h⟩ := bind_eq_ok h
    obtain ⟨g₂, h₂, hrest⟩ := bind_eq_ok h
    obtain ⟨new, hops₁, hnew, -⟩ := operationsOf_addShardOperations h₁
    obtain ⟨hops₂, -⟩ := operationsOf_addFinalizers h₂
    rw [List.map_cons, List.nodup_cons] at hnd
    -- the groups so far are of other deployments, and those of this target are its work
    refine ih hrest hnd.2 ?_ ?_
    · grind [newPendingApplyOperation, newFinalizerOperation]
    · rw [hops₂, List.map_append, List.map_map]
      refine List.nodup_append.2 ⟨nodup_addShardOperations h₁ hgs, ?_, ?_⟩
      · exact hns.map fun n n' hnn => finalizerOperationKey_injective (congrArg (·.2.2) hnn)
      · grind [ApplyOperation.rowKey, newPendingApplyOperation, newFinalizerOperation]

theorem Plan.vschemaFinalizerNamespaces_nodup (h : (p.namespaces.map (·.1)).Nodup) :
    p.vschemaFinalizerNamespaces.Nodup := by
  have hsorted : (p.sortedNamespaces.map (·.1)).Nodup :=
    ((List.perm_insertionSort _ _).map _).nodup_iff.2 h
  exact hsorted.sublist (List.filter_sublist.map _)

end

def sampleTargets : List ExecutionTarget := [⟨"eu", "eu-db"⟩, ⟨"us", "us-db"⟩]

def sampleGroups (p : Plan) : List ApplyOperationWithTasks :=
  match buildApplyOperationGroups p sampleTargets ⟨.rolling, .halt, 0⟩ true toString with
  | .ok groups => groups
  | .error _ => []

def coveredPlan : Plan :=
  { namespaces := [("commerce", { tables := [{ table := "orders", ddl := "ALTER" }], vschema := "new" })]
    shards := [⟨"-80", "commerce", true⟩] }

end SchemaBot
