import SchemaBot.Webhook.Hub

/-!
# The gate on other checks

Before an apply runs, `enforcePassingChecks` asks GitHub for the commit statuses and the check runs of the head
commit.
-/

namespace SchemaBot.Webhook

/-! ## What GitHub reports -/

structure CommitStatus where
  context : String
  state : String
  deriving DecidableEq

structure ReportedRun where
  name : String
  status : String
  conclusion : String := ""
  appSlug : String := ""
  deriving DecidableEq

structure CommitChecks where
  statuses : List (Except String (List CommitStatus)) := []
  runs : List (Except String (List ReportedRun)) := []

structure CheckStatusRow where
  name : String
  status : String
  conclusion : String
  appSlug : String := ""
  deriving DecidableEq

structure PRCheckStatus extends CheckStatusRow where
  isSchemaBot : Bool
  deriving DecidableEq

def toUpper (s : String) : String := String.ofList (s.toList.map Char.toUpper)

def toLower (s : String) : String := String.ofList (s.toList.map Char.toLower)

def mapLegacyStatusState (state : String) : String × String :=
  let upper := toUpper state
  if upper = "PENDING" ∨ upper = "EXPECTED" then ("in_progress", "")
  else if upper = "SUCCESS" then ("completed", "success")
  else if upper = "FAILURE" then ("completed", "failure")
  else if upper = "ERROR" then ("completed", "error")
  else ("completed", toLower state)

def readPages {α β : Type} (row : α → β) : List (Except String (List α)) → List β → Except String (List β)
  | [], out => .ok out
  | .error e :: _, _ => .error e
  | .ok page :: rest, out => readPages row rest (out ++ page.map row)

def CommitStatus.row (s : CommitStatus) : CheckStatusRow :=
  let (status, conclusion) := mapLegacyStatusState s.state
  { name := s.context, status := status, conclusion := conclusion }

def ReportedRun.row (r : ReportedRun) : CheckStatusRow :=
  { name := r.name, status := toLower r.status, conclusion := toLower r.conclusion, appSlug := r.appSlug }

def CommitChecks.fetchCommitStatusRows (gh : CommitChecks) : Except String (List CheckStatusRow) :=
  readPages CommitStatus.row gh.statuses []

def CommitChecks.fetchCheckRunRows (gh : CommitChecks) : Except String (List CheckStatusRow) :=
  readPages ReportedRun.row gh.runs []

def checkRowsContainRequiredChecks (rows : List CheckStatusRow) (requiredChecks : List String) : Bool :=
  requiredChecks.all fun required => rows.any (·.name = required)

def CommitChecks.fetchPRCheckStatuses (gh : CommitChecks) (requiredChecks : List String) :
    Except String (List CheckStatusRow) := do
  let statusRows ← gh.fetchCommitStatusRows
  if requiredChecks ≠ [] ∧ checkRowsContainRequiredChecks statusRows requiredChecks then pure statusRows
  else do
    let checkRows ← gh.fetchCheckRunRows
    pure (statusRows ++ checkRows)

def ServerConfig.classify (cfg : ServerConfig) (row : CheckStatusRow) : PRCheckStatus :=
  { row with isSchemaBot := cfg.isTrustedCheckAppSlug row.appSlug }

def CommitChecks.getPRCheckStatuses (gh : CommitChecks) (cfg : ServerConfig) :
    Except String (List PRCheckStatus) := do
  let rows ← gh.fetchPRCheckStatuses cfg.requiredChecks
  pure (rows.map cfg.classify)

/-! ## The filters -/

structure BlockingCheck where
  name : String
  state : String
  deriving DecidableEq

def isPassingCheckConclusion (conclusion : String) : Bool :=
  conclusion = "success" || conclusion = "neutral" || conclusion = "skipped"

section
variable (cfg : ServerConfig) (statuses : List PRCheckStatus)

def statusesContainRequiredCheck : Bool :=
  !cfg.requiredChecks.isEmpty && statuses.any fun s => !s.isSchemaBot && cfg.isCheckRequired s.name

def filterNonSchemaBotChecks (state : PRCheckStatus → Option String) : List BlockingCheck :=
  let filterRequiredChecks := statusesContainRequiredCheck cfg statuses
  statuses.filterMap fun s =>
    if s.isSchemaBot then none
    else if filterRequiredChecks && !cfg.isCheckRequired s.name then none
    else (state s).map fun st => ⟨s.name, st⟩

def filterNonPassingNonSchemaBotChecks : List BlockingCheck :=
  filterNonSchemaBotChecks cfg statuses fun s =>
    if s.status ≠ "completed" then none
    else if isPassingCheckConclusion s.conclusion then none
    else some s.conclusion

def filterInProgressNonSchemaBotChecks : List BlockingCheck :=
  filterNonSchemaBotChecks cfg statuses fun s =>
    if s.status = "in_progress" ∨ s.status = "queued" ∨ s.status = "pending" then some s.status else none

def missingRequiredChecks : List BlockingCheck :=
  (cfg.requiredChecks.filter fun name => !statuses.any (·.name = name)).map fun name => ⟨name, "not reported"⟩

end

inductive GateBlock
  | checkStatusError (err : String)
  | nonPassingChecks (notPassing : List BlockingCheck)
  | inProgressChecks (inProgress notReported : List BlockingCheck)
  deriving DecidableEq

/-- The verdict of `enforcePassingChecks` on the rows. -/
def judgeChecks (cfg : ServerConfig) (statuses : List PRCheckStatus) : Option GateBlock :=
  let notPassing := filterNonPassingNonSchemaBotChecks cfg statuses
  let inProgress := filterInProgressNonSchemaBotChecks cfg statuses
  let notReported := missingRequiredChecks cfg statuses
  if notPassing ≠ [] then some (.nonPassingChecks notPassing)
  else if inProgress ≠ [] ∨ notReported ≠ [] then some (.inProgressChecks inProgress notReported)
  else none

/-- `enforcePassingChecks`: why the apply is blocked, or `none` where it may proceed. -/
def ServerConfig.enforcePassingChecks (cfg : ServerConfig) (gh : CommitChecks) : Option GateBlock :=
  if !cfg.shouldRequirePassingChecks then none
  else
    match gh.getPRCheckStatuses cfg with
    | .error err => some (.checkStatusError err)
    | .ok statuses => judgeChecks cfg statuses

/-! ## What the verdict says -/

def Relevant (cfg : ServerConfig) (statuses : List PRCheckStatus) (s : PRCheckStatus) : Prop :=
  s.isSchemaBot = false ∧
    ((∃ t ∈ statuses, t.isSchemaBot = false ∧ t.name ∈ cfg.requiredChecks) → s.name ∈ cfg.requiredChecks)

def PRCheckStatus.Blocks (s : PRCheckStatus) : Prop :=
  (s.status = "completed" ∧ isPassingCheckConclusion s.conclusion = false) ∨
    s.status = "in_progress" ∨ s.status = "queued" ∨ s.status = "pending"

structure Verified (cfg : ServerConfig) (statuses : List PRCheckStatus) : Prop where
  passing : ∀ s ∈ statuses, Relevant cfg statuses s → ¬ s.Blocks
  reported : ∀ name ∈ cfg.requiredChecks, ∃ s ∈ statuses, s.name = name

section
variable {cfg : ServerConfig} {statuses : List PRCheckStatus} {s : PRCheckStatus}

theorem statusesContainRequiredCheck_iff : statusesContainRequiredCheck cfg statuses = true ↔
      ∃ t ∈ statuses, t.isSchemaBot = false ∧ t.name ∈ cfg.requiredChecks := by
  unfold statusesContainRequiredCheck ServerConfig.isCheckRequired
  cases h : cfg.requiredChecks with
  | nil | cons first rest => simp

theorem relevant_iff : Relevant cfg statuses s ↔
      ¬ s.isSchemaBot = true ∧
        ¬ (statusesContainRequiredCheck cfg statuses && !cfg.isCheckRequired s.name) = true := by
  rw [Bool.and_eq_true, statusesContainRequiredCheck_iff, Bool.not_eq_true, not_and]
  refine and_congr_right fun _ => forall_congr' fun ⟨t, _, _, ht⟩ => ?_
  have hne : cfg.requiredChecks.isEmpty = false := List.isEmpty_eq_false_iff.2 (List.ne_nil_of_mem ht)
  simp [ServerConfig.isCheckRequired, hne]

theorem filterNonSchemaBotChecks_eq_nil {state : PRCheckStatus → Option String} :
    filterNonSchemaBotChecks cfg statuses state = [] ↔
      ∀ s ∈ statuses, Relevant cfg statuses s → state s = none := by
  unfold filterNonSchemaBotChecks
  rw [List.filterMap_eq_nil_iff]
  refine forall₂_congr fun s _ => ?_
  rw [relevant_iff]
  split
  · next h => exact ⟨fun _ hr => absurd h hr.1, fun _ => rfl⟩
  · next h =>
    split
    · next h' => exact ⟨fun _ hr => absurd h' hr.2, fun _ => rfl⟩
    · next h' => exact Option.map_eq_none_iff.trans ⟨fun hs _ => hs, fun hs => hs ⟨h, h'⟩⟩

theorem missingRequiredChecks_eq_nil :
    missingRequiredChecks cfg statuses = [] ↔ ∀ name ∈ cfg.requiredChecks, ∃ s ∈ statuses, s.name = name := by
  unfold missingRequiredChecks
  simp

theorem not_blocks_iff : ¬ s.Blocks ↔
      (if s.status ≠ "completed" then none
        else if isPassingCheckConclusion s.conclusion then none else some s.conclusion) = none ∧
      (if s.status = "in_progress" ∨ s.status = "queued" ∨ s.status = "pending" then some s.status else none) =
        none := by
  unfold PRCheckStatus.Blocks
  by_cases hc : s.status = "completed"
  · simp
  · simp

theorem judgeChecks_eq_none : judgeChecks cfg statuses = none ↔ Verified cfg statuses := by
  have hpass : filterNonPassingNonSchemaBotChecks cfg statuses = [] ∧
      filterInProgressNonSchemaBotChecks cfg statuses = [] ↔
        ∀ s ∈ statuses, Relevant cfg statuses s → ¬ s.Blocks := by
    unfold filterNonPassingNonSchemaBotChecks filterInProgressNonSchemaBotChecks
    rw [filterNonSchemaBotChecks_eq_nil, filterNonSchemaBotChecks_eq_nil]
    simp only [not_blocks_iff]
    exact ⟨fun h s hs hr => ⟨h.1 s hs hr, h.2 s hs hr⟩,
      fun h => ⟨fun s hs hr => (h s hs hr).1, fun s hs hr => (h s hs hr).2⟩⟩
  unfold judgeChecks
  dsimp only
  split
  · next hne => exact ⟨nofun, fun h => absurd (hpass.2 h.passing).1 hne⟩
  · next hnil =>
    split
    · next hne =>
      refine ⟨nofun, fun h => absurd hne ?_⟩
      rw [not_or, not_not, not_not]
      exact ⟨(hpass.2 h.passing).2, missingRequiredChecks_eq_nil.2 h.reported⟩
    · next hend =>
      rw [not_or, not_not, not_not] at hend
      exact ⟨fun _ => ⟨hpass.1 ⟨not_not.1 hnil, hend.1⟩, missingRequiredChecks_eq_nil.1 hend.2⟩, fun _ => rfl⟩

end

/-! ## Check runs that are not read -/

section
variable {cfg : ServerConfig} {gh : CommitChecks} {statusRows runRows rows : List CheckStatusRow}
  {requiredChecks : List String}

theorem mem_readPages {α β : Type} {row : α → β} {pages : List (Except String (List α))} {out rows : List β}
    (h : readPages row pages out = .ok rows) {b : β} (hb : b ∈ rows) : b ∈ out ∨ ∃ a, b = row a := by
  induction pages generalizing out with
  | nil =>
    obtain rfl : out = rows := by simpa only [readPages, Except.ok.injEq] using h
    exact .inl hb
  | cons page rest ih =>
    cases page with
    | error e => cases h
    | ok page =>
      rcases ih h with hout | hrow
      · rcases List.mem_append.1 hout with hold | hnew
        · exact .inl hold
        · obtain ⟨a, -, rfl⟩ := List.mem_map.1 hnew
          exact .inr ⟨a, rfl⟩
      · exact .inr hrow

theorem classify_commitStatus (h : gh.fetchCommitStatusRows = .ok statusRows) {row : CheckStatusRow}
    (hrow : row ∈ statusRows) : (cfg.classify row).isSchemaBot = false := by
  rcases mem_readPages h hrow with hnil | ⟨s, rfl⟩
  · cases hnil
  · rfl

theorem exists_of_checkRowsContainRequiredChecks
    (h : checkRowsContainRequiredChecks statusRows requiredChecks = true) {name : String}
    (hname : name ∈ requiredChecks) : ∃ row ∈ statusRows, row.name = name := by
  simpa using List.all_eq_true.1 h name hname

theorem judge_skipped (hstatus : gh.fetchCommitStatusRows = .ok statusRows) (hne : cfg.requiredChecks ≠ [])
    (hall : checkRowsContainRequiredChecks statusRows cfg.requiredChecks = true)
    (hv : Verified cfg (statusRows.map cfg.classify))
    (hruns : ∀ run ∈ runRows, (cfg.classify run).isSchemaBot = false → run.name ∈ cfg.requiredChecks →
      ¬ (cfg.classify run).Blocks) :
    Verified cfg ((statusRows ++ runRows).map cfg.classify) := by
  rw [List.map_append]
  -- a required check is reported, so only the rows of required checks are relevant
  have hreported : ∃ t ∈ statusRows.map cfg.classify ++ runRows.map cfg.classify,
      t.isSchemaBot = false ∧ t.name ∈ cfg.requiredChecks := by
    obtain ⟨name, hname⟩ := List.exists_mem_of_ne_nil _ hne
    obtain ⟨row, hrow, rfl⟩ := exists_of_checkRowsContainRequiredChecks hall hname
    exact ⟨_, List.mem_append_left _ (List.mem_map_of_mem hrow), classify_commitStatus hstatus hrow, hname⟩
  refine ⟨fun s hs hr => ?_, fun name hname => ?_⟩
  · rcases List.mem_append.1 hs with hold | hnew
    · refine hv.passing s hold ⟨hr.1, ?_⟩
      rintro ⟨t, ht, hreq⟩
      exact hr.2 ⟨t, List.mem_append_left _ ht, hreq⟩
    · obtain ⟨run, hrun, rfl⟩ := List.mem_map.1 hnew
      exact hruns run hrun hr.1 (hr.2 hreported)
  · obtain ⟨s, hs, hsname⟩ := hv.reported name hname
    exact ⟨s, List.mem_append_left _ hs, hsname⟩

theorem fetchPRCheckStatuses_cases
    (h : gh.fetchPRCheckStatuses requiredChecks = .ok rows) (hstatus : gh.fetchCommitStatusRows = .ok statusRows) :
    (requiredChecks ≠ [] ∧ checkRowsContainRequiredChecks statusRows requiredChecks = true ∧ rows = statusRows) ∨
      ∀ runRows, gh.fetchCheckRunRows = .ok runRows → rows = statusRows ++ runRows := by
  unfold CommitChecks.fetchPRCheckStatuses at h
  rw [hstatus] at h
  change (if requiredChecks ≠ [] ∧ checkRowsContainRequiredChecks statusRows requiredChecks then
    pure statusRows else _) = _ at h
  split at h
  · next hskip =>
    cases h
    exact .inl ⟨hskip.1, hskip.2, rfl⟩
  · refine .inr fun runRows hruns => ?_
    rw [hruns] at h
    cases h
    rfl

theorem verified_of_enforcePassingChecks (hgate : cfg.shouldRequirePassingChecks = true)
    (h : cfg.enforcePassingChecks gh = none) :
    ∃ rows, gh.fetchPRCheckStatuses cfg.requiredChecks = .ok rows ∧ Verified cfg (rows.map cfg.classify) := by
  unfold ServerConfig.enforcePassingChecks CommitChecks.getPRCheckStatuses at h
  rw [hgate] at h
  cases hrows : gh.fetchPRCheckStatuses cfg.requiredChecks with
  | error e =>
    rw [hrows] at h
    cases h
  | ok rows =>
    rw [hrows] at h
    exact ⟨rows, rfl, judgeChecks_eq_none.1 h⟩

end

/-- An apply that the gate lets proceed meets its demands in the rows that were read, and also in those that were
not read, unless another app's check run of a required name blocks. -/
theorem passing_checks_enforced (cfg : ServerConfig) (gh : CommitChecks)
    (hgate : cfg.shouldRequirePassingChecks = true) (h : cfg.enforcePassingChecks gh = none) :
    ∃ rows, gh.fetchPRCheckStatuses cfg.requiredChecks = .ok rows ∧ Verified cfg (rows.map cfg.classify) ∧
      ∀ statusRows runRows, gh.fetchCommitStatusRows = .ok statusRows → gh.fetchCheckRunRows = .ok runRows →
        judgeChecks cfg ((statusRows ++ runRows).map cfg.classify) = none ∨
          ∃ run ∈ runRows, (cfg.classify run).isSchemaBot = false ∧ run.name ∈ cfg.requiredChecks ∧
            (cfg.classify run).Blocks := by
  obtain ⟨rows, hrows, hv⟩ := verified_of_enforcePassingChecks hgate h
  refine ⟨rows, hrows, hv, fun statusRows runRows hstatus hruns => ?_⟩
  rw [judgeChecks_eq_none, or_iff_not_imp_right]
  intro hnone
  rcases fetchPRCheckStatuses_cases hrows hstatus with ⟨hne, hall, rfl⟩ | hboth
  · refine judge_skipped hstatus hne hall hv fun run hrun hother hname hblocks => hnone ?_
    exact ⟨run, hrun, hother, hname, hblocks⟩
  · rw [← hboth runRows hruns]
    exact hv

def Sample.checkedCommit (run : ReportedRun) : CommitChecks :=
  { statuses := [.ok [⟨"ci", "success"⟩]], runs := [.ok [run]] }

def Sample.requiringConfig : ServerConfig := { requiredChecks := ["ci"] }

theorem passing_checks_enforced_lint :
    Sample.requiringConfig.enforcePassingChecks (Sample.checkedCommit ⟨"lint", "completed", "failure", "linter"⟩) =
        none ∧
      ∃ rows, (Sample.checkedCommit ⟨"lint", "completed", "failure", "linter"⟩).fetchPRCheckStatuses ["ci"] =
        .ok rows ∧ Verified Sample.requiringConfig (rows.map Sample.requiringConfig.classify) := by
  have hnone : Sample.requiringConfig.enforcePassingChecks
      (Sample.checkedCommit ⟨"lint", "completed", "failure", "linter"⟩) = none := by decide +kernel
  obtain ⟨rows, hrows, hv, -⟩ := passing_checks_enforced Sample.requiringConfig
    (Sample.checkedCommit ⟨"lint", "completed", "failure", "linter"⟩) (by decide) hnone
  exact ⟨hnone, rows, hrows, hv⟩

/-- A check run of the required name has failed and is not read; and where it is read, a run that waits is neither
completed nor among the states that block. -/
theorem failing_run_not_read :
    Sample.requiringConfig.enforcePassingChecks (Sample.checkedCommit ⟨"ci", "completed", "failure", "builder"⟩) =
        none ∧
      judgeChecks Sample.requiringConfig ([⟨"ci", "completed", "success", ""⟩,
        ⟨"ci", "completed", "failure", "builder"⟩].map Sample.requiringConfig.classify) =
        some (.nonPassingChecks [⟨"ci", "failure"⟩]) ∧
      ServerConfig.enforcePassingChecks {} (Sample.checkedCommit ⟨"build", "waiting", "", "builder"⟩) = none := by
  decide +kernel

end SchemaBot.Webhook
