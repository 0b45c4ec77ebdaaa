import SchemaBot.Lib.Regex
import SchemaBot.Webhook.Hub

/-!
# Reading commands from comments

`ParseCommand` (`pkg/webhook/commands.go`) drops the code of a comment, takes the first line that begins with
`schemabot`, and searches that line with one regular expression for the command and one for each flag that the
command has.
-/

namespace SchemaBot.Webhook

open Regex

abbrev Text := List Char

/-! ## Commands -/

/-- `action`. -/
inductive CommandName
  | help | plan | apply | applyConfirm | unlock | fixLint | stop | start | revert | skipRevert | cutover | rollback
  | rollbackConfirm
  deriving DecidableEq

def CommandName.text : CommandName → Text
  | .help => "help".toList
  | .plan => "plan".toList
  | .apply => "apply".toList
  | .applyConfirm => "apply-confirm".toList
  | .unlock => "unlock".toList
  | .fixLint => "fix-lint".toList
  | .stop => "stop".toList
  | .start => "start".toList
  | .revert => "revert".toList
  | .skipRevert => "skip-revert".toList
  | .cutover => "cutover".toList
  | .rollback => "rollback".toList
  | .rollbackConfirm => "rollback-confirm".toList

structure CommandSpec where
  name : CommandName
  requiresEnv : Bool := false
  hasApplyID : Bool := false
  supportsDB : Bool := false
  supportsAutoConfirm : Bool := false
  supportsSkipRevert : Bool := false
  supportsDeferCutover : Bool := false
  supportsAllowUnsafe : Bool := false
  supportsForce : Bool := false
  deriving DecidableEq

def commandSpecs : List CommandSpec :=
  [{ name := .help },
    { name := .plan, requiresEnv := true, supportsDB := true },
    { name := .apply, requiresEnv := true, supportsDB := true, supportsSkipRevert := true
      supportsDeferCutover := true, supportsAllowUnsafe := true, supportsAutoConfirm := true },
    { name := .applyConfirm, requiresEnv := true, supportsDB := true, supportsSkipRevert := true
      supportsDeferCutover := true, supportsAllowUnsafe := true },
    { name := .unlock, supportsDB := true, supportsForce := true },
    { name := .fixLint, supportsDB := true },
    { name := .stop, requiresEnv := true, hasApplyID := true },
    { name := .start, requiresEnv := true, hasApplyID := true },
    { name := .revert, requiresEnv := true },
    { name := .skipRevert, requiresEnv := true },
    { name := .cutover, requiresEnv := true, hasApplyID := true },
    { name := .rollback, requiresEnv := true, hasApplyID := true },
    { name := .rollbackConfirm, requiresEnv := true, supportsDeferCutover := true }]

def commandSupportsDatabaseFlag (name : CommandName) : Bool := commandSpecs.any fun s => s.name = name && s.supportsDB

/-! ## Patterns -/

/-- `\s`. -/
def isSpace (c : Char) : Bool := c = ' ' || c = '\t' || c = '\n' || c = '\x0c' || c = '\r'

/-- `[ \t]`. -/
def isBlank (c : Char) : Bool := c = ' ' || c = '\t'

/-- `[a-zA-Z0-9_-]` in any case. -/
def isNameChar (c : Char) : Bool := c.isAlphanum || c = '_' || c = '-' || c = 'ſ' || c = 'K'

/-- `[a-f0-9]` in any case. -/
def isHexChar (c : Char) : Bool := c.isDigit || ('a' ≤ c.toLower && c.toLower ≤ 'f')

/-- ` {0,3}`. -/
def upToThreeSpaces : Re :=
  opt (.seq (.char (· = ' ')) (opt (.seq (.char (· = ' ')) (opt (.char (· = ' '))))))

/-- A pattern after `schemabot` at the beginning of a line. -/
def directive (r : Re) : Re :=
  .seq (.look atLineStart) (.seq upToThreeSpaces (.seq (lit "schemabot".toList) r))

def commandNamePattern : Re :=
  alts (((commandSpecs.map (·.name.text)).insertionSort fun a b => b.length ≤ a.length).map lit)

def commandRegex : Re :=
  directive (.seq (plus isBlank) (.seq (.group commandNamePattern) (.look wordBoundary)))

def mentionRegex : Re := directive (.alt (plus isBlank) (.look atLineEnd))

def helpRegex : Re := directive (.seq (plus isBlank) (.seq (lit "help".toList) (.look wordBoundary)))

def applyIDRegex : Re :=
  .seq (.look wordBoundary) (.seq
    (.group (.seq (lit "apply".toList) (.seq (.char fun c => c = '_' || c = '-') (plus isHexChar))))
    (.look wordBoundary))

def valueRegex (flag : Text) (value : Re) : Re := .seq (lit flag) (.seq (plus isSpace) (.group value))

def environmentRegex : Re := valueRegex "-e".toList (.alt (lit "staging".toList) (lit "production".toList))

def databaseRegex : Re := valueRegex "-d".toList (plus isNameChar)

def tenantRegex : Re :=
  .seq (.look atStart) (.seq (.char Char.isAlphanum)
    (.seq (.many fun c => c.isAlphanum || c = '_' || c = '-') (.look atEnd)))

def tenantFlagRegex : Re :=
  .seq (.alt (.look atStart) (.char isSpace)) (.seq (.alt (lit "--tenant".toList) (lit "-t".toList))
    (opt (.seq (plus isBlank) (.group (plus fun c => !isSpace c)))))

def flagRegex (flag : Text) : Re := .seq (lit flag) (.look wordBoundary)

def skipRevertRegex : Re := flagRegex "--skip-revert".toList

def deferCutoverRegex : Re := flagRegex "--defer-cutover".toList

def allowUnsafeRegex : Re := flagRegex "--allow-unsafe".toList

def forceRegex : Re := flagRegex "--force".toList

def autoConfirmRegex : Re := .alt (flagRegex "--yes".toList) (flagRegex "-y".toList)

/-! ## The directive of a comment -/

/-- `strings.Lines`: the lines with their line ends. -/
def lines : Text → List Text
  | [] => []
  | c :: s =>
    if c = '\n' then [c] :: lines s
    else
      match lines s with
      | [] => [[c]]
      | line :: rest => (c :: line) :: rest

def isMarkdownFence (line : Text) : Bool := "```".toList.isPrefixOf line || "~~~".toList.isPrefixOf line

/-- The test of `markdownDirectiveText` for a fence. -/
def isFenceLine (line : Text) : Bool :=
  let text := line.dropWhile (· = ' ')
  line.length - text.length ≤ 3 && isMarkdownFence text

def isIndented (line : Text) : Bool := "    ".toList.isPrefixOf line || "\t".toList.isPrefixOf line

/-- The loop of `markdownDirectiveText`. -/
def directiveText : Bool → List Text → Text
  | _, [] => []
  | inFence, line :: rest =>
    if isFenceLine line then directiveText (!inFence) rest
    else if inFence || isIndented line then directiveText inFence rest
    else line ++ directiveText inFence rest

def markdownDirectiveText (body : Text) : Text := directiveText false (lines body)

/-- `strings.TrimRight` of line ends. -/
def trimLineEnd (line : Text) : Text := line.rdropWhile fun c => c = '\r' || c = '\n'

def firstDirectiveLine (body : Text) : Option Text :=
  ((lines body).map trimLineEnd).find? fun line => isMatch mentionRegex line

/-! ## Parsing -/

/-- `CommandResult`; the action is `none` where no command follows. -/
structure ParsedCommand where
  action : Option CommandName := none
  applyID : Text := []
  environment : Text := []
  database : Text := []
  tenant : Text := []
  tenantError : Bool := false
  skipRevert : Bool := false
  deferCutover : Bool := false
  allowUnsafe : Bool := false
  force : Bool := false
  autoConfirm : Bool := false
  found : Bool := false
  isHelp : Bool := false
  isMention : Bool := false
  missingEnv : Bool := false
  deriving DecidableEq

/-- `strings.ToLower` of a text that a pattern has matched. -/
def lowerCase (s : Text) : Text := s.map fun c => if c = 'K' then 'k' else c.toLower

/-- `extractTenant`: the tenant and whether the flag is there without a valid one. -/
def extractTenant (line : Text) : Text × Bool :=
  match submatch tenantFlagRegex line with
  | none => ([], false)
  | some value => if value = [] ∨ !isMatch tenantRegex value then ([], true) else (value, false)

def applySpec (spec : CommandSpec) (line tenant : Text) (tenantErr : Bool) : ParsedCommand :=
  let environment := ((submatch environmentRegex line).map lowerCase).getD []
  { action := some spec.name
    tenant := tenant
    tenantError := tenantErr
    isMention := true
    applyID := if spec.hasApplyID then (submatch applyIDRegex line).getD [] else []
    database := if spec.supportsDB then (submatch databaseRegex line).getD [] else []
    skipRevert := spec.supportsSkipRevert && isMatch skipRevertRegex line
    deferCutover := spec.supportsDeferCutover && isMatch deferCutoverRegex line
    allowUnsafe := spec.supportsAllowUnsafe && isMatch allowUnsafeRegex line
    force := spec.supportsForce && isMatch forceRegex line
    autoConfirm := spec.supportsAutoConfirm && isMatch autoConfirmRegex line
    environment := environment
    found := !spec.requiresEnv || environment ≠ []
    missingEnv := spec.requiresEnv && environment = [] }

def directiveSpec (line : Text) : Option CommandSpec :=
  (submatch commandRegex line).bind fun name => commandSpecs.find? (·.name.text = lowerCase name)

/-- `ParseCommand`, from the directive line on. -/
def parseDirective (line : Text) : ParsedCommand :=
  let (tenant, tenantErr) := extractTenant line
  if isMatch helpRegex line then
    { action := some .help, tenant := tenant, tenantError := tenantErr, isHelp := true, isMention := true }
  else
    match directiveSpec line with
    | none => { tenant := tenant, tenantError := tenantErr, isMention := true }
    | some spec => applySpec spec line tenant tenantErr

/-- The line that `ParseCommand` takes. -/
def directiveLine (body : Text) : Option Text := firstDirectiveLine (markdownDirectiveText body)

def parseCommand (body : Text) : ParsedCommand := (directiveLine body).elim {} parseDirective

def hasAutoConfirmFlag (body : Text) : Bool := isMatch autoConfirmRegex body

def hasDatabaseFlag (body : Text) : Bool := isMatch databaseRegex body

def hasDeferCutoverFlag (body : Text) : Bool := isMatch deferCutoverRegex body

/-! ## The dispatcher -/

structure CommentSettings where
  allowedEnvironments : List Text := []
  tenant : Text := []
  respondToUnscoped : Bool := true
  isRepoAllowed : Bool := true
  installationID : Nat := 1

inductive CommentReply
  | help
  | rollbackMissingArguments
  | rollbackMissingEnv
  | missingEnv (action : Option CommandName)
  | rollbackMissingApplyID
  | invalidCommand
  | unsupportedAutoConfirm (action : Option CommandName)
  | deferCutoverOnRollback (environment : Text)
  | unsupportedDatabaseFlag (action : Option CommandName)
  | notYetAvailable (action : Option CommandName) (environment : Text)
  deriving DecidableEq

inductive CommentOutcome
  | ignored (message : String)
  | badRequest (message : String)
  | replied (reply : CommentReply)
  | multiEnvPlan (database tenant : Text)
  | started (result : ParsedCommand)
  deriving DecidableEq

/-- `handleIssueComment` where the environment is missing. -/
def missingEnvOutcome (result : ParsedCommand) : CommentOutcome :=
  match result.action with
  | some .plan => .multiEnvPlan result.database result.tenant
  | some .rollback =>
    if result.applyID = [] then .replied .rollbackMissingArguments else .replied .rollbackMissingEnv
  | some .rollbackConfirm => .replied .rollbackMissingEnv
  | action => .replied (.missingEnv action)

/-- `handleIssueComment`, for a command that this deployment runs: flags that the command does not have are looked
for in the whole comment. -/
def runOutcome (result : ParsedCommand) (body : Text) : CommentOutcome :=
  if result.action ≠ some .apply ∧ hasAutoConfirmFlag body then .replied (.unsupportedAutoConfirm result.action)
  else if result.action = some .rollback ∧ hasDeferCutoverFlag body then
    .replied (.deferCutoverOnRollback result.environment)
  else if !result.action.any commandSupportsDatabaseFlag ∧ hasDatabaseFlag body then
    .replied (.unsupportedDatabaseFlag result.action)
  else
    match result.action with
    | none | some .fixLint => .replied .invalidCommand
    | some .help => .replied .help
    | some .revert | some .skipRevert => .replied (.notYetAvailable result.action result.environment)
    | _ => .started result

/-- `handleIssueComment` up to where the command is known to be this deployment's: what becomes of the others. -/
def commentGate (settings : CommentSettings) (result : ParsedCommand) : Option CommentOutcome :=
  if !result.isMention then some (.ignored "no SchemaBot command found")
  else if !settings.isRepoAllowed then some (.ignored "repository not registered")
  else if result.tenantError then some (.ignored "invalid tenant flag")
  else if result.tenant ≠ [] ∧ settings.tenant ≠ result.tenant then
    some (.ignored "tenant handled by another instance")
  else if result.tenant = [] ∧ (!result.isHelp ∧ (result.found ∨ result.missingEnv)) ∧ settings.tenant ≠ [] then
    some (.ignored "tenant target required")
  else if result.isHelp then
    if result.tenant = [] ∧ !settings.respondToUnscoped then some (.ignored "unscoped command skipped")
    else some (.replied .help)
  else if result.missingEnv then some (missingEnvOutcome result)
  else if result.found ∧ result.environment ≠ [] ∧ settings.allowedEnvironments ≠ [] ∧
      result.environment ∉ settings.allowedEnvironments then
    some (.ignored "environment handled by another instance")
  else if result.found ∧ result.action = some .rollback ∧ result.applyID = [] then
    some (.replied .rollbackMissingApplyID)
  else if !result.found then
    if result.tenant = [] ∧ !settings.respondToUnscoped then some (.ignored "unscoped command skipped")
    else some (.replied .invalidCommand)
  else if settings.installationID = 0 then some (.badRequest "missing installation ID in webhook payload")
  else none

def handleIssueComment (settings : CommentSettings) (body : Text) : CommentOutcome :=
  let result := parseCommand body
  (commentGate settings result).getD (runOutcome result body)

end SchemaBot.Webhook
