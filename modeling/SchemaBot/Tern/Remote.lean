import SchemaBot.Tern.Resume

/-!
# The drives of a gRPC client

A control plane drives an apply on a remote data plane (`pkg/tern/grpc_client.go`).
-/

namespace SchemaBot

open Concurrent

/-! ## Messages -/

/-- `ternv1.State`, with the numbers that this version does not know. -/
inductive ProtoState
  | noActiveChange | pending | running | waitingForCutover | cuttingOver | revertWindow | completed | failed | stopped
  | reverted | cancelled | preparingBranch | applyingBranchChanges | creatingDeployRequest | waitingForDeploy
  | validatingDeployRequest | validatingBranch | recovering | unrecognized
  deriving DecidableEq

def protoStateToStorage : ProtoState → Option ApplyState
  | .noActiveChange | .unrecognized => none
  | .pending => some .pending
  | .running => some .running
  | .waitingForDeploy => some .waitingForDeploy
  | .waitingForCutover => some .waitingForCutover
  | .recovering => some .recovering
  | .cuttingOver => some .cuttingOver
  | .revertWindow => some .revertWindow
  | .completed => some .completed
  | .failed => some .failed
  | .stopped => some .stopped
  | .cancelled => some .cancelled
  | .reverted => some .reverted
  | .preparingBranch => some .preparingBranch
  | .applyingBranchChanges => some .applyingBranchChanges
  | .creatingDeployRequest => some .creatingDeployRequest
  | .validatingBranch => some .validatingBranch
  | .validatingDeployRequest => some .validatingDeployRequest

/-- `ternv1.TableProgress`, with its status as `NormalizeTaskStatus` reads it; `none` is a status that it does not
know. -/
structure RemoteTable where
  namespaceName : String := ""
  tableName : String
  status : Option TaskState
  rowsCopied : Nat := 0
  rowsTotal : Nat := 0
  percentComplete : Nat := 0
  checksumRowsChecked : Nat := 0
  checksumRowsTotal : Nat := 0

structure ProgressResponse where
  state : ProtoState
  tables : List RemoteTable := []
  errorMessage : String := ""

inductive GrpcCode
  | canceled | unknown | invalidArgument | deadlineExceeded | notFound | alreadyExists | permissionDenied
  | resourceExhausted | failedPrecondition | aborted | outOfRange | unimplemented | internal | unavailable | dataLoss
  | unauthenticated
  deriving DecidableEq

/-- The error of a call: a status, or an error without one, which may be known to be retryable. A context that has
ended is the status `canceled` or `deadlineExceeded`. -/
structure RpcError where
  code : GrpcCode := .unknown
  isStatus : Bool := true
  retryable : Bool := false
  message : String := ""
  deriving DecidableEq

/-- `ternv1.TableChange`. -/
structure RemoteTableChange where
  namespaceName : String
  tableName : String
  ddl : String
  ddlAction : String
  deriving DecidableEq

/-- `ternv1.ApplyRequest` of a dispatch. -/
structure RemoteApplyRequest where
  planId : String
  options : ApplyOptions
  database : String
  databaseType : String
  ddlChanges : List RemoteTableChange
  environment : String
  target : String
  targetShards : List String
  idempotencyKey : String
  deriving DecidableEq

/-- `ternv1.ApplyResponse`. -/
inductive RemoteApplyReply
  | noResponse
  | rejected (errorMessage : String)
  | accepted (applyId : String)
  deriving DecidableEq

/-- The calls of a data plane with state `δ`, each of which may fail with its effect or without it. -/
structure DataPlane (δ : Type) where
  apply : RemoteApplyRequest → δ → δ × Except RpcError RemoteApplyReply
  progress : String → δ → Except RpcError ProgressResponse
  stop : String → δ → δ × ControlReply
  start : String → δ → δ × ControlReply
  cutover : String → δ → δ × ControlReply

/-! ## The client -/

/-- `applyTaskScope`: the operation is there unless the drive is about the whole apply. -/
structure ApplyTaskScope where
  operation : Option ApplyOperation := none
  multiOperation : Bool := false
  deriving DecidableEq

/-- `usesOperationRemoteResume`, and `suppressesDirectParentApplyWrites`: the operation, if it is one of several. -/
def ApplyTaskScope.ownOperation (scope : ApplyTaskScope) : Option ApplyOperation :=
  if scope.multiOperation then scope.operation else none

structure RemoteDrive where
  apply : Apply
  scope : ApplyTaskScope
  deriving DecidableEq

def RemoteDrive.remoteApplyID (d : RemoteDrive) : String :=
  match d.scope.ownOperation with
  | some op => op.engineResumeContext
  | none => d.apply.externalId

def RemoteDrive.withApply (d : RemoteDrive) (apply : Apply) : RemoteDrive := { d with apply }

/-- A call of `Apply`: of which apply, and of which of its operations. -/
structure Dispatch where
  applyId : Nat
  operationId : Option Nat
  deriving DecidableEq

structure RemoteSite (δ : Type) where
  store : Store := {}
  data : δ
  dispatches : List Dispatch := []

def RemoteSite.storePart (δ : Type) : Part (RemoteSite δ) Store where
  get w := w.store
  set w s := { w with store := s }
  get_set _ _ := rfl
  set_get _ := rfl
  set_set _ _ _ := rfl

abbrev RemoteMethod (δ : Type) := Method (RemoteSite δ) StoreError

variable {δ : Type}

def inStore {α : Type} (m : StoreMethod α) : RemoteMethod δ α := Method.zoom (RemoteSite.storePart δ) m

def driveError (message : String) : StoreError := ⟨message, .unnamed⟩

namespace GRPCClient

def control (call : String → δ → δ × ControlReply) (remoteId : String) : RemoteMethod δ ControlReply :=
  Method.write fun w => ({ w with data := (call remoteId w.data).1 }, (call remoteId w.data).2)

/-! ## Cutover -/

/-- `markApplyCuttingOverForControlRequest` of the gRPC client, which also marks the apply of one operation. -/
def markApplyCuttingOver (ctx : Ctx) (apply : Apply) : StoreMethod Apply :=
  if apply.state = .waitingForCutover ∨ apply.state = .running then do
    update ctx { apply with state := .cuttingOver }
    pure { apply with state := .cuttingOver }
  else pure apply

/-- `processPendingCutoverControlRequest` of the gRPC client. -/
def processPendingCutover (plane : DataPlane δ) (ctx : Ctx) (d : RemoteDrive) : RemoteMethod δ RemoteDrive := do
  let refused := fun message : String =>
    driveError ("process pending gRPC cutover for apply " ++ d.apply.applyIdentifier ++ ": " ++ message)
  match ← inStore (Method.read (·.getPending d.apply.id .cutover)) with
  | none => pure d
  | some _ =>
    if cutoverRequestResolvedByApplyState d.apply.state then do
      inStore (completePending ctx d.apply.id .cutover)
      pure d
    else if d.apply.state.isTerminal then do
      let message := "cutover request was not applied because apply is " ++ d.apply.state.text
      inStore (failPending ctx d.apply.id .cutover message)
      throw (refused message)
    else if d.apply.state = .recovering then pure d
    else if (← inStore (applyReadyForCutoverRequest d.apply)) = false then pure d
    else if d.remoteApplyID = "" then do
      inStore (failPending ctx d.apply.id .cutover "remote apply id is not available")
      throw (refused "remote apply id is not available")
    else if ← inStore (Method.read (·.hasPending d.apply.id .stop)) then
      throw (refused "schema change has a pending stop request; cutover is blocked until stop is processed")
    else do
      let apply ← inStore (markApplyCuttingOver ctx d.apply)
      match ← control plane.cutover d.remoteApplyID with
      | .accepted => do
        inStore (completePending ctx apply.id .cutover)
        pure (d.withApply apply)
      | .failed message => do
        inStore (failPending ctx apply.id .cutover ("remote cutover failed: " ++ message))
        throw (refused message)
      | .rejected message => do
        inStore (failPending ctx apply.id .cutover (if message = "" then "not accepted" else message))
        throw (refused (if message = "" then "not accepted" else message))

end GRPCClient

end SchemaBot
