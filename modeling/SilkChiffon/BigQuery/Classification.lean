import SilkChiffon.BigQuery.RetryBudget

/-!
# Failures and retry decisions

Which failures of a `ReadRows` attempt are retried, and with which delay the
server asked for. A status carries what its structured details parse to and
the transport evidence found among its sources.
-/

namespace SilkChiffon.BigQuery

inductive Code
  | ok | cancelled | unknown | invalidArgument | deadlineExceeded | notFound | alreadyExists
  | permissionDenied | resourceExhausted | failedPrecondition | aborted | outOfRange
  | unimplemented | internal | unavailable | dataLoss | unauthenticated
  deriving DecidableEq

inductive TransportEvidence
  | channelClosed | incompleteMessage
  deriving DecidableEq

inductive RetryReason
  | credentials
  | grpcDeadlineExceeded
  | grpcUnavailable
  | grpcResourceExhausted
  | grpcStatus (code : Code)
  | transport (evidence : TransportEvidence)
  | malformedStatusDetails
  | idleTimeout
  | sessionExpired
  | lostSessionState
  | retryBudgetExhausted
  | schema
  | decode
  | offsetOverflow
  | localResource
  deriving DecidableEq

inductive StorageErrorCode
  | streamNotFound
  | other (code : Int)
  deriving DecidableEq

structure StatusDetails where
  retryDelay : Option Duration
  storageErrorCode : Option StorageErrorCode
  deriving DecidableEq

/-- `details` is `none` when they do not parse. -/
structure Status where
  code : Code
  details : Option StatusDetails
  evidence : Option TransportEvidence
  deriving DecidableEq

inductive RetryDecision
  | retry (scope : RetryScope) (reason : RetryReason) (serverDelay : Option Duration)
  | permanent (scope : RetryScope) (reason : RetryReason)
  deriving DecidableEq

namespace RetryDecision

def reason : RetryDecision → RetryReason
  | retry _ reason _ => reason
  | permanent _ reason => reason

def delay (decision : RetryDecision) (backoff : Duration) : Option RetryDelay :=
  match decision with
  | retry _ _ (some delay) => some (.serverMinimum (max delay backoff))
  | retry _ _ none => some (.backoff backoff)
  | permanent _ _ => none

theorem retry_delay_isSome (scope : RetryScope) (why : RetryReason)
    (serverDelay : Option Duration) (backoff : Duration) :
    ((retry scope why serverDelay).delay backoff).isSome = true := by
  cases serverDelay <;> rfl

end RetryDecision

inductive ReadRowsFailure
  | status (status : Status)
  | transientCredentials
  | credentials
  | idleTimeout
  | sessionExpired
  | decode
  | localResource
  deriving DecidableEq

def classifyReadRowsStatus (status : Status) : RetryDecision :=
  match status.details with
  | none => .permanent .readRows .malformedStatusDetails
  | some details =>
    match details.storageErrorCode, status.evidence, status.code, details.retryDelay with
    | some .streamNotFound, _, _, _ => .permanent .readRows .lostSessionState
    | some (.other _), _, code, _ => .permanent .readRows (.grpcStatus code)
    | none, some evidence, _, _ => .retry .readRows (.transport evidence) none
    | none, none, .deadlineExceeded, delay => .retry .readRows .grpcDeadlineExceeded delay
    | none, none, .unavailable, delay => .retry .readRows .grpcUnavailable delay
    | none, none, .resourceExhausted, some delay =>
      .retry .readRows .grpcResourceExhausted (some delay)
    | none, none, code, _ => .permanent .readRows (.grpcStatus code)

def classifyReadRows : ReadRowsFailure → RetryDecision
  | .status status => classifyReadRowsStatus status
  | .transientCredentials => .retry .readRows .credentials none
  | .credentials => .permanent .readRows .credentials
  | .idleTimeout => .retry .readRows .idleTimeout none
  | .sessionExpired => .permanent .readRows .sessionExpired
  | .decode => .permanent .readRows .decode
  | .localResource => .permanent .readRows .localResource

/-- A credential failure carries whether it is worth a retry. -/
inductive StorageTransportError
  | config
  | connect
  | credentials (retryable : Bool)
  | invalidMetadata
  | status (status : Status)
  deriving DecidableEq

inductive AttemptFailure
  | transport (error : StorageTransportError)
  | status (status : Status)
  | idleTimeout
  | sessionExpired
  | terminal (reason : RetryReason)
  deriving DecidableEq

def AttemptFailure.decision (failure : AttemptFailure) : RetryDecision :=
  match failure with
  | .transport (.status s) => classifyReadRows (.status s)
  | .status s => classifyReadRows (.status s)
  | .transport (.credentials true) => classifyReadRows .transientCredentials
  | .transport (.credentials false) => classifyReadRows .credentials
  | .transport .connect => classifyReadRows .localResource
  | .transport .config => classifyReadRows .localResource
  | .transport .invalidMetadata => classifyReadRows .localResource
  | .idleTimeout => classifyReadRows .idleTimeout
  | .sessionExpired => classifyReadRows .sessionExpired
  | .terminal reason => .permanent .readRows reason

end SilkChiffon.BigQuery
