import Rustberg.Base.Text

/-!
# Errors

`AppError` is what a handler answers with; `iceberg::Error` is what a
catalog backend answers with, a kind and a message. Handlers map one to
the other by kind, never by message text.
-/

namespace Rustberg

/-- `iceberg::ErrorKind`, the kinds the catalog uses. -/
inductive ErrorKind where
  | unexpected
  | dataInvalid
  | featureUnsupported
  | namespaceAlreadyExists
  | namespaceNotFound
  | tableAlreadyExists
  | tableNotFound
  | catalogCommitConflicts
  | preconditionFailed
  deriving DecidableEq, Repr

/-- `iceberg::Error`. -/
structure Error where
  kind : ErrorKind
  message : Text
  deriving DecidableEq, Repr

inductive AppError where
  | badRequest (message : Text)
  | unauthenticated
  | invalidCredentials
  | forbidden (message : Text)
  | noSuchNamespace (message : Text)
  | noSuchTable (message : Text)
  | noSuchView (message : Text)
  | noSuchSnapshot (message : Text)
  | noSuchReference (message : Text)
  | noSuchPlan (message : Text)
  | noSuchPlanTask (message : Text)
  | notSupported (message : Text)
  | namespaceAlreadyExists (message : Text)
  | tableAlreadyExists (message : Text)
  | viewAlreadyExists (message : Text)
  | commitConflict (message : Text)
  | namespaceNotEmpty (message : Text)
  | «protected» (message : Text)
  | rateLimited
  | unprocessableEntity (message : Text)
  | internal (message : Text)
  | storageError (message : Text)
  | serviceUnavailable (message : Text)
  deriving DecidableEq, Repr

/-- `impl From<iceberg::Error> for AppError`. -/
def AppError.fromIceberg (err : Error) : AppError :=
  match err.kind with
  | .namespaceNotFound => .noSuchNamespace err.message
  | .tableNotFound => .noSuchTable err.message
  | .namespaceAlreadyExists => .namespaceAlreadyExists err.message
  | .tableAlreadyExists => .tableAlreadyExists err.message
  | .catalogCommitConflicts => .commitConflict err.message
  | .preconditionFailed => .namespaceNotEmpty err.message
  | .featureUnsupported => .notSupported err.message
  | .dataInvalid => .badRequest err.message
  | .unexpected => .internal err.message

end Rustberg
