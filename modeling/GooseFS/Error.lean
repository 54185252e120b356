import Mathlib.Algebra.Ring.Int.Defs
import Mathlib.Algebra.Ring.Nat
import Mathlib.Data.List.Basic

/-!
# Errors

The crate's `Error` enum.  `Code` lists the gRPC status codes that some
function of the crate tells apart; every other code behaves like `other`.
-/

namespace GooseFS

/-- Byte buffers: `Bytes`, `BytesMut`, `Vec<u8>` and `&[u8]` of the source. -/
abbrev Bytes := List UInt8

inductive Code where
  | notFound
  | alreadyExists
  | permissionDenied
  | invalidArgument
  | unauthenticated
  | failedPrecondition
  | resourceExhausted
  | unavailable
  | deadlineExceeded
  | aborted
  | cancelled
  | other
  deriving DecidableEq, Repr

inductive Error where
  | grpcError (message : String) (code : Code)
  | transportError (message : String)
  | notFound (path : String)
  | alreadyExists (path : String)
  | permissionDenied (message : String)
  | invalidArgument (message : String)
  | missingField (field : String)
  | blockIoError (message : String)
  | noWorkerAvailable (message : String)
  | resourceExhausted (message : String)
  | masterUnavailable (message : String)
  | configError (message : String)
  | internal (message : String)
  | fileIncomplete (message : String)
  | directoryNotEmpty (message : String)
  | openDirectory (path : String)
  | invalidPath (path : String)
  | authenticationFailed (message : String)
  deriving DecidableEq, Repr

/-- Only `AuthenticationFailed` counts; a `GrpcError` that wraps an
`UNAUTHENTICATED` status does not. -/
def Error.isAuthenticationFailed : Error → Bool
  | .authenticationFailed _ => true
  | _ => false

end GooseFS
