/-!
`ErrorCode` of `fluvio-protocol` (`link/error_code.rs`), with the variants that the modelled
paths of the SPU and of the client set or read. The payload of `SmartModuleRuntimeError` is kept
by its text.
-/

namespace Fluvio.Protocol

/-- `ErrorCode`. -/
inductive ErrorCode
  | none
  | other (msg : String)
  | compressionError
  | messageTooLarge
  | partitionShortCircuited
  | storageError
  | smartModuleRuntimeError (error : String)
deriving DecidableEq, Repr

end Fluvio.Protocol
