import Fkst.Delivery.Store
import Fkst.Lib.Lines
import Fkst.Router.Keys

/-!
# How an execution ends

The framework child of a delivery ends with an exit code and what it wrote to its standard error, or
it could not be started at all.  `consumer.rs` makes a `CompletedDelivery` of that.
-/

set_option autoImplicit false

namespace Fkst.Consumer

open Lib
open Delivery (DeliveryRecord)

/-! ## Failures -/

/-- `DeliveryFailure`. -/
structure DeliveryFailure where
  message : String
  replayable : Bool
deriving DecidableEq

/-- `LockBusy`. -/
structure LockBusy where
  lock : Option String
deriving DecidableEq

/-- `CompletedDelivery`. -/
structure CompletedDelivery where
  record : DeliveryRecord
  failure : Option DeliveryFailure
  lockBusy : Option LockBusy
deriving DecidableEq

/-- `SpawnResult`, as far as it is looked at.  What the child wrote to its standard output comes in
pieces and is kept apart. -/
structure SpawnResult where
  exitCode : Int
  stderr : String
deriving DecidableEq

/-- The `std::io::Error`s in the chain of a spawn error, by what is asked of them. -/
inductive IoError where
  | wouldBlock
  | outOfMemory
  | emfile
  | enfile
  | eagain
  | enomem
  | other
deriving DecidableEq

/-- Why a child could not be started. -/
structure SpawnError where
  message : String
  chain : List IoError
deriving DecidableEq

/-- `LOCK_BUSY_EXIT_CODE`. -/
def lockBusyExitCode : Int := 75

/-- `DeliveryFailure::permanent`. -/
def DeliveryFailure.permanent (message : String) : DeliveryFailure := ⟨message, false⟩

/-- `is_replayable_framework_exit_code`. -/
def isReplayableFrameworkExitCode (exitCode : Int) : Bool := exitCode == 124

/-- `is_replayable_spawn_error`. -/
def isReplayableSpawnError (error : SpawnError) : Bool := error.chain.any (· != .other)

/-- `DeliveryFailure::from_spawn_result`. -/
def DeliveryFailure.fromSpawnResult (result : SpawnResult) : DeliveryFailure where
  message := "exit=" ++ toString result.exitCode ++ " stderr=" ++ result.stderr
  replayable := isReplayableFrameworkExitCode result.exitCode

/-- `DeliveryFailure::from_spawn_error`. -/
def DeliveryFailure.fromSpawnError (error : SpawnError) : DeliveryFailure where
  message := "spawn error: " ++ error.message
  replayable := isReplayableSpawnError error

/-- `LOCK_BUSY_FACT_PREFIX`. -/
def lockBusyFactPrefix : List Char := "event=with_lock_busy error_class=lock_busy lock=".toList

/-- `LOCK_BUSY_FACT_SUFFIX`. -/
def lockBusyFactSuffix : List Char := " outcome=deferred".toList

/-- `lock_busy_key_from_stderr`. -/
def lockBusyKeyFromStderr (stderr : String) : Option String :=
  (strLines stderr.toList).findSome? fun line => do
    let rest ← lockBusyFactPrefix.isPrefixOf? line
    let lock ← lockBusyFactSuffix.isSuffixOf? rest
    let lock := String.ofList lock
    match Router.validateRuntimeKey lock with
    | .ok validated => if validated = lock then some lock else none
    | .error _ => none

/-- `lock_busy_from_spawn_result`. -/
def lockBusyFromSpawnResult (result : SpawnResult) : Option LockBusy :=
  if result.exitCode = lockBusyExitCode then some ⟨lockBusyKeyFromStderr result.stderr⟩ else none

end Fkst.Consumer
