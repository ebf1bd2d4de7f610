import Fkst.Lib.Table

/-!
# The configuration of a graph

`config.rs` and `built_in_provider.rs` of `fkst-common`: the queues, raisers and departments that the
graph scan has found, as the rest of the engine sees them.  The maps are `BTreeMap`s in the source so
that they are walked in the order of their keys; a `Table` is walked in that order as well.
-/

set_option autoImplicit false

namespace Fkst.Graph

open Lib

/-- `QueueDecl`. -/
structure QueueDecl where
  capacity : ℕ
  fanout : Bool
deriving DecidableEq

/-- `RaiserDecl`. -/
inductive RaiserDecl where
  | cron (interval produces : String)
  | fileWatch (glob produces : String)
deriving DecidableEq

/-- The queue that a raiser fills. -/
def RaiserDecl.produces : RaiserDecl → String
  | .cron _ produces => produces
  | .fileWatch _ produces => produces

/-- `RetryDecl`. -/
structure RetryDecl where
  maxAttempts : UInt64
  base : String
  cap : String
deriving DecidableEq

/-- `DepartmentDecl`.  A path is its text. -/
structure DepartmentDecl where
  lua : String
  ownerRoot : String
  ownerNamespace : String
  consumes : List String
  produces : List String
  publishedSeam : List String
  ephemeral : List String
  stallWindow : String
  graphJson : Bool
  retry : Option RetryDecl
deriving DecidableEq

/-- `LimitsDecl`. -/
structure LimitsDecl where
  globalCodexProcesses : ℕ
deriving DecidableEq

/-- `Config`. -/
structure Config where
  queue : Table String QueueDecl
  raiser : Table String RaiserDecl
  department : Table String DepartmentDecl
  limits : LimitsDecl

/-- The last part of a name after its last dot; the whole name if it has none. -/
def localName (name : String) : List Char :=
  (name.toList.reverse.takeWhile (· ≠ '.')).reverse

/-- `built_in_provider_for_queue`, with the label of the only provider: the queue is a dead-letter
queue. -/
def builtInProviderForQueue (queue : String) : Option String :=
  if localName queue = "dead_letter".toList then
    some "runtime-produced provider 'runtime.dead_letter'"
  else none

end Fkst.Graph
