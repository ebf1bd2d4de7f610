import Fkst.Json
import Fkst.Rust

/-!
# Durable delivery records

The records of `delivery_types.rs`, field by field, and the parts of the environment that the
delivery store calls out to.
-/

set_option autoImplicit false

namespace Fkst.Delivery

/-- Where a delivery came from. -/
inductive SourceKind where
  | file
  | cron
  | git
  | external
deriving DecidableEq

/-- A source and the reference that names the item in it. -/
structure SourceRef where
  kind : SourceKind
  reference : String
deriving DecidableEq

/-- A live delivery, as `DELIVERY_BY_ID` stores it. -/
structure DeliveryRecord where
  deliveryId : String
  queue : String
  dept : String
  payload : Json
  source : Option SourceRef
  cronPayload : Option Json
  observedAtMs : UInt64
  attempt : UInt64
  redriveCount : UInt64
  collapseByDedupId : Bool
  /-- A stable keyed duplicate arrived while this delivery's lease was active. -/
  pendingDirty : Bool
  subscriberAbsentSinceMs : Option UInt64
  leaseGeneration : UInt64
  leaseUntilMs : Option UInt64
  notBeforeMs : UInt64
  lastErrorExcerpt : Option String
deriving DecidableEq

/-- A dead delivery, as `DEAD_BY_ID` stores it. -/
structure DeadRecord where
  deliveryId : String
  queue : String
  dept : String
  source : Option SourceRef
  observedAtMs : UInt64
  notBeforeMs : UInt64
  deadAtMs : UInt64
  attempts : UInt64
  redriveCount : UInt64
  replayable : Bool
  permanent : Bool
  /-- A keyed successor made this terminal delivery id reusable. -/
  allowsKeyedReuse : Bool
  errorExcerpt : Option String
  record : Option DeliveryRecord
deriving DecidableEq

/-- How often a failing delivery is tried, and how long it waits in between. -/
structure RetryPolicy where
  maxAttempts : UInt64
  base : Duration
  cap : Duration
deriving DecidableEq

/-- How often a dead delivery is brought back, and after how long. -/
structure RedrivePolicy where
  maxRedrives : UInt64
  cooldown : Duration
deriving DecidableEq

/-- A record in the state in which the router hands it to the store: never tried, never leased,
never marked. -/
def DeliveryRecord.Fresh (r : DeliveryRecord) : Prop :=
  r.attempt = 0 ∧ r.redriveCount = 0 ∧ r.pendingDirty = false ∧
    r.subscriberAbsentSinceMs = none ∧ r.leaseGeneration = 0 ∧ r.leaseUntilMs = none

instance (r : DeliveryRecord) : Decidable r.Fresh := inferInstanceAs (Decidable (_ ∧ _))

/-- A record as the router builds it. -/
abbrev FreshRecord := { r : DeliveryRecord // r.Fresh }

/-- What the store uses from outside this repository.  The standard library leaves the algorithm of
`DefaultHasher` unspecified, and `base64` is a crate of its own. -/
structure Env where
  /-- `DefaultHasher` over a delivery id and an attempt. -/
  defaultHash : String → UInt64 → UInt64
  /-- `base64::engine::general_purpose::URL_SAFE_NO_PAD.encode`. -/
  base64Url : List UInt8 → String

end Fkst.Delivery
