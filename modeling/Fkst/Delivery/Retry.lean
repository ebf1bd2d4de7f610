import Fkst.Delivery.Types

/-!
# Retry delays and error excerpts

`delivery_retry.rs`: the exponential backoff, the jitter on top of it, and the shortening of an
error message to what is stored with a record.
-/

set_option autoImplicit false

namespace Fkst.Delivery

/-- `ERROR_EXCERPT_LIMIT`, in bytes. -/
def errorExcerptLimit : ℕ := 500

/-- `JITTER_DIVISOR`. -/
def jitterDivisor : ℕ := 4

/-- `backoff_delay`.  The product is a `u128` in the source and saturates there. -/
def backoffDelay (base cap : Duration) (attempt : UInt64) : Duration :=
  let exponent := min (attempt.toNat - 1) 63
  let multiplier := 2 ^ exponent
  let millis := min (base.asMillis * multiplier) (2 ^ 128 - 1)
  let capped := min millis cap.asMillis
  Duration.fromMillis (clampU64 capped)

/-- `bounded_jitter`. -/
def boundedJitter (env : Env) (deliveryId : String) (attempt : UInt64) (base : Duration) :
    Duration :=
  let max := clampU64 (base.asMillis / jitterDivisor)
  if max = 0 then Duration.zero
  else Duration.fromMillis (env.defaultHash deliveryId attempt % (max + 1))

/-- The longest prefix that fits into a number of bytes. -/
def takeBytes : ℕ → List Char → List Char
  | _, [] => []
  | budget, c :: cs => if c.utf8Size ≤ budget then c :: takeBytes (budget - c.utf8Size) cs else []

/-- Line ends become visible escapes. -/
def escapeLineEnd (c : Char) : List Char :=
  if c = '\r' then ['\\', 'r'] else if c = '\n' then ['\\', 'n'] else [c]

/-- `error_excerpt`.  `takeBytes` cuts at the last character boundary that is not behind the limit,
which is where the source truncates. -/
def errorExcerpt (error : String) : String :=
  let excerpt := error.toList.flatMap escapeLineEnd
  if errorExcerptLimit < (excerpt.map Char.utf8Size).sum then
    String.ofList (takeBytes errorExcerptLimit excerpt)
  else String.ofList excerpt

/-- The due time of a delivery that is put back: now, plus the backoff, plus the jitter. -/
def retryDue (env : Env) (policy : RetryPolicy) (deliveryId : String) (ordinal nowMs : UInt64) :
    UInt64 :=
  saturatingAdd
    (saturatingAdd nowMs (durationMillis (backoffDelay policy.base policy.cap ordinal)))
    (durationMillis (boundedJitter env deliveryId ordinal policy.base))

end Fkst.Delivery
