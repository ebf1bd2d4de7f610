import Fkst.Delivery.Runs
import Fkst.Lib.Keyset
import Fkst.Manifest.TreeHash

/-!
# Observing the delivery store

`observe_snapshot` of `delivery_observe.rs`, with the validation of its options in `observe.rs` and
the two scans of `delivery_store.rs` that it reads the tables through.

Without a page or a window, both tables of rows are scanned and sorted.  With one of the two, the dead
letters are walked in the order of the time index, between two keys, and the walk stops one row after
the limit.

A `usize` is a natural number here: no vector has more than `usize::MAX` elements, so that a walk up to
`usize::MAX` rows is a walk without a limit, and `limit.saturating_add(1)` is as good as `limit + 1`.
-/

set_option autoImplicit false

namespace Fkst.Observe

open Lib Delivery
open Lib.Checks (bailIf)
open Lib.Keyset (trimAfter)
open Manifest (sha256Hex)
open Router (FkstError validateRuntimeKey)

/-! ## Requests -/

/-- `MAX_LIMIT`. -/
def maxLimit : ℕ := 10000

/-- `DeadLetterPageRequest`. -/
structure DeadLetterPageRequest where
  «section» : String
  after : Option String
deriving DecidableEq

/-- `DeadLetterWindow` and `DeadLetterWindowRequest`, which have the same fields. -/
structure DeadLetterWindow where
  startMs : UInt64
  endMs : UInt64
deriving DecidableEq

/-- `ObserveSnapshotOptions`. -/
structure ObserveSnapshotOptions where
  limit : ℕ
  since : Option String
  page : Option DeadLetterPageRequest
  deadLetterWindow : Option DeadLetterWindow
deriving DecidableEq

/-- `DeadLetterPageCursor`. -/
structure DeadLetterPageCursor where
  deadAtMs : UInt64
  deliveryId : String
deriving DecidableEq

/-- `DeadLetterPageOptions`. -/
structure DeadLetterPageOptions where
  after : Option DeadLetterPageCursor
deriving DecidableEq

/-- `DeadLetterCursorEnvelope`. -/
structure DeadLetterCursorEnvelope where
  version : UInt32
  «section» : String
  deadAtMs : UInt64
  deliveryId : String
deriving DecidableEq

/-- What the observer uses from outside this repository: `serde_json`, and `base64` in the variant that
is safe in URLs, without padding. -/
structure Codecs where
  /-- `serde_json::to_vec`, of an envelope. -/
  envelopeToVec : DeadLetterCursorEnvelope → List UInt8
  /-- `serde_json::from_slice`, to an envelope. -/
  envelopeFromSlice : List UInt8 → Except String DeadLetterCursorEnvelope
  /-- `URL_SAFE_NO_PAD.encode`. -/
  base64Encode : List UInt8 → String
  /-- `URL_SAFE_NO_PAD.decode`. -/
  base64Decode : String → Except String (List UInt8)
  /-- `serde_json::to_vec`, of a value. -/
  valueToVec : Json → List UInt8

/-! ## Cursors -/

/-- The text of the error. -/
def errorText : FkstError → String
  | .schema message => "schema validation: " ++ message

/-- The envelope of a cursor. -/
def DeadLetterPageCursor.envelope (cursor : DeadLetterPageCursor) : DeadLetterCursorEnvelope :=
  ⟨1, "dead_letters", cursor.deadAtMs, cursor.deliveryId⟩

/-- `encode_dead_letter_cursor`. -/
def encodeDeadLetterCursor (codecs : Codecs) (cursor : DeadLetterPageCursor) : String :=
  codecs.base64Encode (codecs.envelopeToVec cursor.envelope)

/-- `map_err`, with the text that the source puts in front of an error. -/
def withText {ε α : Type} (text : ε → String) : Except ε α → Except String α
  | .ok a => .ok a
  | .error e => .error (text e)

/-- `decode_dead_letter_cursor`. -/
def decodeDeadLetterCursor (codecs : Codecs) (encoded : String) :
    Except String DeadLetterPageCursor := do
  let decoded ← withText (fun err => "observe dead-letter cursor invalid: base64: " ++ err)
    (codecs.base64Decode encoded)
  let envelope ← withText (fun err => "observe dead-letter cursor invalid: json: " ++ err)
    (codecs.envelopeFromSlice decoded)
  bailIf (envelope.version ≠ 1) ("observe dead-letter cursor invalid: unsupported version " ++
    envelope.version.toNat.repr)
  bailIf (envelope.«section» ≠ "dead_letters") "observe dead-letter cursor invalid: section mismatch"
  let _ ← withText (fun err => "observe dead-letter cursor invalid: delivery_id: " ++ errorText err)
    (validateRuntimeKey envelope.deliveryId)
  return ⟨envelope.deadAtMs, envelope.deliveryId⟩

/-! ## Validation -/

/-- `validate_limit`. -/
def validateLimit (limit : ℕ) : Except String ℕ := do
  bailIf (limit = 0 ∨ maxLimit < limit)
    ("observe limit must be between 1 and " ++ maxLimit.repr)
  return limit

/-- `validate_since`. -/
def validateSince (since : Option String) : Except String Unit :=
  bailIf (since = some "") "observe since cursor must not be empty"

/-- `page.after.as_deref().map(decode_dead_letter_cursor).transpose()`. -/
def decodeAfter (codecs : Codecs) : Option String → Except String (Option DeadLetterPageCursor)
  | none => .ok none
  | some encoded => (decodeDeadLetterCursor codecs encoded).map some

/-- `validate_dead_letter_page`. -/
def validateDeadLetterPage (codecs : Codecs) (page : Option DeadLetterPageRequest)
    (since : Option String) : Except String (Option DeadLetterPageOptions) :=
  match page with
  | none => .ok none
  | some page => do
    bailIf (page.«section» ≠ "dead_letters") "fkst.observe page section must be `dead_letters`"
    bailIf (since.isSome = true) "fkst.observe page cannot be combined with since"
    let after ← decodeAfter codecs page.after
    return some ⟨after⟩

/-- `validate_dead_letter_window`. -/
def validateDeadLetterWindow (window : Option DeadLetterWindow)
    (page : Option DeadLetterPageRequest) : Except String (Option DeadLetterWindow) :=
  match window with
  | none => .ok none
  | some window => do
    bailIf (page.isSome = true) "fkst.observe dead_letter_window cannot be combined with page"
    bailIf (window.endMs < window.startMs)
      "fkst.observe dead-letter window requires start_ms <= end_ms"
    return some window

/-! ## Snapshots -/

/-- `DeliveryObserveOptions`. -/
structure DeliveryObserveOptions where
  nowMs : UInt64
  limit : ℕ
  since : Option String
  deadLetterPage : Option DeadLetterPageOptions
  deadLetterWindow : Option DeadLetterWindow
  currentSubscriberQueues : Option (Std.ExtTreeSet String)

/-- `PayloadObserveSummary`. -/
structure PayloadObserveSummary where
  schema : Option String
  dedupKey : Option String
  digest : String
  bytes : ℕ
deriving DecidableEq

/-- `DeliveryObserveStatus`. -/
inductive DeliveryObserveStatus where
  | pending
  | inFlight
  | retrying
deriving DecidableEq

/-- `DeliveryObserveEntry`. -/
structure DeliveryObserveEntry where
  deliveryId : String
  queue : String
  dept : String
  source : Option SourceRef
  status : DeliveryObserveStatus
  observedAtMs : UInt64
  notBeforeMs : UInt64
  attempt : UInt64
  redriveCount : UInt64
  leaseGeneration : UInt64
  leaseUntilMs : Option UInt64
  fenceToken : String
  subscriberAbsentSinceMs : Option UInt64
  payload : PayloadObserveSummary
  lastErrorExcerpt : Option String
deriving DecidableEq

/-- `DeadLetterObserveEntry`. -/
structure DeadLetterObserveEntry where
  deliveryId : String
  queue : String
  dept : String
  source : Option SourceRef
  observedAtMs : UInt64
  notBeforeMs : UInt64
  deadAtMs : UInt64
  attempts : UInt64
  redriveCount : UInt64
  replayable : Bool
  permanent : Bool
  payload : PayloadObserveSummary
  errorExcerpt : Option String
deriving DecidableEq

/-- `QueueSubscriberStatus`. -/
inductive QueueSubscriberStatus where
  | current
  | absent
  | unknown
deriving DecidableEq

/-- `QueueObserveState`. -/
structure QueueObserveState where
  queue : String
  depth : ℕ
  pending : ℕ
  inFlight : ℕ
  retrying : ℕ
  oldestPendingAgeMs : Option UInt64
  subscriberStatus : QueueSubscriberStatus
  hasCurrentSubscriber : Option Bool
deriving DecidableEq

/-- `DeliveryObserveSource`. -/
structure DeliveryObserveSource where
  durableRoot : String
  database : String
  readSemantics : String
  historySemantics : String
deriving DecidableEq

/-- `DeliveryObserveLimits`. -/
structure DeliveryObserveLimits where
  maxDeliveries : ℕ
  maxDeadLetters : ℕ
deriving DecidableEq

/-- `DeliveryObserveTruncated`. -/
structure DeliveryObserveTruncated where
  deliveries : Bool
  deadLetters : Bool
deriving DecidableEq

/-- `DeliveryObservePage`. -/
structure DeliveryObservePage where
  «section» : String
  next : Option String
deriving DecidableEq

/-- `DeliveryObserveSnapshot`. -/
structure DeliveryObserveSnapshot where
  schemaVersion : UInt32
  generatedAtMs : UInt64
  source : DeliveryObserveSource
  limits : DeliveryObserveLimits
  truncated : DeliveryObserveTruncated
  deadLettersComplete : Option Bool
  queues : List QueueObserveState
  deliveries : List DeliveryObserveEntry
  deadLetters : List DeadLetterObserveEntry
  page : Option DeliveryObservePage
deriving DecidableEq

/-! ## Entries -/

/-- `delivery_status`. -/
def deliveryStatus (record : DeliveryRecord) (nowMs : UInt64) : DeliveryObserveStatus :=
  if record.leaseUntilMs.any (nowMs < ·) then .inFlight
  else if 0 < record.attempt ∧ nowMs < record.notBeforeMs then .retrying
  else .pending

/-- `fence_token`. -/
def fenceToken (deliveryId : String) (leaseGeneration : UInt64) : String :=
  deliveryId ++ "#" ++ leaseGeneration.toNat.repr

/-- `payload_string_field`. -/
def payloadStringField (payload : Json) (key : String) : Option String :=
  (payload.get key).bind Json.asStr

/-- `payload_summary`. -/
def payloadSummary (codecs : Codecs) (payload : Json) : PayloadObserveSummary where
  schema := payloadStringField payload "schema"
  dedupKey := payloadStringField payload "dedup_key"
  digest := sha256Hex (codecs.valueToVec payload)
  bytes := (codecs.valueToVec payload).length

/-- `PayloadObserveSummary::empty`. -/
def PayloadObserveSummary.empty (codecs : Codecs) : PayloadObserveSummary :=
  ⟨none, none, sha256Hex (codecs.valueToVec .null), 4⟩

/-- `delivery_observe_entry`. -/
def deliveryObserveEntry (codecs : Codecs) (nowMs : UInt64) (record : DeliveryRecord) :
    DeliveryObserveEntry where
  deliveryId := record.deliveryId
  queue := record.queue
  dept := record.dept
  source := record.source
  status := deliveryStatus record nowMs
  observedAtMs := record.observedAtMs
  notBeforeMs := record.notBeforeMs
  attempt := record.attempt
  redriveCount := record.redriveCount
  leaseGeneration := record.leaseGeneration
  leaseUntilMs := record.leaseUntilMs
  fenceToken := fenceToken record.deliveryId record.leaseGeneration
  subscriberAbsentSinceMs := record.subscriberAbsentSinceMs
  payload := payloadSummary codecs record.payload
  lastErrorExcerpt := record.lastErrorExcerpt

/-- `dead_letter_observe_entry`. -/
def deadLetterObserveEntry (codecs : Codecs) (record : DeadRecord) : DeadLetterObserveEntry where
  deliveryId := record.deliveryId
  queue := record.queue
  dept := record.dept
  source := record.source
  observedAtMs := record.observedAtMs
  notBeforeMs := record.notBeforeMs
  deadAtMs := record.deadAtMs
  attempts := record.attempts
  redriveCount := record.redriveCount
  replayable := record.replayable
  permanent := record.permanent
  payload := match record.record with
    | some delivery => payloadSummary codecs delivery.payload
    | none => .empty codecs
  errorExcerpt := record.errorExcerpt

/-! ## Queues -/

/-- `QueueAccumulator`. -/
structure QueueAccumulator where
  pending : ℕ
  inFlight : ℕ
  retrying : ℕ
  oldestPendingMs : Option UInt64

/-- `QueueAccumulator::default`. -/
def QueueAccumulator.default : QueueAccumulator := ⟨0, 0, 0, none⟩

/-- `observe_delivery`. -/
def QueueAccumulator.observeDelivery (acc : QueueAccumulator) (record : DeliveryRecord)
    (nowMs : UInt64) : QueueAccumulator :=
  match deliveryStatus record nowMs with
  | .pending =>
    { acc with
      pending := acc.pending + 1
      oldestPendingMs := some (match acc.oldestPendingMs with
        | some oldest => min oldest record.notBeforeMs
        | none => record.notBeforeMs) }
  | .inFlight => { acc with inFlight := acc.inFlight + 1 }
  | .retrying => { acc with retrying := acc.retrying + 1 }

/-- `finish`. -/
def QueueAccumulator.finish (acc : QueueAccumulator) (queue : String) (nowMs : UInt64)
    (currentSubscriberQueues : Option (Std.ExtTreeSet String)) : QueueObserveState where
  queue := queue
  depth := acc.pending + acc.inFlight + acc.retrying
  pending := acc.pending
  inFlight := acc.inFlight
  retrying := acc.retrying
  oldestPendingAgeMs := acc.oldestPendingMs.map (saturatingSub nowMs)
  subscriberStatus := match currentSubscriberQueues with
    | some subscribers => if queue ∈ subscribers then .current else .absent
    | none => .unknown
  hasCurrentSubscriber := currentSubscriberQueues.map (decide <| queue ∈ ·)

/-- The accumulators of the queues, one delivery after the other. -/
def observeQueues (records : List DeliveryRecord) (nowMs : UInt64) : Table String QueueAccumulator :=
  records.foldl (fun queues record =>
    queues.insert record.queue
      ((queues[record.queue]?.getD .default).observeDelivery record nowMs)) ∅

/-! ## Scans -/

/-- The range of keys that `dead_letter_time_bounds` gives. -/
def deadLetterTimeBounds (after : Option DeadLetterPageCursor) (window : Option DeadLetterWindow) :
    String × String :=
  let lowerMs := match after, window with
    | some cursor, some window => max cursor.deadAtMs window.startMs
    | some cursor, none => cursor.deadAtMs
    | none, some window => window.startMs
    | none, none => 0
  let upperMs := match window with
    | some window => window.endMs - 1
    | none => u64Max
  (String.ofList (padded20 lowerMs) ++ "/",
    String.ofList (padded20 upperMs) ++ "/" ++ String.ofList [lastChar])

/-- The order of `(dead_at_ms, delivery_id)`. -/
def timeIdLt (ms : UInt64) (id : String) (ms' : UInt64) (id' : String) : Bool :=
  decide (ms < ms' ∨ ms = ms' ∧ id < id')

/-- `collect_dead_letter_page_record`. -/
def collectDeadLetterPageRecord (s : Store) (indexKey : String) (records : List DeadRecord) :
    Except String (List DeadRecord) := do
  let parsed ← withText StoreError.message (parseDeadTimeIndexKey indexKey)
  match s.deadById[parsed.deliveryId]? with
  | none => .error ("dead-letter page index missing record for delivery_id: " ++ parsed.deliveryId)
  | some record =>
    if record.deadAtMs ≠ parsed.dueMs ∨ record.deliveryId ≠ parsed.deliveryId then
      .error ("dead-letter page index mismatch for delivery_id: " ++ parsed.deliveryId)
    else .ok (records ++ [record])

/-- The walk over the time index.  `none` is the limit `usize::MAX`. -/
def collectDeadLetters (s : Store) (after : Option DeadLetterPageCursor) (limit : Option ℕ) :
    List (String × Unit) → List DeadRecord → Except String (List DeadRecord)
  | [], records => .ok records
  | (key, _) :: rest, records => do
    let parsed ← withText StoreError.message (parseDeadTimeIndexKey key)
    -- rows up to the cursor and the cursor itself are skipped
    if after.any fun cursor =>
        !timeIdLt cursor.deadAtMs cursor.deliveryId parsed.dueMs parsed.deliveryId then
      collectDeadLetters s after limit rest records
    else
      let records ← collectDeadLetterPageRecord s key records
      if limit.any (· ≤ records.length) then .ok records
      else collectDeadLetters s after limit rest records

/-- The live rows, as both scans visit them. -/
def deliveryRecords (s : Store) : List DeliveryRecord := s.deliveryById.toList.map Prod.snd

/-- The dead letters that `scan_records_for_dead_letter_window` returns. -/
def scanRecordsForDeadLetterWindow (s : Store) (after : Option DeadLetterPageCursor)
    (window : Option DeadLetterWindow) (limit : Option ℕ) : Except String (List DeadRecord) :=
  if window.any fun window => window.endMs ≤ window.startMs then .ok []
  else
    let (lowerBound, upperBound) := deadLetterTimeBounds after window
    if upperBound < lowerBound then .ok []
    else collectDeadLetters s after limit (Table.range s.deadByTime lowerBound upperBound) []

/-- The dead letters that `scan_records` visits. -/
def scanRecords (s : Store) : List DeadRecord := s.deadById.toList.map Prod.snd

/-! ## The snapshot -/

/-- The order of deliveries in a snapshot. -/
def compareDeliveries (left right : DeliveryRecord) : Ordering :=
  (((compare left.queue right.queue).then (compare left.dept right.dept)).then
    (compare left.notBeforeMs right.notBeforeMs)).then (compare left.deliveryId right.deliveryId)

/-- The order of dead letters in a snapshot. -/
def compareDeadLetters (left right : DeadRecord) : Ordering :=
  (compare left.deadAtMs right.deadAtMs).then (compare left.deliveryId right.deliveryId)

/-- `trim_deliveries_after_cursor` and `trim_dead_letters_after_cursor`, if there is a cursor. -/
def trimSince {α : Type} (deliveryId : α → String) (since : Option String) (entries : List α) :
    List α :=
  match since with
  | none => entries
  | some since => trimAfter (fun entry => deliveryId entry == since) entries

/-- `read_semantics`. -/
def readSemantics : String :=
  "single read transaction over the owner redb handle for live supervise snapshots or over an offline database open"

/-- `history_semantics`. -/
def historySemantics : String :=
  "delivery queue snapshot only; acked deliveries are removed and historical timelines require a journal"

/-- The dead letters before sorting. -/
def readDeadRecords (s : Store) (options : DeliveryObserveOptions) :
    Except String (List DeadRecord) :=
  if options.deadLetterWindow.isSome || options.deadLetterPage.isSome then
    scanRecordsForDeadLetterWindow s (options.deadLetterPage.bind (·.after)) options.deadLetterWindow
      (if options.since.isSome && options.deadLetterPage.isNone then none
        else some (options.limit + 1))
  else .ok (scanRecords s)

/-- The snapshot of what was read. -/
def makeSnapshot (codecs : Codecs) (durableRoot database : String) (options : DeliveryObserveOptions)
    (queues : Table String QueueAccumulator) (deliveryRecords : List DeliveryRecord)
    (deadRecords : List DeadRecord) : DeliveryObserveSnapshot :=
  -- `apply_limit` truncates what is longer than the limit, and says so
  let truncated : DeliveryObserveTruncated :=
    ⟨options.limit < deliveryRecords.length, options.limit < deadRecords.length⟩
  let deliveries := deliveryRecords.take options.limit
  let deadLetters := deadRecords.take options.limit
  { schemaVersion := 1
    generatedAtMs := options.nowMs
    source := ⟨durableRoot, database, readSemantics, historySemantics⟩
    limits := ⟨options.limit, options.limit⟩
    truncated := truncated
    deadLettersComplete := options.deadLetterWindow.map fun _ => !truncated.deadLetters
    queues := queues.toList.map fun (queue, acc) =>
      acc.finish queue options.nowMs options.currentSubscriberQueues
    deliveries := deliveries.map (deliveryObserveEntry codecs options.nowMs)
    deadLetters := deadLetters.map (deadLetterObserveEntry codecs)
    page := options.deadLetterPage.map fun _ =>
      ⟨"dead_letters", if truncated.deadLetters then deadLetters.getLast?.map fun record =>
        encodeDeadLetterCursor codecs ⟨record.deadAtMs, record.deliveryId⟩ else none⟩ }

/-- `observe_snapshot`. -/
def observeSnapshot (codecs : Codecs) (s : Store) (durableRoot database : String)
    (options : DeliveryObserveOptions) : Except String DeliveryObserveSnapshot := do
  validateSince options.since
  bailIf (options.deadLetterPage.isSome = true ∧ options.since.isSome = true)
    "fkst.observe page cannot be combined with since"
  bailIf (options.deadLetterPage.isSome = true ∧ options.deadLetterWindow.isSome = true)
    "fkst.observe dead_letter_window cannot be combined with page"
  let deadRecords ← readDeadRecords s options
  let deliverySorted := (deliveryRecords s).mergeSort fun left right =>
    (compareDeliveries left right).isLE
  let deadSorted := deadRecords.mergeSort fun left right => (compareDeadLetters left right).isLE
  return makeSnapshot codecs durableRoot database options
    (observeQueues (deliveryRecords s) options.nowMs)
    (trimSince DeliveryRecord.deliveryId options.since deliverySorted)
    (trimSince DeadRecord.deliveryId options.since deadSorted)

end Fkst.Observe
