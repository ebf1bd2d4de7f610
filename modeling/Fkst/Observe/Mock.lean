import Fkst.Observe.Paging

/-!
# The mocked observe

In tests `fkst.observe` answers from a JSON snapshot that the test has set.  `apply_to_mock` of
`sdk_observe.rs` applies the options of the call to it, section by section: first the window, then the
page, then `since` and the limit.  `mockedObserve_eq` says that the outcome is the JSON of the snapshot
that the engine would have taken with these options, if the mock is the snapshot of everything.
-/

set_option autoImplicit false

namespace Fkst.Observe

open Lib Delivery
open Lib.Checks (bailIf_eq_ok bind_eq_ok ok_bind)
open Lib.Keyset (Listing trimAfter trimAfter_map)

/-! ## The JSON of a snapshot -/

/-- The variants of `SourceKind` are written by their names. -/
def sourceKindName : SourceKind → String
  | .file => "File"
  | .cron => "Cron"
  | .git => "Git"
  | .external => "External"

/-- A `usize`, as `serde` writes it. -/
def ofUsize (n : ℕ) : Json := .ofU64 (UInt64.ofNat n)

/-- The JSON of a `SourceRef`. -/
def sourceRefJson (source : SourceRef) : Json :=
  .ofStruct [("kind", .string (sourceKindName source.kind)), ("reference", .string source.reference)]

/-- The JSON of a `PayloadObserveSummary`. -/
def payloadJson (payload : PayloadObserveSummary) : Json :=
  .ofStruct [("schema", .ofOption .string payload.schema),
    ("dedup_key", .ofOption .string payload.dedupKey), ("digest", .string payload.digest),
    ("bytes", ofUsize payload.bytes)]

/-- The variants of `DeliveryObserveStatus`, in kebab case. -/
def statusName : DeliveryObserveStatus → String
  | .pending => "pending"
  | .inFlight => "in-flight"
  | .retrying => "retrying"

/-- The JSON of a `DeliveryObserveEntry`. -/
def deliveryEntryJson (entry : DeliveryObserveEntry) : Json :=
  .ofStruct [("delivery_id", .string entry.deliveryId), ("queue", .string entry.queue),
    ("dept", .string entry.dept), ("source", .ofOption sourceRefJson entry.source),
    ("status", .string (statusName entry.status)), ("observed_at_ms", .ofU64 entry.observedAtMs),
    ("not_before_ms", .ofU64 entry.notBeforeMs), ("attempt", .ofU64 entry.attempt),
    ("redrive_count", .ofU64 entry.redriveCount), ("lease_generation", .ofU64 entry.leaseGeneration),
    ("lease_until_ms", .ofOption .ofU64 entry.leaseUntilMs), ("fence_token", .string entry.fenceToken),
    ("subscriber_absent_since_ms", .ofOption .ofU64 entry.subscriberAbsentSinceMs),
    ("payload", payloadJson entry.payload),
    ("last_error_excerpt", .ofOption .string entry.lastErrorExcerpt)]

/-- The JSON of a `DeadLetterObserveEntry`. -/
def deadLetterEntryJson (entry : DeadLetterObserveEntry) : Json :=
  .ofStruct [("delivery_id", .string entry.deliveryId), ("queue", .string entry.queue),
    ("dept", .string entry.dept), ("source", .ofOption sourceRefJson entry.source),
    ("observed_at_ms", .ofU64 entry.observedAtMs), ("not_before_ms", .ofU64 entry.notBeforeMs),
    ("dead_at_ms", .ofU64 entry.deadAtMs), ("attempts", .ofU64 entry.attempts),
    ("redrive_count", .ofU64 entry.redriveCount), ("replayable", .bool entry.replayable),
    ("permanent", .bool entry.permanent), ("payload", payloadJson entry.payload),
    ("error_excerpt", .ofOption .string entry.errorExcerpt)]

/-- The variants of `QueueSubscriberStatus`, in snake case. -/
def subscriberStatusName : QueueSubscriberStatus → String
  | .current => "current"
  | .absent => "absent"
  | .unknown => "unknown"

/-- A field that is left out when there is no value. -/
def optionalField (name : String) (value : Option Json) : List (String × Json) :=
  match value with
  | some value => [(name, value)]
  | none => []

/-- The JSON of a `QueueObserveState`. -/
def queueStateJson (state : QueueObserveState) : Json :=
  .ofStruct ([("queue", .string state.queue), ("depth", ofUsize state.depth),
    ("pending", ofUsize state.pending), ("in_flight", ofUsize state.inFlight),
    ("retrying", ofUsize state.retrying),
    ("oldest_pending_age_ms", .ofOption .ofU64 state.oldestPendingAgeMs),
    ("subscriber_status", .string (subscriberStatusName state.subscriberStatus))] ++
    optionalField "has_current_subscriber" (state.hasCurrentSubscriber.map .bool))

/-- The JSON of a `DeliveryObserveSource`. -/
def snapshotSourceJson (source : DeliveryObserveSource) : Json :=
  .ofStruct [("durable_root", .string source.durableRoot), ("database", .string source.database),
    ("read_semantics", .string source.readSemantics),
    ("history_semantics", .string source.historySemantics)]

/-- The JSON of a `DeliveryObserveLimits`. -/
def limitsJson (limits : DeliveryObserveLimits) : Json :=
  .ofStruct [("max_deliveries", ofUsize limits.maxDeliveries),
    ("max_dead_letters", ofUsize limits.maxDeadLetters)]

/-- The JSON of a `DeliveryObserveTruncated`. -/
def truncatedJson (truncated : DeliveryObserveTruncated) : Json :=
  .ofStruct [("deliveries", .bool truncated.deliveries), ("dead_letters", .bool truncated.deadLetters)]

/-- The JSON of a `DeliveryObservePage`. -/
def pageJson (page : DeliveryObservePage) : Json :=
  .ofStruct (("section", .string page.«section») :: optionalField "next" (page.next.map .string))

/-- The JSON of an array. -/
def arrayJson (items : List Json) : Json := .array (.ofList items)

/-- The JSON of a `DeliveryObserveSnapshot`. -/
def snapshotJson (snapshot : DeliveryObserveSnapshot) : Json :=
  .ofStruct ([("schema_version", .ofU64 snapshot.schemaVersion.toUInt64),
    ("generated_at_ms", .ofU64 snapshot.generatedAtMs), ("source", snapshotSourceJson snapshot.source),
    ("limits", limitsJson snapshot.limits), ("truncated", truncatedJson snapshot.truncated)] ++
    optionalField "dead_letters_complete" (snapshot.deadLettersComplete.map .bool) ++
    [("queues", arrayJson (snapshot.queues.map queueStateJson)),
      ("deliveries", arrayJson (snapshot.deliveries.map deliveryEntryJson)),
      ("dead_letters", arrayJson (snapshot.deadLetters.map deadLetterEntryJson))] ++
    optionalField "page" (snapshot.page.map pageJson))

/-! ## Reading the mock -/

/-- `ok_or_else`. -/
def okOr {α : Type} (text : String) : Option α → Except String α
  | some a => .ok a
  | none => .error text

/-- `as_object_mut`. -/
def asObject : Json → Option JsonFields
  | .object fields => some fields
  | _ => none

/-- The time of a dead letter. -/
def entryDeadAtMs (text : String) (entry : Json) : Except String UInt64 :=
  okOr text ((entry.get "dead_at_ms").bind Json.asU64)

/-- `existing_truncated`. -/
def existingTruncated (truncated : JsonFields) (field : String) : Except String Bool :=
  match truncated.get field with
  | some (.bool value) => .ok value
  | some _ => .error ("fkst.observe snapshot truncated field `" ++ field ++ "` must be a boolean")
  | none => .ok false

/-- `update_truncated`. -/
def updateTruncated (object : JsonFields) (deliveriesTruncated deadLettersTruncated : Bool) :
    Except String JsonFields :=
  match object.get "truncated" with
  | none => .ok object
  | some truncated => do
    let truncated ← okOr "fkst.observe snapshot field `truncated` must be an object"
      (asObject truncated)
    let deliveries ← existingTruncated truncated "deliveries"
    let deadLetters ← existingTruncated truncated "dead_letters"
    let truncated := truncated.insert "deliveries" (.bool (deliveries || deliveriesTruncated))
    let truncated := truncated.insert "dead_letters" (.bool (deadLetters || deadLettersTruncated))
    return object.insert "truncated" (.object truncated)

/-- `update_limits`. -/
def updateLimits (object : JsonFields) (limit : ℕ) : Except String JsonFields :=
  match object.get "limits" with
  | none => .ok object
  | some limits => do
    let limits ← okOr "fkst.observe snapshot field `limits` must be an object" (asObject limits)
    let limits := limits.insert "max_deliveries" (ofUsize limit)
    let limits := limits.insert "max_dead_letters" (ofUsize limit)
    return object.insert "limits" (.object limits)

/-- The dead letters of a mock, when there must be some. -/
def requiredDeadLetters (object : JsonFields) (optionName : String) : Except String (List Json) := do
  let entries ← okOr ("fkst.observe snapshot field `dead_letters` is required when " ++ optionName ++
    " is set") (object.get "dead_letters")
  okOr "fkst.observe snapshot field `dead_letters` must be an array" entries.asArray

/-- The object of a mock. -/
def requiredObject (snapshot : Json) (optionName : String) : Except String JsonFields :=
  okOr ("fkst.observe snapshot must be an object when " ++ optionName ++ " is set") (asObject snapshot)

/-- The rows of a window of a mock. -/
def filterWindow (window : DeadLetterWindow) : List Json → Except String (List Json)
  | [] => .ok []
  | entry :: entries => do
    let deadAtMs ← entryDeadAtMs
      "fkst.observe dead_letters window entry requires integer dead_at_ms" entry
    let filtered ← filterWindow window entries
    return if window.startMs ≤ deadAtMs ∧ deadAtMs < window.endMs then entry :: filtered else filtered

/-- `apply_dead_letter_window`. -/
def applyDeadLetterWindow (snapshot : Json) (window : DeadLetterWindow) : Except String Json := do
  let object ← requiredObject snapshot "dead_letter_window"
  let entries ← requiredDeadLetters object "dead_letter_window"
  let filtered ← filterWindow window entries
  let object := object.insert "dead_letters" (arrayJson filtered)
  return .object (object.insert "dead_letters_complete" (.bool true))

/-- An entry of a page, with its key. -/
structure KeyedEntry where
  deadAtMs : UInt64
  deliveryId : String
  entry : Json

/-- The key of an entry of a page. -/
def keyedEntry (entry : Json) : Except String KeyedEntry := do
  let deadAtMs ← entryDeadAtMs "fkst.observe dead_letters page entry requires integer dead_at_ms" entry
  let deliveryId ← okOr "fkst.observe dead_letters page entry requires delivery_id"
    (((entry.get "delivery_id").bind Json.asStr).filter (· != ""))
  return ⟨deadAtMs, deliveryId, entry⟩

/-- The order of the entries of a page. -/
def compareKeyed (left right : KeyedEntry) : Ordering :=
  (compare left.deadAtMs right.deadAtMs).then (compare left.deliveryId right.deliveryId)

/-- `apply_dead_letter_page`. -/
def applyDeadLetterPage (codecs : Codecs) (snapshot : Json) (page : DeadLetterPageOptions) (limit : ℕ) :
    Except String Json := do
  let object ← requiredObject snapshot "page"
  let entries ← requiredDeadLetters object "page"
  let keyed ← entries.mapM keyedEntry
  let keyed := keyed.mergeSort fun left right => (compareKeyed left right).isLE
  let keyed := keyed.filter fun entry => page.after.all fun after =>
    timeIdLt after.deadAtMs after.deliveryId entry.deadAtMs entry.deliveryId
  let hasMore := decide (limit < keyed.length)
  let keyed := keyed.take limit
  let next := if hasMore then keyed.getLast?.map fun entry =>
    encodeDeadLetterCursor codecs ⟨entry.deadAtMs, entry.deliveryId⟩ else none
  let object := object.insert "dead_letters" (arrayJson (keyed.map KeyedEntry.entry))
  let object := object.insert "page" (pageJson ⟨"dead_letters", next⟩)
  let object ← updateTruncated object false hasMore
  return .object object

/-- `trim_entries_after_cursor`. -/
def trimEntriesAfterCursor (object : JsonFields) (since field : String) : Except String JsonFields :=
  match object.get field with
  | none => .ok object
  | some entries => do
    let entries ← okOr ("fkst.observe snapshot field `" ++ field ++ "` must be an array") entries.asArray
    return object.insert field (arrayJson (trimAfter (fun entry =>
      (entry.get "delivery_id").bind Json.asStr == some since) entries))

/-- `apply_since`. -/
def applySince (snapshot : Json) (since : String) : Except String Json := do
  let object ← requiredObject snapshot "since"
  let object ← trimEntriesAfterCursor object since "deliveries"
  let object ← trimEntriesAfterCursor object since "dead_letters"
  return .object object

/-- `truncate_array`. -/
def truncateArray (object : JsonFields) (limit : ℕ) (field : String) :
    Except String (JsonFields × Bool) :=
  match object.get field with
  | none => .ok (object, false)
  | some entries => do
    let entries ← okOr ("fkst.observe snapshot field `" ++ field ++ "` must be an array") entries.asArray
    return (object.insert field (arrayJson (entries.take limit)), decide (limit < entries.length))

/-- `apply_limit`. -/
def applyLimit (snapshot : Json) (limit : ℕ) : Except String Json := do
  let object ← requiredObject snapshot "limit"
  let (object, deliveriesTruncated) ← truncateArray object limit "deliveries"
  let (object, deadLettersTruncated) ← truncateArray object limit "dead_letters"
  let object ← updateLimits object limit
  let object ← updateTruncated object deliveriesTruncated deadLettersTruncated
  return .object (match object.get "dead_letters_complete" with
    | some _ => object.insert "dead_letters_complete" (.bool !deadLettersTruncated)
    | none => object)

/-- The window of the options, applied. -/
def applyWindowOption (options : ObserveSnapshotOptions) (snapshot : Json) : Except String Json := do
  match ← validateDeadLetterWindow options.deadLetterWindow options.page with
  | some window => applyDeadLetterWindow snapshot window
  | none => return snapshot

/-- The page of the options, applied. -/
def applyPageOption (codecs : Codecs) (options : ObserveSnapshotOptions) (snapshot : Json) :
    Except String Json := do
  match ← validateDeadLetterPage codecs options.page options.since with
  | some page => applyDeadLetterPage codecs snapshot page options.limit
  | none => return snapshot

/-- The cursor of the options, applied. -/
def applySinceOption (options : ObserveSnapshotOptions) (snapshot : Json) : Except String Json :=
  match options.since with
  | some since => applySince snapshot since
  | none => .ok snapshot

/-- `apply_to_mock`, for the options of a snapshot. -/
def applyToMock (codecs : Codecs) (options : ObserveSnapshotOptions) (snapshot : Json) :
    Except String Json := do
  let snapshot ← applyWindowOption options snapshot
  let snapshot ← applyPageOption codecs options snapshot
  let snapshot ← applySinceOption options snapshot
  applyLimit snapshot options.limit

/-! ## The engine -/

/-- The validation of the options of a snapshot, which both sides make. -/
def validateOptions (codecs : Codecs) (options : ObserveSnapshotOptions) :
    Except String (Option DeadLetterPageOptions × Option DeadLetterWindow) := do
  let _ ← validateLimit options.limit
  validateSince options.since
  let page ← validateDeadLetterPage codecs options.page options.since
  let window ← validateDeadLetterWindow options.deadLetterWindow options.page
  return (page, window)

/-- `snapshot_for_durable_root`, once the store is open. -/
def snapshotForStore (codecs : Codecs) (s : Store) (durableRoot database : String) (nowMs : UInt64)
    (subscribers : Option (Std.ExtTreeSet String)) (options : ObserveSnapshotOptions) :
    Except String DeliveryObserveSnapshot := do
  let (page, window) ← validateOptions codecs options
  observeSnapshot codecs s durableRoot database
    ⟨nowMs, options.limit, options.since, page, window, subscribers⟩

/-! ## The sections of a snapshot -/

/-- A field that may be left out. -/
def consOptional (name : String) (value : Option Json) (rest : JsonFields) : JsonFields :=
  match value with
  | some value => .cons name value rest
  | none => rest

/-- What the JSON of a snapshot says, section by section. -/
structure Sections where
  deadLetters : List Json
  deadLettersComplete : Option Bool
  deliveries : List Json
  generatedAtMs : Json
  limit : ℕ
  page : Option DeliveryObservePage
  queues : Json
  schemaVersion : Json
  source : Json
  truncated : DeliveryObserveTruncated

/-- The sections, as an object. -/
def Sections.fields (d : Sections) : JsonFields :=
  .cons "dead_letters" (arrayJson d.deadLetters) <|
  consOptional "dead_letters_complete" (d.deadLettersComplete.map .bool) <|
  .cons "deliveries" (arrayJson d.deliveries) <|
  .cons "generated_at_ms" d.generatedAtMs <|
  .cons "limits" (limitsJson ⟨d.limit, d.limit⟩) <|
  consOptional "page" (d.page.map pageJson) <|
  .cons "queues" d.queues <|
  .cons "schema_version" d.schemaVersion <|
  .cons "source" d.source <|
  .cons "truncated" (truncatedJson d.truncated) .nil

namespace Sections

variable (d : Sections)

theorem asArray_arrayJson (items : List Json) : (arrayJson items).asArray = some items :=
  congrArg some (JsonItems.toList_ofList items)

theorem get_deadLetters : d.fields.get "dead_letters" = some (arrayJson d.deadLetters) := rfl

theorem get_deliveries : d.fields.get "deliveries" = some (arrayJson d.deliveries) := by
  obtain ⟨_, complete, _, _, _, _, _, _, _, _⟩ := d
  cases complete <;> rfl

theorem get_limits : d.fields.get "limits" = some (limitsJson ⟨d.limit, d.limit⟩) := by
  obtain ⟨_, complete, _, _, _, _, _, _, _, _⟩ := d
  cases complete <;> rfl

theorem get_truncated : d.fields.get "truncated" = some (truncatedJson d.truncated) := by
  obtain ⟨_, complete, _, _, _, page, _, _, _, _⟩ := d
  cases complete <;> cases page <;> rfl

theorem get_complete :
    d.fields.get "dead_letters_complete" = d.deadLettersComplete.map .bool := by
  obtain ⟨_, complete, _, _, _, page, _, _, _, _⟩ := d
  cases complete <;> cases page <;> rfl

theorem insert_deadLetters (items : List Json) :
    d.fields.insert "dead_letters" (arrayJson items) = { d with deadLetters := items }.fields := rfl

theorem insert_deliveries (items : List Json) :
    d.fields.insert "deliveries" (arrayJson items) = { d with deliveries := items }.fields := by
  obtain ⟨_, complete, _, _, _, _, _, _, _, _⟩ := d
  cases complete <;> rfl

theorem insert_complete (b : Bool) :
    d.fields.insert "dead_letters_complete" (.bool b) =
      { d with deadLettersComplete := some b }.fields := by
  obtain ⟨_, complete, _, _, _, _, _, _, _, _⟩ := d
  cases complete <;> rfl

theorem insert_limits (limit : ℕ) :
    d.fields.insert "limits" (limitsJson ⟨limit, limit⟩) = { d with limit := limit }.fields := by
  obtain ⟨_, complete, _, _, _, _, _, _, _, _⟩ := d
  cases complete <;> rfl

theorem insert_page (page : DeliveryObservePage) :
    d.fields.insert "page" (pageJson page) = { d with page := some page }.fields := by
  obtain ⟨_, complete, _, _, _, old, _, _, _, _⟩ := d
  cases complete <;> cases old <;> rfl

theorem insert_truncated (truncated : DeliveryObserveTruncated) :
    d.fields.insert "truncated" (truncatedJson truncated) =
      { d with truncated := truncated }.fields := by
  obtain ⟨_, complete, _, _, _, page, _, _, _, _⟩ := d
  cases complete <;> cases page <;> rfl

/-- The sections of a snapshot. -/
def ofSnapshot (snapshot : DeliveryObserveSnapshot) (limit : ℕ) : Sections where
  deadLetters := snapshot.deadLetters.map deadLetterEntryJson
  deadLettersComplete := snapshot.deadLettersComplete
  deliveries := snapshot.deliveries.map deliveryEntryJson
  generatedAtMs := .ofU64 snapshot.generatedAtMs
  limit := limit
  page := snapshot.page
  queues := arrayJson (snapshot.queues.map queueStateJson)
  schemaVersion := .ofU64 snapshot.schemaVersion.toUInt64
  source := snapshotSourceJson snapshot.source
  truncated := snapshot.truncated

/-- **The JSON of a snapshot is its sections**, in the order of their names. -/
theorem snapshotJson_eq (snapshot : DeliveryObserveSnapshot) {limit : ℕ}
    (hlimits : snapshot.limits = ⟨limit, limit⟩) :
    snapshotJson snapshot = .object (ofSnapshot snapshot limit).fields := by
  obtain ⟨_, _, _, limits, _, complete, _, _, _, page⟩ := snapshot
  obtain rfl : limits = ⟨limit, limit⟩ := hlimits
  -- the fields are inserted one after the other into an object that is sorted by name
  cases complete <;> cases page <;>
    simp (disch := decide +kernel) only [snapshotJson, Json.ofStruct, JsonFields.ofStruct,
      optionalField, Option.map_none, Option.map_some, List.append_nil, List.cons_append,
      List.nil_append, List.foldl_cons, List.foldl_nil, JsonFields.insert_nil,
      JsonFields.insert_front, JsonFields.insert_behind] <;>
    rfl

end Sections

/-! ## The options, applied to the sections -/

theorem get_deadAtMs (entry : DeadLetterObserveEntry) :
    (deadLetterEntryJson entry).get "dead_at_ms" = some (.ofU64 entry.deadAtMs) := by
  simp [deadLetterEntryJson, Json.ofStruct, JsonFields.ofStruct, Json.get, JsonFields.get_insert]

theorem get_deadLetterId (entry : DeadLetterObserveEntry) :
    (deadLetterEntryJson entry).get "delivery_id" = some (.string entry.deliveryId) := by
  simp [deadLetterEntryJson, Json.ofStruct, JsonFields.ofStruct, Json.get, JsonFields.get_insert]

theorem get_deliveryId (entry : DeliveryObserveEntry) :
    (deliveryEntryJson entry).get "delivery_id" = some (.string entry.deliveryId) := by
  simp [deliveryEntryJson, Json.ofStruct, JsonFields.ofStruct, Json.get, JsonFields.get_insert]

/-- The JSON of a dead letter. -/
def deadJson (codecs : Codecs) (d : DeadRecord) : Json :=
  deadLetterEntryJson (deadLetterObserveEntry codecs d)

/-- The JSON of a live delivery. -/
def liveJson (codecs : Codecs) (nowMs : UInt64) (r : DeliveryRecord) : Json :=
  deliveryEntryJson (deliveryObserveEntry codecs nowMs r)

theorem deadJson_deadAtMs (codecs : Codecs) (d : DeadRecord) :
    ((deadJson codecs d).get "dead_at_ms").bind Json.asU64 = some d.deadAtMs := by
  rw [deadJson, get_deadAtMs]
  rfl

theorem deadJson_deliveryId (codecs : Codecs) (d : DeadRecord) :
    ((deadJson codecs d).get "delivery_id").bind Json.asStr = some d.deliveryId := by
  rw [deadJson, get_deadLetterId]
  rfl

theorem liveJson_deliveryId (codecs : Codecs) (nowMs : UInt64) (r : DeliveryRecord) :
    ((liveJson codecs nowMs r).get "delivery_id").bind Json.asStr = some r.deliveryId := by
  rw [liveJson, get_deliveryId]
  rfl

namespace Sections

variable (codecs : Codecs) (d : Sections)

theorem okOr_some {α : Type} (text : String) (a : α) : okOr text (some a) = .ok a := rfl

theorem requiredObject_object (fields : JsonFields) (optionName : String) :
    requiredObject (.object fields) optionName = .ok fields := rfl

theorem requiredDeadLetters_fields (optionName : String) :
    requiredDeadLetters d.fields optionName = .ok d.deadLetters := by
  rw [requiredDeadLetters, get_deadLetters, okOr_some, ok_bind, asArray_arrayJson, okOr_some]

/-- The truncation flags, in the order of their names. -/
def truncatedFields (truncated : DeliveryObserveTruncated) : JsonFields :=
  .cons "dead_letters" (.bool truncated.deadLetters) <|
  .cons "deliveries" (.bool truncated.deliveries) .nil

theorem truncatedJson_eq (truncated : DeliveryObserveTruncated) :
    truncatedJson truncated = .object (truncatedFields truncated) := by
  simp (disch := decide +kernel) only [truncatedJson, Json.ofStruct, JsonFields.ofStruct,
    List.foldl_cons, List.foldl_nil, JsonFields.insert_nil, JsonFields.insert_front]
  rfl

theorem insert_truncatedFields (truncated : DeliveryObserveTruncated) (deliveries deadLetters : Bool) :
    ((truncatedFields truncated).insert "deliveries" (.bool deliveries)).insert "dead_letters"
      (.bool deadLetters) = truncatedFields ⟨deliveries, deadLetters⟩ := by
  rw [truncatedFields, JsonFields.insert_behind _ _ _ (by decide) (by decide +kernel)]
  rfl

theorem updateTruncated_fields (deliveries deadLetters : Bool) :
    updateTruncated d.fields deliveries deadLetters =
      .ok { d with truncated := ⟨d.truncated.deliveries || deliveries,
        d.truncated.deadLetters || deadLetters⟩ }.fields := by
  rw [updateTruncated, get_truncated, truncatedJson_eq]
  show Except.ok (d.fields.insert "truncated" (.object ((JsonFields.insert _ _ _).insert _ _))) = _
  rw [insert_truncatedFields, ← truncatedJson_eq, insert_truncated]

/-- The limits, in the order of their names. -/
def limitsFields (maxDeliveries maxDeadLetters : ℕ) : JsonFields :=
  .cons "max_dead_letters" (ofUsize maxDeadLetters) <|
  .cons "max_deliveries" (ofUsize maxDeliveries) .nil

theorem limitsJson_eq (limits : DeliveryObserveLimits) :
    limitsJson limits = .object (limitsFields limits.maxDeliveries limits.maxDeadLetters) := by
  simp (disch := decide +kernel) only [limitsJson, Json.ofStruct, JsonFields.ofStruct,
    List.foldl_cons, List.foldl_nil, JsonFields.insert_nil, JsonFields.insert_front]
  rfl

theorem insert_limitsFields (a b maxDeliveries maxDeadLetters : ℕ) :
    ((limitsFields a b).insert "max_deliveries" (ofUsize maxDeliveries)).insert "max_dead_letters"
      (ofUsize maxDeadLetters) = limitsFields maxDeliveries maxDeadLetters := by
  rw [limitsFields, JsonFields.insert_behind _ _ _ (by decide) (by decide +kernel)]
  rfl

theorem updateLimits_fields (limit : ℕ) :
    updateLimits d.fields limit = .ok { d with limit := limit }.fields := by
  rw [updateLimits, get_limits, limitsJson_eq]
  show Except.ok (d.fields.insert "limits" (.object ((JsonFields.insert _ _ _).insert _ _))) = _
  rw [insert_limitsFields, ← limitsJson_eq ⟨limit, limit⟩, insert_limits]

/-! ### The window -/

theorem filterWindow_map (window : DeadLetterWindow) : ∀ rows : List DeadRecord,
    filterWindow window (rows.map (deadJson codecs)) =
      .ok ((rows.filter (inWindow (some window))).map (deadJson codecs))
  | [] => rfl
  | row :: rows => by
    rw [List.map_cons, filterWindow, entryDeadAtMs, deadJson_deadAtMs, filterWindow_map window rows,
      List.filter_cons]
    show Except.ok (if window.startMs ≤ row.deadAtMs ∧ row.deadAtMs < window.endMs
      then deadJson codecs row :: _ else _) = _
    by_cases hin : window.startMs ≤ row.deadAtMs ∧ row.deadAtMs < window.endMs
    · have hwindow : inWindow (some window) row = true := decide_eq_true hin
      rw [if_pos hin, if_pos hwindow, List.map_cons]
    · have hwindow : ¬ inWindow (some window) row = true := by simpa [inWindow] using hin
      rw [if_neg hin, if_neg hwindow]

theorem applyDeadLetterWindow_fields (window : DeadLetterWindow) {rows : List DeadRecord}
    (hrows : d.deadLetters = rows.map (deadJson codecs)) :
    applyDeadLetterWindow (.object d.fields) window = .ok (.object { d with
      deadLetters := (rows.filter (inWindow (some window))).map (deadJson codecs)
      deadLettersComplete := some true }.fields) := by
  rw [applyDeadLetterWindow, requiredObject_object, ok_bind, requiredDeadLetters_fields, ok_bind, hrows,
    filterWindow_map, ok_bind, insert_deadLetters]
  dsimp only
  rw [insert_complete]
  rfl

/-! ### The page -/

/-- An entry of a page with its key. -/
def keyedOf (row : DeadRecord) : KeyedEntry := ⟨row.deadAtMs, row.deliveryId, deadJson codecs row⟩

theorem mapM_keyedEntry : ∀ {rows : List DeadRecord}, (∀ row ∈ rows, row.deliveryId ≠ "") →
    (rows.map (deadJson codecs)).mapM keyedEntry = .ok (rows.map (keyedOf codecs))
  | [], _ => rfl
  | row :: rows, hids => by
    have hid : (some row.deliveryId).filter (· != "") = some row.deliveryId := by
      simpa using hids row List.mem_cons_self
    have hkeyed : keyedEntry (deadJson codecs row) = .ok (keyedOf codecs row) := by
      rw [keyedEntry, entryDeadAtMs, deadJson_deadAtMs, deadJson_deliveryId, hid]
      rfl
    rw [List.map_cons, List.mapM_cons, hkeyed,
      mapM_keyedEntry fun row hrow => hids row (List.mem_cons_of_mem _ hrow)]
    rfl

theorem mergeSort_keyedOf {rows : List DeadRecord} (hrows : Listing timeKey rows) :
    ((rows.map (keyedOf codecs)).mergeSort fun left right => (compareKeyed left right).isLE) =
      rows.map (keyedOf codecs) := by
  refine List.mergeSort_of_pairwise ?_
  rw [List.pairwise_map]
  exact List.Pairwise.imp (fun hlt => compareDeadLetters_isLE.2 hlt.le) hrows

theorem filter_keyedOf (after : Option DeadLetterPageCursor) (rows : List DeadRecord) :
    ((rows.map (keyedOf codecs)).filter fun entry => after.all fun after =>
      timeIdLt after.deadAtMs after.deliveryId entry.deadAtMs entry.deliveryId) =
      (rows.filter (behind after)).map (keyedOf codecs) := by
  rw [List.filter_map]
  refine congrArg (List.map (keyedOf codecs)) (List.filter_congr fun row _ => ?_)
  cases after with
  | none => rfl
  | some cursor =>
    show timeIdLt _ _ _ _ = decide _
    rw [timeIdLt_eq]
    rfl

/-- The page behind a cursor. -/
def pageOf (limit : ℕ) (rows : List DeadRecord) : DeliveryObservePage :=
  ⟨"dead_letters", if limit < rows.length then (rows.take limit).getLast?.map fun record =>
    encodeDeadLetterCursor codecs ⟨record.deadAtMs, record.deliveryId⟩ else none⟩

theorem applyDeadLetterPage_fields (page : DeadLetterPageOptions) (limit : ℕ) {rows : List DeadRecord}
    (hlisting : Listing timeKey rows) (hids : ∀ row ∈ rows, row.deliveryId ≠ "")
    (hrows : d.deadLetters = rows.map (deadJson codecs)) :
    applyDeadLetterPage codecs (.object d.fields) page limit = .ok (.object { d with
      deadLetters := ((rows.filter (behind page.after)).take limit).map (deadJson codecs)
      page := some (pageOf codecs limit (rows.filter (behind page.after)))
      truncated := ⟨d.truncated.deliveries || false, d.truncated.deadLetters ||
        decide (limit < (rows.filter (behind page.after)).length)⟩ }.fields) := by
  rw [applyDeadLetterPage, requiredObject_object, ok_bind, requiredDeadLetters_fields, ok_bind, hrows,
    mapM_keyedEntry codecs hids, ok_bind, mergeSort_keyedOf codecs hlisting]
  dsimp only
  rw [filter_keyedOf, insert_deadLetters, insert_page, updateTruncated_fields, ok_bind,
    List.length_map, ← List.map_take, List.getLast?_map, List.map_map, Option.map_map]
  simp only [decide_eq_true_eq]
  rfl

/-! ### The cursor and the limit -/

theorem trim_deliveries (since : String) : trimEntriesAfterCursor d.fields since "deliveries" =
    .ok { d with deliveries := trimAfter (fun entry =>
      (entry.get "delivery_id").bind Json.asStr == some since) d.deliveries }.fields := by
  rw [trimEntriesAfterCursor, get_deliveries]
  show (okOr _ (arrayJson d.deliveries).asArray >>= _) = _
  rw [asArray_arrayJson, okOr_some, ok_bind, insert_deliveries]
  rfl

theorem trim_deadLetters (since : String) : trimEntriesAfterCursor d.fields since "dead_letters" =
    .ok { d with deadLetters := trimAfter (fun entry =>
      (entry.get "delivery_id").bind Json.asStr == some since) d.deadLetters }.fields := by
  rw [trimEntriesAfterCursor, get_deadLetters]
  show (okOr _ (arrayJson d.deadLetters).asArray >>= _) = _
  rw [asArray_arrayJson, okOr_some, ok_bind, insert_deadLetters]
  rfl

theorem applySince_fields (nowMs : UInt64) (since : String) {live : List DeliveryRecord}
    {rows : List DeadRecord} (hlive : d.deliveries = live.map (liveJson codecs nowMs))
    (hrows : d.deadLetters = rows.map (deadJson codecs)) :
    applySince (.object d.fields) since = .ok (.object { d with
      deliveries := (trimSince DeliveryRecord.deliveryId (some since) live).map (liveJson codecs nowMs)
      deadLetters := (trimSince DeadRecord.deliveryId (some since) rows).map
        (deadJson codecs) }.fields) := by
  have hlives : trimAfter (fun entry => (entry.get "delivery_id").bind Json.asStr == some since)
      d.deliveries =
        (trimSince DeliveryRecord.deliveryId (some since) live).map (liveJson codecs nowMs) := by
    rw [hlive, trimAfter_map]
    refine congrArg (fun named => (trimAfter named live).map _) (funext fun r => ?_)
    simp [liveJson_deliveryId]
  have hdeads : trimAfter (fun entry => (entry.get "delivery_id").bind Json.asStr == some since)
      d.deadLetters = (trimSince DeadRecord.deliveryId (some since) rows).map (deadJson codecs) := by
    rw [hrows, trimAfter_map]
    refine congrArg (fun named => (trimAfter named rows).map _) (funext fun r => ?_)
    simp [deadJson_deliveryId]
  rw [applySince, requiredObject_object, ok_bind, trim_deliveries, ok_bind, hlives, trim_deadLetters,
    ok_bind, hdeads]
  rfl

theorem truncate_deliveries (limit : ℕ) : truncateArray d.fields limit "deliveries" =
    .ok ({ d with deliveries := d.deliveries.take limit }.fields,
      decide (limit < d.deliveries.length)) := by
  rw [truncateArray, get_deliveries]
  show (okOr _ (arrayJson d.deliveries).asArray >>= _) = _
  rw [asArray_arrayJson, okOr_some, ok_bind, insert_deliveries]
  rfl

theorem truncate_deadLetters (limit : ℕ) : truncateArray d.fields limit "dead_letters" =
    .ok ({ d with deadLetters := d.deadLetters.take limit }.fields,
      decide (limit < d.deadLetters.length)) := by
  rw [truncateArray, get_deadLetters]
  show (okOr _ (arrayJson d.deadLetters).asArray >>= _) = _
  rw [asArray_arrayJson, okOr_some, ok_bind, insert_deadLetters]
  rfl

theorem applyLimit_fields (limit : ℕ) :
    applyLimit (.object d.fields) limit = .ok (.object { d with
      deliveries := d.deliveries.take limit
      deadLetters := d.deadLetters.take limit
      limit := limit
      truncated := ⟨d.truncated.deliveries || decide (limit < d.deliveries.length),
        d.truncated.deadLetters || decide (limit < d.deadLetters.length)⟩
      deadLettersComplete := d.deadLettersComplete.map
        fun _ => !decide (limit < d.deadLetters.length) }.fields) := by
  rw [applyLimit, requiredObject_object, ok_bind, truncate_deliveries, ok_bind]
  dsimp only
  rw [truncate_deadLetters, ok_bind]
  dsimp only
  rw [updateLimits_fields, ok_bind, updateTruncated_fields, ok_bind, get_complete]
  cases hcomplete : d.deadLettersComplete with
  | none => rfl
  | some b =>
    show Except.ok (Json.object (JsonFields.insert _ _ _)) = _
    rw [insert_complete]
    rfl

end Sections

/-! ## The mock and the engine -/

section Agreement

variable {codecs : Codecs} {durableRoot database : String} {options : DeliveryObserveOptions}
  {queues : Table String QueueAccumulator} {live : List DeliveryRecord} {rows : List DeadRecord}

/-- The sections of a snapshot without a window or a page, before the limit is applied. -/
def readSections (codecs : Codecs) (durableRoot database : String) (options : DeliveryObserveOptions)
    (queues : Table String QueueAccumulator) (live : List DeliveryRecord) (rows : List DeadRecord) :
    Sections where
  deadLetters := rows.map (deadJson codecs)
  deadLettersComplete := none
  deliveries := live.map (liveJson codecs options.nowMs)
  generatedAtMs := .ofU64 options.nowMs
  limit := options.limit
  page := none
  queues := arrayJson ((queues.toList.map fun (queue, acc) =>
    acc.finish queue options.nowMs options.currentSubscriberQueues).map queueStateJson)
  schemaVersion := .ofU64 1
  source := snapshotSourceJson ⟨durableRoot, database, readSemantics, historySemantics⟩
  truncated := ⟨false, false⟩

/-- The JSON of a snapshot that shows everything it was made of. -/
theorem snapshotJson_everything (hpage : options.deadLetterPage = none)
    (hwindow : options.deadLetterWindow = none) (hlive : live.length ≤ options.limit)
    (hrows : rows.length ≤ options.limit) :
    snapshotJson (makeSnapshot codecs durableRoot database options queues live rows) =
      .object (readSections codecs durableRoot database options queues live rows).fields := by
  rw [Sections.snapshotJson_eq _ rfl]
  simp only [Sections.ofSnapshot, makeSnapshot, readSections, List.take_of_length_le hlive,
    List.take_of_length_le hrows, List.map_map, hpage, hwindow, Option.map_none,
    Nat.not_lt.2 hlive, Nat.not_lt.2 hrows, decide_false]
  rfl

variable (options) in
/-- The limit makes a snapshot of sections in which the rest of the options is already applied. -/
theorem applyLimit_eq (full : DeliveryObserveOptions) {d : Sections}
    (hfull : full.nowMs = options.nowMs ∧
      full.currentSubscriberQueues = options.currentSubscriberQueues)
    (hread : d = { readSections codecs durableRoot database full queues live [] with
      deadLetters := d.deadLetters
      deadLettersComplete := d.deadLettersComplete
      page := d.page
      truncated := ⟨false, d.truncated.deadLetters⟩ })
    (hdead : d.deadLetters.take options.limit = (rows.take options.limit).map (deadJson codecs))
    (htruncated : (d.truncated.deadLetters || decide (options.limit < d.deadLetters.length)) =
      decide (options.limit < rows.length))
    (hcomplete : (d.deadLettersComplete.map fun _ => !decide (options.limit < d.deadLetters.length)) =
      options.deadLetterWindow.map fun _ => !decide (options.limit < rows.length))
    (hpage : d.page = options.deadLetterPage.map fun _ => Sections.pageOf codecs options.limit rows) :
    applyLimit (.object d.fields) options.limit =
      .ok (snapshotJson (makeSnapshot codecs durableRoot database options queues live rows)) := by
  rw [Sections.applyLimit_fields, Sections.snapshotJson_eq _ rfl, hdead, htruncated, hcomplete, hpage,
    hread]
  refine congrArg (fun d : Sections => Except.ok (Json.object d.fields)) ?_
  simp only [Sections.ofSnapshot, makeSnapshot, readSections, hfull.1, hfull.2, Bool.false_or,
    List.length_map, ← List.map_take, List.map_map, Sections.pageOf, decide_eq_true_eq]
  rfl

/-- The cursor of the options, applied to sections. -/
theorem applySinceOption_fields (d : Sections) (nowMs : UInt64) (options : ObserveSnapshotOptions)
    (hlive : d.deliveries = live.map (liveJson codecs nowMs))
    (hrows : d.deadLetters = rows.map (deadJson codecs)) :
    applySinceOption options (.object d.fields) = .ok (.object { d with
      deliveries := (trimSince DeliveryRecord.deliveryId options.since live).map (liveJson codecs nowMs)
      deadLetters := (trimSince DeadRecord.deliveryId options.since rows).map
        (deadJson codecs) }.fields) := by
  rw [applySinceOption]
  cases options.since with
  | none =>
    obtain ⟨deadLetters, _, deliveries, _, _, _, _, _, _, _⟩ := d
    obtain rfl : deliveries = live.map (liveJson codecs nowMs) := hlive
    obtain rfl : deadLetters = rows.map (deadJson codecs) := hrows
    rfl
  | some since => exact Sections.applySince_fields codecs d nowMs since hlive hrows

/-- What a validation of the options says. -/
theorem validateOptions_eq_ok {request : ObserveSnapshotOptions} {page : Option DeadLetterPageOptions}
    {window : Option DeadLetterWindow} (h : validateOptions codecs request = .ok (page, window)) :
    request.since ≠ some "" ∧
      validateDeadLetterPage codecs request.page request.since = .ok page ∧
      validateDeadLetterWindow request.deadLetterWindow request.page = .ok window := by
  rw [validateOptions] at h
  obtain ⟨_, _, h⟩ := bind_eq_ok.1 h
  obtain ⟨_, hsince, h⟩ := bind_eq_ok.1 h
  obtain ⟨_, hpage, h⟩ := bind_eq_ok.1 h
  obtain ⟨_, hwindow, h⟩ := bind_eq_ok.1 h
  obtain ⟨rfl, rfl⟩ := Prod.mk.inj (Except.ok.inj h)
  exact ⟨bailIf_eq_ok.1 hsince, hpage, hwindow⟩

/-- A page comes without a cursor and without a window. -/
theorem alone_of_page {request : ObserveSnapshotOptions} {page : DeadLetterPageOptions}
    {window : Option DeadLetterWindow}
    (hpage : validateDeadLetterPage codecs request.page request.since = .ok (some page))
    (hwindow : validateDeadLetterWindow request.deadLetterWindow request.page = .ok window) :
    request.since = none ∧ window = none := by
  cases hrequest : request.page with
  | none =>
    rw [hrequest] at hpage
    cases hpage
  | some p =>
    rw [hrequest, validateDeadLetterPage] at hpage
    obtain ⟨_, _, hpage⟩ := bind_eq_ok.1 hpage
    obtain ⟨_, hsince, _⟩ := bind_eq_ok.1 hpage
    refine ⟨by simpa using bailIf_eq_ok.1 hsince, ?_⟩
    cases hw : request.deadLetterWindow with
    | none =>
      rw [hw] at hwindow
      exact (Except.ok.inj hwindow).symm
    | some w =>
      rw [hw, hrequest, validateDeadLetterWindow] at hwindow
      obtain ⟨_, hpage, _⟩ := bind_eq_ok.1 hwindow
      exact absurd rfl (bailIf_eq_ok.1 hpage)

/-- The options of a snapshot, once they are validated. -/
def ObserveSnapshotOptions.validated (request : ObserveSnapshotOptions) (nowMs : UInt64)
    (subscribers : Option (Std.ExtTreeSet String)) (page : Option DeadLetterPageOptions)
    (window : Option DeadLetterWindow) : DeliveryObserveOptions :=
  ⟨nowMs, request.limit, request.since, page, window, subscribers⟩

variable (nowMs : UInt64) (subscribers : Option (Std.ExtTreeSet String)) (full : ℕ)

/-- **The options, applied to everything**, make the snapshot with these options. -/
theorem applyToMock_readSections {request : ObserveSnapshotOptions}
    {page : Option DeadLetterPageOptions} {window : Option DeadLetterWindow}
    (h : validateOptions codecs request = .ok (page, window)) (hlisting : Listing timeKey rows)
    (hids : ∀ row ∈ rows, row.deliveryId ≠ "") :
    applyToMock codecs request (.object (readSections codecs durableRoot database
        ⟨nowMs, full, none, none, none, subscribers⟩ queues live rows).fields) =
      .ok (snapshotJson (makeSnapshot codecs durableRoot database
        (request.validated nowMs subscribers page window) queues
        (trimSince DeliveryRecord.deliveryId request.since live)
        (trimSince DeadRecord.deliveryId request.since (rows.filter fun row =>
          inWindow window row && behind (page.bind (·.after)) row)))) := by
  obtain ⟨_, hpage, hwindow⟩ := validateOptions_eq_ok h
  rw [applyToMock, applyWindowOption, hwindow, ok_bind]
  cases page with
  | some page =>
    obtain ⟨hsince, rfl⟩ := alone_of_page hpage hwindow
    dsimp only
    rw [pure_bind, applyPageOption, hpage, ok_bind]
    dsimp only
    rw [Sections.applyDeadLetterPage_fields codecs _ page request.limit hlisting hids rfl, ok_bind,
      applySinceOption, hsince, ok_bind]
    -- the page is not longer than the limit, which therefore cuts nothing more
    have hshort : ¬ request.limit <
        (((rows.filter (behind page.after)).take request.limit).map (deadJson codecs)).length := by
      rw [List.length_map, List.length_take]
      omega
    refine applyLimit_eq (request.validated nowMs subscribers (some page) none)
      ⟨nowMs, full, none, none, none, subscribers⟩ ⟨rfl, rfl⟩ rfl ?_ ?_ rfl rfl
    · show (((rows.filter (behind page.after)).take request.limit).map (deadJson codecs)).take
        request.limit = ((rows.filter (behind page.after)).take request.limit).map (deadJson codecs)
      rw [← List.map_take, List.take_take, Nat.min_self]
    · show (false || decide (request.limit < (rows.filter (behind page.after)).length) ||
        decide (request.limit < _)) = decide (request.limit < (rows.filter (behind page.after)).length)
      rw [decide_eq_false hshort, Bool.or_false, Bool.false_or]
  | none =>
    have hselected : (rows.filter fun row =>
        inWindow window row && behind ((none : Option DeadLetterPageOptions).bind (·.after)) row) =
          rows.filter (inWindow window) :=
      List.filter_congr fun row _ => Bool.and_true _
    rw [hselected]
    cases window with
    | none =>
      have hall : rows.filter (inWindow none) = rows := List.filter_eq_self.2 fun _ _ => rfl
      rw [hall]
      dsimp only
      rw [pure_bind, applyPageOption, hpage, ok_bind]
      dsimp only
      rw [pure_bind, applySinceOption_fields _ nowMs request rfl rfl, ok_bind]
      refine applyLimit_eq (request.validated nowMs subscribers none none)
        ⟨nowMs, full, none, none, none, subscribers⟩ ⟨rfl, rfl⟩ rfl List.map_take.symm ?_ rfl rfl
      exact (Bool.false_or _).trans (by rw [List.length_map])
    | some window =>
      dsimp only
      rw [Sections.applyDeadLetterWindow_fields codecs _ window rfl, ok_bind, applyPageOption, hpage,
        ok_bind]
      dsimp only
      rw [pure_bind, applySinceOption_fields _ nowMs request rfl rfl, ok_bind]
      refine applyLimit_eq (request.validated nowMs subscribers none (some window))
        ⟨nowMs, full, none, none, none, subscribers⟩ ⟨rfl, rfl⟩ rfl List.map_take.symm ?_ ?_ rfl
      · exact (Bool.false_or _).trans (by rw [List.length_map])
      · show some (!decide (request.limit < (List.map _ _).length)) = some (!decide (_ < _))
        rw [List.length_map]
        rfl

end Agreement

/-- A mock that is the snapshot of everything, and the engine, agree on the options of a request. -/
def MockAgrees (codecs : Codecs) (s : Store) (durableRoot database : String) (nowMs : UInt64)
    (subscribers : Option (Std.ExtTreeSet String)) (full : ℕ) (request : ObserveSnapshotOptions) :
    Prop :=
  ∃ everything snapshot,
    observeSnapshot codecs s durableRoot database ⟨nowMs, full, none, none, none, subscribers⟩ =
      .ok everything ∧
    snapshotForStore codecs s durableRoot database nowMs subscribers request = .ok snapshot ∧
    applyToMock codecs request (snapshotJson everything) = .ok (snapshotJson snapshot)

theorem snapshotForStore_eq {codecs : Codecs} {request : ObserveSnapshotOptions}
    {page : Option DeadLetterPageOptions} {window : Option DeadLetterWindow}
    (h : validateOptions codecs request = .ok (page, window)) (s : Store)
    (durableRoot database : String) (nowMs : UInt64) (subscribers : Option (Std.ExtTreeSet String)) :
    snapshotForStore codecs s durableRoot database nowMs subscribers request =
      observeSnapshot codecs s durableRoot database
        (request.validated nowMs subscribers page window) := by
  rw [snapshotForStore, h]
  rfl

/-- **The mock observes like the engine.**  In every store that calls can reach, and for all options
that are valid, applying them to the JSON of the snapshot of everything gives the JSON of the snapshot
with these options. -/
theorem mockedObserve_eq (codecs : Codecs) (env : Env) (acts : List Act)
    (henqueued : ∀ e ∈ (World.init.run env acts).2, EnqueuesRuntimeKey e.txn)
    (durableRoot database : String) (nowMs : UInt64) (subscribers : Option (Std.ExtTreeSet String))
    (full : ℕ) (hlive : (World.init.run env acts).1.store.deliveryById.size ≤ full)
    (hdead : (World.init.run env acts).1.store.deadById.size ≤ full)
    (request : ObserveSnapshotOptions) (hvalid : ∃ valid, validateOptions codecs request = .ok valid) :
    MockAgrees codecs (World.init.run env acts).1.store durableRoot database nowMs subscribers full
      request := by
  obtain ⟨⟨page, window⟩, hvalid⟩ := hvalid
  have hinv := (World.run_inv env acts).store
  have hkeys := keyedByRuntimeKeys_run env acts henqueued
  generalize (World.init.run env acts).1.store = s at *
  have hlisting := listing_deadListing hinv
  have hids : ∀ row ∈ deadListing s, row.deliveryId ≠ "" := fun row hrow =>
    runtimeKey_ne_empty (hkeys _ row (deadById_of_mem_deadListing hinv hrow))
  have hlive : (deliveryListing s).length ≤ full := by
    rwa [deliveryListing, List.length_mergeSort, deliveryRecords, List.length_map,
      Std.ExtTreeMap.length_toList]
  have hdead : (deadListing s).length ≤ full := by
    rwa [deadListing, List.length_mergeSort, scanRecords, List.length_map,
      Std.ExtTreeMap.length_toList]
  have hselected : selected s ⟨nowMs, full, none, none, none, subscribers⟩ = deadListing s :=
    List.filter_eq_self.2 fun _ _ => rfl
  have haccepted : Accepted (request.validated nowMs subscribers page window) := by
    obtain ⟨hsince, hpage, hwindow⟩ := validateOptions_eq_ok hvalid
    refine ⟨hsince, fun hsome => ?_, fun hsome => ?_⟩
    · obtain ⟨p, rfl⟩ := Option.isSome_iff_exists.1 hsome
      exact (alone_of_page hpage hwindow).1
    · obtain ⟨p, rfl⟩ := Option.isSome_iff_exists.1 hsome
      exact (alone_of_page hpage hwindow).2
  refine ⟨_, _, observeSnapshot_eq hinv hkeys codecs durableRoot database
    ⟨by simp, fun _ => rfl, fun _ => rfl⟩, (snapshotForStore_eq hvalid _ _ _ _ _).trans
      (observeSnapshot_eq hinv hkeys codecs durableRoot database haccepted), ?_⟩
  rw [hselected, snapshotJson_everything rfl rfl hlive hdead]
  exact applyToMock_readSections nowMs subscribers full hvalid hlisting hids

/-- The theorem at two dead letters, and a window with a cursor. -/
theorem mockedObserve_eq_twoDead :
    MockAgrees Sample.codecs (World.init.run Delivery.Sample.env Sample.twoDead).1.store "root"
      "root/delivery.redb" 5 none 10 ⟨1, some "a", none, some ⟨0, 10⟩⟩ :=
  mockedObserve_eq Sample.codecs Delivery.Sample.env Sample.twoDead
    Sample.enqueuesRuntimeKey_twoDead "root" "root/delivery.redb" 5 none 10 (by decide +kernel)
    (by decide +kernel) ⟨1, some "a", none, some ⟨0, 10⟩⟩ ⟨(none, some ⟨0, 10⟩), rfl⟩

end Fkst.Observe
