import Fkst.Delivery.Types

/-!
# Liveness of starving queues

`queue_starvation.rs`: before the router publishes an event whose source is a report of the queue
starvation detector, it writes what it knows about the queue into the payload, over whatever the
caller put there.
-/

set_option autoImplicit false

namespace Fkst.Router

open Delivery (SourceRef)

/-- `fkst_common::Event`. -/
structure Event where
  queue : String
  payload : Json
  ts : UInt64
deriving DecidableEq

/-- `NEXT_ACTION`. -/
def nextAction : String := "route through normal intake consensus implementation review pipeline"

/-- What a reference of the detector says. -/
structure QueueStarvationSource where
  repoOwner : String
  repoName : String
  state : String
  prNumber : String
  owner : String
  issueRepoOwner : String
  issueRepoName : String
  issueNumber : String

namespace QueueStarvationSource

/-- `item_id`. -/
def itemId (source : QueueStarvationSource) : String :=
  source.owner ++ "/issue/" ++ source.issueRepoOwner ++ "/" ++ source.issueRepoName ++ "/" ++
    source.issueNumber

/-- `linked_item_id`. -/
def linkedItemId (source : QueueStarvationSource) : String :=
  source.owner ++ "/pr/" ++ source.repoOwner ++ "/" ++ source.repoName ++ "/" ++ source.prNumber

/-- `has_nonempty_segments`. -/
def hasNonemptySegments (source : QueueStarvationSource) : Bool :=
  [source.repoOwner, source.repoName, source.state, source.prNumber, source.owner,
    source.issueRepoOwner, source.issueRepoName, source.issueNumber].all (!·.isEmpty)

end QueueStarvationSource

/-- `queue_starvation_source`: the segments after the first `queue-starvation`. -/
def queueStarvationSource (source : SourceRef) : Option QueueStarvationSource :=
  let segments := (source.reference.toList.splitOn '/').map String.ofList
  match (segments.dropWhile (· != "queue-starvation")).tail with
  | repoOwner :: repoName :: state :: pr :: prNumber :: proposal :: owner :: issue ::
      issueRepoOwner :: issueRepoName :: issueNumber :: _ =>
    if pr = "pr" ∧ proposal = "proposal" ∧ issue = "issue" then
      let parsed : QueueStarvationSource :=
        ⟨repoOwner, repoName, state, prNumber, owner, issueRepoOwner, issueRepoName, issueNumber⟩
      if parsed.hasNonemptySegments then some parsed else none
    else none
  | _ => none

/-- `payload_u64`: the first of the keys that holds a number, in the payload or in its `watchdog`. -/
def payloadU64 (payload : Json) (keys : List String) : Option UInt64 :=
  keys.findSome? fun key =>
    ((payload.get key).or ((payload.get "watchdog").bind (·.get key))).bind Json.asU64

/-- `u64::saturating_mul`. -/
def saturatingMul (a b : UInt64) : UInt64 := clampU64 (a.toNat * b.toNat)

/-- `payload_seconds`. -/
def payloadSeconds (payload : Json) (secondKeys minuteKeys : List String) : Option UInt64 :=
  match payloadU64 payload secondKeys with
  | some seconds => some seconds
  | none => (payloadU64 payload minuteKeys).map (saturatingMul · 60)

/-- `json!` of an object. -/
def jsonObject (fields : List (String × Json)) : Json :=
  .object (fields.foldl (fun object (key, value) => object.insert key value) .nil)

/-- `queue_liveness_json`. -/
def queueLivenessJson (event : Event) (source : Option SourceRef) : Option Json := do
  let source ← queueStarvationSource (← source)
  let ageSeconds ← payloadSeconds event.payload ["queue_head_age_seconds", "age_seconds"]
    ["queue_head_age_minutes", "age_minutes"]
  let sloSeconds ← payloadSeconds event.payload ["threshold_seconds", "slo_seconds"]
    ["threshold_minutes", "slo_minutes"]
  let order := (payloadU64 event.payload ["queue_order", "order"]).getD 1
  return jsonObject [
    ("item_id", .string source.itemId),
    ("linked_item_id", .string source.linkedItemId),
    ("queue", .string event.queue),
    ("owner", .string source.owner),
    ("state", .string source.state),
    ("order", .number (.posInt order)),
    ("age_seconds", .number (.posInt ageSeconds)),
    ("slo_seconds", .number (.posInt sloSeconds)),
    ("breached", .bool (sloSeconds ≤ ageSeconds)),
    ("next_action", .string nextAction)]

/-- `canonicalize_event`.  The assignment panics on a payload that cannot have fields, but then there
was no liveness to read off it (`exists_setIndex_of_liveness`). -/
def canonicalizeEvent (event : Event) (source : Option SourceRef) : Event :=
  match queueLivenessJson event source with
  | none => event
  | some liveness =>
    { event with payload := (event.payload.setIndex "queue_liveness" liveness).getD event.payload }

/-- Only an object has numbers to read. -/
theorem exists_object_of_payloadU64 {payload : Json} {keys : List String} {n : UInt64}
    (h : payloadU64 payload keys = some n) : ∃ fields, payload = .object fields := by
  obtain ⟨key, _, hkey⟩ := List.exists_of_findSome?_eq_some h
  cases payload with
  | object fields => exact ⟨fields, rfl⟩
  | _ => simp [Json.get] at hkey

/-- The assignment of `canonicalize_event` does not panic. -/
theorem exists_setIndex_of_liveness {event : Event} {source : Option SourceRef} {liveness : Json}
    (h : queueLivenessJson event source = some liveness) :
    ∃ payload, event.payload.setIndex "queue_liveness" liveness = some payload := by
  simp only [queueLivenessJson, bind, Option.bind_eq_some_iff] at h
  obtain ⟨_, _, _, _, ageSeconds, hage, _⟩ := h
  obtain ⟨fields, hfields⟩ : ∃ fields, event.payload = .object fields := by
    rw [payloadSeconds] at hage
    split at hage
    · rename_i hseconds
      exact exists_object_of_payloadU64 hseconds
    · obtain ⟨_, hminutes, _⟩ := Option.map_eq_some_iff.1 hage
      exact exists_object_of_payloadU64 hminutes
  exact ⟨_, by rw [hfields, Json.setIndex]⟩

@[simp] theorem canonicalizeEvent_queue (event : Event) (source : Option SourceRef) :
    (canonicalizeEvent event source).queue = event.queue := by
  rw [canonicalizeEvent]
  split <;> rfl

end Fkst.Router
