import Fkst.Delivery.Conservation
import Fkst.Lib.Fnv
import Fkst.Lib.Words
import Fkst.Router.Publish

/-!
# Failure facts

A delivery that fails for good is reported twice: as a failure fact, with the error as it happened, and by
a dead letter, with the excerpt of the error that was stored.  Both name the class of the error and a
fingerprint of it, a hash of the error in which times, commits and long numbers are blotted out.

`fingerprint_eq_iff` says which errors have the same fingerprint: those of the same class whose words are
alike, and apart from that only those whose hashes collide.  `notice_agrees_with_fact` says what the two
reports of a death have in common.
-/

set_option autoImplicit false

namespace Fkst.Consumer

open Lib
open Lib.Words (Enclosed IsWord trimMatches words)
open Delivery (DeadRecord DeliveryRecord Entry RetryFailure SourceKind SourceRef View World errorExcerpt
  errorExcerptLimit escapeLineEnd takeBytes)
open Router (failureFactQueue)

/-- `FAILURE_FACT_SCHEMA`. -/
def failureFactSchema : String := "fkst.failure_fact.v1"

/-- `ErrorClass`. -/
inductive ErrorClass where
  | deliveryFailure
  | frameworkChildNonzero
  | frameworkChildSpawn
  | lockBusy
  | raisedPublish
  | spawnArgs
  | storeOpWatchdog
  | schemaValidation
deriving DecidableEq

/-- `ErrorClass::as_str`. -/
def ErrorClass.asStr : ErrorClass → String
  | .deliveryFailure => "delivery_failure"
  | .frameworkChildNonzero => "framework_child_nonzero"
  | .frameworkChildSpawn => "framework_child_spawn"
  | .lockBusy => "lock_busy"
  | .raisedPublish => "raised_publish"
  | .spawnArgs => "spawn_args"
  | .storeOpWatchdog => "store_op_watchdog"
  | .schemaValidation => "schema_validation"

/-- `classify_delivery_error`. -/
def classifyDeliveryError (error : String) : ErrorClass :=
  if "exit=".toList.isPrefixOf error.toList then .frameworkChildNonzero
  else if "spawn error:".toList.isPrefixOf error.toList then .frameworkChildSpawn
  else if "raised publish error:".toList.isPrefixOf error.toList then .raisedPublish
  else if "build spawn args:".toList.isPrefixOf error.toList then .spawnArgs
  else .deliveryFailure

/-! ## Fingerprints -/

/-- `char::is_ascii_punctuation`. -/
def isAsciiPunctuation (c : Char) : Bool :=
  ('!' ≤ c && c ≤ '/') || (':' ≤ c && c ≤ '@') || ('[' ≤ c && c ≤ '\x60') || ('\x7b' ≤ c && c ≤ '~')

/-- `u8::is_ascii_digit`. -/
def isAsciiDigit (b : UInt8) : Bool := 48 ≤ b && b ≤ 57

/-- `u8::is_ascii_alphabetic`. -/
def isAsciiAlphabetic (b : UInt8) : Bool := (65 ≤ b && b ≤ 90) || (97 ≤ b && b ≤ 122)

/-- `u8::is_ascii_hexdigit`. -/
def isAsciiHexdigit (b : UInt8) : Bool := isAsciiDigit b || (65 ≤ b && b ≤ 70) || (97 ≤ b && b ≤ 102)

/-- `looks_like_rfc3339_timestamp`. -/
def looksLikeRfc3339Timestamp (token : List Char) : Bool :=
  let bytes := Utf8.encode token
  20 ≤ bytes.length && bytes[4]? == some 45 && bytes[7]? == some 45 &&
    (bytes[10]? == some 84 || bytes[10]? == some 116 || bytes[10]? == some 32)

/-- `looks_like_sha`. -/
def looksLikeSha (token : List Char) : Bool :=
  let bytes := Utf8.encode token
  7 ≤ bytes.length && bytes.length ≤ 64 && bytes.all isAsciiHexdigit && bytes.any isAsciiAlphabetic

/-- `looks_like_epoch_number`. -/
def looksLikeEpochNumber (token : List Char) : Bool :=
  let bytes := Utf8.encode token
  10 ≤ bytes.length && bytes.all isAsciiDigit

/-- `normalize_token`. -/
def normalizeToken (token : List Char) : List Char :=
  let trimmed := trimMatches isAsciiPunctuation token
  if looksLikeRfc3339Timestamp trimmed then Replace.replace trimmed "<timestamp>".toList token
  else if looksLikeSha trimmed then Replace.replace trimmed "<sha>".toList token
  else if looksLikeEpochNumber trimmed then Replace.replace trimmed "<number>".toList token
  else token

/-- `normalize_for_fingerprint`. -/
def normalizeForFingerprint (raw : List Char) : List Char :=
  [' '].intercalate ((words isWhitespace raw).map normalizeToken)

/-- `fnv1a64`. -/
def fnv1a64 (input : List Char) : UInt64 := Fnv.feed Fnv.basis (Utf8.encode input)

/-- `fingerprint`. -/
def fingerprint (errorClass : ErrorClass) (raw : String) : String :=
  errorClass.asStr ++ ":" ++ String.ofList (Fnv.hex (fnv1a64 (normalizeForFingerprint raw.toList)))

/-! ## Reports -/

/-- `source_kind_name`. -/
def sourceKindName : SourceKind → String
  | .file => "file"
  | .cron => "cron"
  | .git => "git"
  | .external => "external"

/-- `source_ref_json`. -/
def sourceRefJson : Option SourceRef → Json
  | some source =>
    .ofStruct [("kind", .string (sourceKindName source.kind)), ("reference", .string source.reference)]
  | none => .null

/-- `failure_fact_event`, at a time. -/
def failureFactEvent (nowMs : UInt64) (payload : Json) : Router.Event :=
  ⟨failureFactQueue, payload, nowMs⟩

/-- The payload of `delivery_failure_fact`. -/
def deliveryFailurePayload (record : DeliveryRecord) (error : String) : Json :=
  let errorClass := classifyDeliveryError error
  .ofStruct [("schema", .string failureFactSchema), ("error_class", .string errorClass.asStr),
    ("fingerprint", .string (fingerprint errorClass error)), ("error", .string (errorExcerpt error)),
    ("attempt", .ofU64 (saturatingAdd record.attempt 1)), ("delivery_id", .string record.deliveryId),
    ("origin_queue", .string record.queue), ("origin_dept", .string record.dept),
    ("source_ref", sourceRefJson record.source), ("observed_at_ms", .ofU64 record.observedAtMs)]

/-- `delivery_failure_fact`. -/
def deliveryFailureFact (nowMs : UInt64) (record : DeliveryRecord) (error : String) : Router.Event :=
  failureFactEvent nowMs (deliveryFailurePayload record error)

/-- `dead_record_payload`. -/
def deadRecordPayload (dead : DeadRecord) : Json :=
  let error := dead.errorExcerpt.getD "unknown delivery failure"
  let errorClass := classifyDeliveryError error
  .ofStruct [("delivery_id", .string dead.deliveryId), ("dedup_id", .string dead.deliveryId),
    ("queue", .string dead.queue), ("dept", .string dead.dept), ("origin_queue", .string dead.queue),
    ("origin_dept", .string dead.dept), ("attempt", .ofU64 dead.attempts),
    ("redrive_count", .ofU64 dead.redriveCount), ("error", .string (errorExcerpt error)),
    ("error_class", .string errorClass.asStr), ("fingerprint", .string (fingerprint errorClass error)),
    ("source_ref", sourceRefJson dead.source)]

/-! ## Alike words -/

/-- What is blotted out. -/
inductive Volatile where
  | timestamp
  | sha
  | number
deriving DecidableEq

/-- What the body of a word is taken for. -/
def volatileOf (body : List Char) : Option Volatile :=
  if looksLikeRfc3339Timestamp body then some .timestamp
  else if looksLikeSha body then some .sha
  else if looksLikeEpochNumber body then some .number
  else none

/-- The name of what is blotted out. -/
def Volatile.name : Volatile → List Char
  | .timestamp => "timestamp".toList
  | .sha => "sha".toList
  | .number => "number".toList

/-- What is put in its place. -/
def Volatile.placeholder (v : Volatile) : List Char := '<' :: (v.name ++ ['>'])

/-- **Words that are alike**: equal, or the same punctuation around two times, two commits or two long
numbers, or around one of these and what is put in its place. -/
inductive Alike : List Char → List Char → Prop where
  | refl (token : List Char) : Alike token token
  | volatile {front body body' back token token' : List Char} {v : Volatile}
      (h : Enclosed isAsciiPunctuation front body back token)
      (h' : Enclosed isAsciiPunctuation front body' back token')
      (hv : volatileOf body = some v) (hv' : volatileOf body' = some v) : Alike token token'
  | blotted {front body back token : List Char} {v : Volatile}
      (h : Enclosed isAsciiPunctuation front body back token) (hv : volatileOf body = some v) :
      Alike token (front ++ v.placeholder ++ back)
  | blotted' {front body back token : List Char} {v : Volatile}
      (h : Enclosed isAsciiPunctuation front body back token) (hv : volatileOf body = some v) :
      Alike (front ++ v.placeholder ++ back) token

section Words

variable {front body back token token' : List Char} {v : Volatile}

theorem ne_nil_of_volatileOf (hv : volatileOf body = some v) : body ≠ [] := by
  rintro rfl
  cases hv

theorem volatileOf_name (v : Volatile) : volatileOf v.name = none := by
  cases v <;> decide

theorem name_ne_nil (v : Volatile) : v.name ≠ [] := by
  cases v <;> decide

theorem name_injective {v v' : Volatile} (h : v.name = v'.name) : v = v' := by
  cases v <;> cases v' <;> first | rfl | exact absurd h (by decide)

/-- A word whose body is taken for nothing stays. -/
theorem normalizeToken_of_none (h : volatileOf (trimMatches isAsciiPunctuation token) = none) :
    normalizeToken token = token := by
  rw [volatileOf] at h
  split_ifs at h with h₁ h₂ h₃
  rw [normalizeToken]
  simp only [h₁, h₂, h₃, Bool.false_eq_true, if_false]

/-- Of any other the body is blotted out, and the punctuation stays. -/
theorem normalizeToken_of_some (h : Enclosed isAsciiPunctuation front body back token)
    (hv : volatileOf body = some v) : normalizeToken token = front ++ v.placeholder ++ back := by
  have hne := ne_nil_of_volatileOf hv
  rw [normalizeToken, h.trimMatches_eq hne]
  rw [volatileOf] at hv
  split_ifs at hv with h₁ h₂ h₃ <;> obtain rfl := Option.some.inj hv
  · simp only [h₁, if_true]
    exact h.replace hne _
  · simp only [h₁, h₂, if_true, Bool.false_eq_true, if_false]
    exact h.replace hne _
  · simp only [h₁, h₂, h₃, if_true, Bool.false_eq_true, if_false]
    exact h.replace hne _

/-- What is put in place of a body encloses the name of what the body is taken for. -/
theorem enclosed_placeholder (h : Enclosed isAsciiPunctuation front body back token) (v : Volatile) :
    Enclosed isAsciiPunctuation (front ++ ['<']) v.name ('>' :: back) (front ++ v.placeholder ++ back) where
  eq := by simp [Volatile.placeholder]
  front := by
    rw [List.forall_mem_append, List.forall_mem_singleton]
    exact ⟨h.front, by decide⟩
  back := by
    rw [List.forall_mem_cons]
    exact ⟨by decide, h.back⟩
  head := by cases v <;> rintro c ⟨⟩ <;> decide
  last := by cases v <;> rintro c ⟨⟩ <;> decide

/-- A word either stays, or has a body that is blotted out. -/
theorem normalizeToken_cases (token : List Char) :
    (volatileOf (trimMatches isAsciiPunctuation token) = none ∧ normalizeToken token = token) ∨
      ∃ front body back v, Enclosed isAsciiPunctuation front body back token ∧
        volatileOf body = some v ∧ normalizeToken token = front ++ v.placeholder ++ back := by
  cases hv : volatileOf (trimMatches isAsciiPunctuation token) with
  | none => exact Or.inl ⟨rfl, normalizeToken_of_none hv⟩
  | some v =>
    have h := Words.enclosed_trimMatches isAsciiPunctuation token
    exact Or.inr ⟨_, _, _, v, h, hv, normalizeToken_of_some h hv⟩

/-- **What is blotted out stays so.** -/
theorem normalizeToken_normalizeToken (token : List Char) :
    normalizeToken (normalizeToken token) = normalizeToken token := by
  rcases normalizeToken_cases token with ⟨_, heq⟩ | ⟨front, body, back, v, h, hv, heq⟩
  · rw [heq, heq]
  · rw [heq]
    refine normalizeToken_of_none ?_
    rw [(enclosed_placeholder h v).trimMatches_eq (name_ne_nil v), volatileOf_name]

/-- **Words have the same normal form** if and only if they are alike. -/
theorem normalizeToken_eq_iff : normalizeToken token = normalizeToken token' ↔ Alike token token' := by
  constructor
  · intro heq
    rcases normalizeToken_cases token with ⟨_, htoken⟩ | ⟨front, body, back, v, h, hv, htoken⟩ <;>
      rcases normalizeToken_cases token' with ⟨_, htoken'⟩ | ⟨front', body', back', v', h', hv', htoken'⟩ <;>
      rw [htoken, htoken'] at heq
    · exact heq ▸ .refl token
    · exact heq ▸ .blotted' h' hv'
    · exact heq ▸ .blotted h hv
    · have hin := enclosed_placeholder h v
      have hin' := enclosed_placeholder h' v'
      rw [← heq] at hin'
      obtain ⟨hfront, hname, hback⟩ := hin.inj hin' (name_ne_nil v) (name_ne_nil v')
      obtain rfl := List.append_cancel_right hfront
      obtain rfl := name_injective hname
      obtain ⟨_, rfl⟩ := List.cons.inj hback
      exact .volatile h h' hv hv'
  · rintro (_ | ⟨h, h', hv, hv'⟩ | ⟨h, hv⟩ | ⟨h, hv⟩)
    · rfl
    · rw [normalizeToken_of_some h hv, normalizeToken_of_some h' hv']
    · rw [← normalizeToken_of_some h hv, normalizeToken_normalizeToken]
    · rw [← normalizeToken_of_some h hv, normalizeToken_normalizeToken]

theorem isWhitespace_placeholder (v : Volatile) {c : Char} (hc : c ∈ v.placeholder) :
    isWhitespace c = false := by
  have hall : v.placeholder.all (fun c => !isWhitespace c) = true := by
    cases v <;> decide
  simpa using List.all_eq_true.1 hall c hc

theorem isWord_normalizeToken (h : IsWord isWhitespace token) :
    IsWord isWhitespace (normalizeToken token) := by
  rcases normalizeToken_cases token with ⟨_, heq⟩ | ⟨front, body, back, v, henclosed, _, heq⟩
  · rwa [heq]
  · have hsides : (∀ c ∈ front, isWhitespace c = false) ∧ ∀ c ∈ back, isWhitespace c = false := by
      have hfree := h.2
      rw [henclosed.eq, List.forall_mem_append, List.forall_mem_append] at hfree
      exact ⟨hfree.1.1, hfree.2⟩
    rw [heq]
    refine ⟨by simp [Volatile.placeholder], ?_⟩
    rw [List.forall_mem_append, List.forall_mem_append]
    exact ⟨⟨hsides.1, fun _ hc => isWhitespace_placeholder v hc⟩, hsides.2⟩

end Words

/-! ## Equal fingerprints -/

section Fingerprints

variable {raw raw' : List Char}

theorem isWord_of_mem_map {token : List Char} (h : token ∈ (words isWhitespace raw).map normalizeToken) :
    IsWord isWhitespace token := by
  obtain ⟨token', htoken', rfl⟩ := List.mem_map.1 h
  exact isWord_normalizeToken (Words.isWord_of_mem htoken')

/-- The words of a normal form are those of the text, in normal form. -/
theorem words_normalizeForFingerprint (raw : List Char) :
    words isWhitespace (normalizeForFingerprint raw) = (words isWhitespace raw).map normalizeToken :=
  Words.words_intercalate (by decide) fun _ h => isWord_of_mem_map h

/-- **A normal form is one of itself.** -/
theorem normalizeForFingerprint_normalizeForFingerprint (raw : List Char) :
    normalizeForFingerprint (normalizeForFingerprint raw) = normalizeForFingerprint raw := by
  have hmap : ((words isWhitespace raw).map normalizeToken).map normalizeToken =
      (words isWhitespace raw).map normalizeToken := by
    simp only [List.map_map, Function.comp_def, normalizeToken_normalizeToken]
  have hnormal : ∀ text, normalizeForFingerprint text =
      [' '].intercalate ((words isWhitespace text).map normalizeToken) := fun _ => rfl
  rw [hnormal (normalizeForFingerprint raw), words_normalizeForFingerprint, hmap, ← hnormal]

/-- **Texts have the same normal form** if and only if their words are alike, one by one. -/
theorem normalizeForFingerprint_eq_iff : normalizeForFingerprint raw = normalizeForFingerprint raw' ↔
    List.Forall₂ Alike (words isWhitespace raw) (words isWhitespace raw') := by
  rw [normalizeForFingerprint, normalizeForFingerprint,
    Words.intercalate_words_inj (by decide) (fun _ h => isWord_of_mem_map h) fun _ h => isWord_of_mem_map h,
    ← List.forall₂_eq_eq_eq, List.forall₂_map_left_iff, List.forall₂_map_right_iff]
  simp only [normalizeToken_eq_iff]

theorem ErrorClass.asStr_injective {c c' : ErrorClass} (h : c.asStr = c'.asStr) : c = c' := by
  cases c <;> cases c' <;> simp only [asStr, String.reduceEq] at h ⊢

theorem ErrorClass.notMem_asStr (c : ErrorClass) : ':' ∉ c.asStr.toList := by
  cases c <;> decide

/-- Two texts are different, and their hashes are not. -/
def Collide (text text' : List Char) : Prop := text ≠ text' ∧ fnv1a64 text = fnv1a64 text'

theorem fingerprint_eq_iff_hash {c c' : ErrorClass} {error error' : String} :
    fingerprint c error = fingerprint c' error' ↔ c = c' ∧
      fnv1a64 (normalizeForFingerprint error.toList) = fnv1a64 (normalizeForFingerprint error'.toList) := by
  refine ⟨fun h => ?_, fun ⟨hclass, hhash⟩ => by rw [fingerprint, fingerprint, hclass, hhash]⟩
  have hlist := congrArg String.toList h
  simp only [fingerprint, String.toList_append, String.toList_ofList, List.append_assoc] at hlist
  obtain ⟨hclass, hhex⟩ := Text.append_sep_inj c.notMem_asStr c'.notMem_asStr hlist
  exact ⟨ErrorClass.asStr_injective (String.toList_inj.1 hclass), Fnv.hex_injective hhex⟩

/-- Normal forms have the same hash if the words are alike, and apart from that if they collide. -/
theorem hash_eq_iff : fnv1a64 (normalizeForFingerprint raw) = fnv1a64 (normalizeForFingerprint raw') ↔
    List.Forall₂ Alike (words isWhitespace raw) (words isWhitespace raw') ∨
      Collide (normalizeForFingerprint raw) (normalizeForFingerprint raw') := by
  rw [← normalizeForFingerprint_eq_iff, Collide]
  refine ⟨fun hhash => ?_, ?_⟩
  · by_cases heq : normalizeForFingerprint raw = normalizeForFingerprint raw'
    · exact Or.inl heq
    · exact Or.inr ⟨heq, hhash⟩
  · rintro (heq | ⟨_, hhash⟩)
    · rw [heq]
    · exact hhash

/-- **Errors have the same fingerprint** if and only if they are of the same class and their words are
alike, or their normal forms collide; and a normal form is one of itself, so that an error which is
reported in normal form keeps its fingerprint. -/
theorem fingerprint_eq_iff (c c' : ErrorClass) (error error' : String) :
    (fingerprint c error = fingerprint c' error' ↔ c = c' ∧
      (List.Forall₂ Alike (words isWhitespace error.toList) (words isWhitespace error'.toList) ∨
        Collide (normalizeForFingerprint error.toList) (normalizeForFingerprint error'.toList))) ∧
    fingerprint c (String.ofList (normalizeForFingerprint error.toList)) = fingerprint c error := by
  refine ⟨by rw [fingerprint_eq_iff_hash, hash_eq_iff], ?_⟩
  rw [fingerprint_eq_iff_hash, String.toList_ofList, normalizeForFingerprint_normalizeForFingerprint]
  exact ⟨rfl, rfl⟩

example : fingerprint .frameworkChildNonzero "exit=1 at 2026-06-11T09:52:37Z commit abcdef1234567890" =
    fingerprint .frameworkChildNonzero "exit=1 at 2027-01-01T00:00:00Z commit ffffff1234567890" := by
  decide +kernel

end Fingerprints

/-! ## Excerpts -/

section Excerpts

variable {text start : List Char} {budget : ℕ}

theorem takeBytes_prefix : ∀ (budget : ℕ) (text : List Char), takeBytes budget text <+: text
  | _, [] => List.prefix_rfl
  | budget, c :: text => by
    rw [takeBytes]
    split
    · exact (List.prefix_cons_inj c).2 ( takeBytes_prefix _ text)
    · exact List.nil_prefix

theorem takeBytes_of_le : ∀ {budget : ℕ} {text : List Char}, (text.map Char.utf8Size).sum ≤ budget →
    takeBytes budget text = text
  | _, [], _ => rfl
  | budget, c :: text, h => by
    rw [List.map_cons, List.sum_cons] at h
    rw [takeBytes, if_pos (by omega), takeBytes_of_le (by omega)]

theorem sum_takeBytes_le : ∀ (budget : ℕ) (text : List Char),
    ((takeBytes budget text).map Char.utf8Size).sum ≤ budget
  | budget, [] => Nat.zero_le budget
  | budget, c :: text => by
    rw [takeBytes]
    split
    · have hrest := sum_takeBytes_le (budget - c.utf8Size) text
      rw [List.map_cons, List.sum_cons]
      omega
    · exact Nat.zero_le budget

/-- A start of the text that fits is one of what is taken. -/
theorem prefix_takeBytes : ∀ {budget : ℕ} {start text : List Char}, start <+: text →
    (start.map Char.utf8Size).sum ≤ budget → start <+: takeBytes budget text
  | _, [], _, _, _ => List.nil_prefix
  | budget, c :: start, text, h, hfits => by
    obtain ⟨rest, rfl⟩ := h
    rw [List.map_cons, List.sum_cons] at hfits
    rw [List.cons_append, takeBytes, if_pos (by omega)]
    exact (List.prefix_cons_inj c).2 (prefix_takeBytes (List.prefix_append _ _) (by omega))

/-- A character that is written as it is, and that no escape begins with. -/
def isPlain (c : Char) : Bool := c ≠ '\r' ∧ c ≠ '\n' ∧ c ≠ '\\'

theorem prefix_flatMap_escapeLineEnd : ∀ {start text : List Char}, start.all isPlain = true →
    (start <+: text.flatMap escapeLineEnd ↔ start <+: text)
  | [], _, _ => ⟨fun _ => List.nil_prefix, fun _ => List.nil_prefix⟩
  | c :: start, [], _ => by rw [List.flatMap_nil]
  | c :: start, a :: text, h => by
    rw [List.all_cons, Bool.and_eq_true] at h
    obtain ⟨hr, hn, hb⟩ := of_decide_eq_true h.1
    rw [List.flatMap_cons, escapeLineEnd]
    split_ifs with har han
    · subst har
      simp [List.cons_prefix_cons, hr, hb]
    · subst han
      simp [List.cons_prefix_cons, hn, hb]
    · rw [List.singleton_append, List.cons_prefix_cons, List.cons_prefix_cons,
        prefix_flatMap_escapeLineEnd h.2]

theorem flatMap_escapeLineEnd_of_forall : ∀ {text : List Char}, (∀ c ∈ text, c ≠ '\r' ∧ c ≠ '\n') →
    text.flatMap escapeLineEnd = text
  | [], _ => rfl
  | c :: text, h => by
    obtain ⟨⟨hr, hn⟩, htext⟩ := List.forall_mem_cons.1 h
    rw [List.flatMap_cons, escapeLineEnd, if_neg hr, if_neg hn, flatMap_escapeLineEnd_of_forall htext]
    rfl

theorem ne_of_mem_flatMap {c : Char} (h : c ∈ text.flatMap escapeLineEnd) : c ≠ '\r' ∧ c ≠ '\n' := by
  obtain ⟨a, _, hc⟩ := List.mem_flatMap.1 h
  rw [escapeLineEnd] at hc
  split_ifs at hc with har han
  · rcases List.mem_pair.1 hc with rfl | rfl <;> decide
  · rcases List.mem_pair.1 hc with rfl | rfl <;> decide
  · rw [List.mem_singleton.1 hc]
    exact ⟨har, han⟩

/-- The excerpt: the escaped text, as far as it fits. -/
theorem toList_errorExcerpt (error : String) :
    (errorExcerpt error).toList = takeBytes errorExcerptLimit (error.toList.flatMap escapeLineEnd) := by
  rw [errorExcerpt]
  split
  · rw [String.toList_ofList]
  · rename_i hfits
    rw [String.toList_ofList, takeBytes_of_le (not_lt.1 hfits)]

/-- **An excerpt is one of itself.** -/
theorem errorExcerpt_errorExcerpt (error : String) :
    errorExcerpt (errorExcerpt error) = errorExcerpt error := by
  refine String.toList_inj.1 ?_
  have hfree : ∀ c ∈ (errorExcerpt error).toList, c ≠ '\r' ∧ c ≠ '\n' := by
    intro c hc
    rw [toList_errorExcerpt] at hc
    exact ne_of_mem_flatMap (( takeBytes_prefix _ _).subset hc)
  have hfits : ((errorExcerpt error).toList.map Char.utf8Size).sum ≤ errorExcerptLimit := by
    rw [toList_errorExcerpt]
    exact sum_takeBytes_le _ _
  rw [toList_errorExcerpt (errorExcerpt error), flatMap_escapeLineEnd_of_forall hfree,
    takeBytes_of_le hfits]

/-- The excerpt begins with a short plain text if and only if the error does. -/
theorem isPrefixOf_errorExcerpt {start : List Char} (hplain : start.all isPlain = true)
    (hfits : (start.map Char.utf8Size).sum ≤ errorExcerptLimit) (error : String) :
    start.isPrefixOf (errorExcerpt error).toList = start.isPrefixOf error.toList := by
  rw [Bool.eq_iff_iff, List.isPrefixOf_iff_prefix, List.isPrefixOf_iff_prefix,
    toList_errorExcerpt, ← @prefix_flatMap_escapeLineEnd _ error.toList hplain]
  exact ⟨fun h => h.trans ( takeBytes_prefix _ _), fun h => prefix_takeBytes h hfits⟩

/-- **The excerpt of an error is of its class.** -/
theorem classifyDeliveryError_errorExcerpt (error : String) :
    classifyDeliveryError (errorExcerpt error) = classifyDeliveryError error := by
  simp only [classifyDeliveryError]
  rw [isPrefixOf_errorExcerpt (by decide) (by decide), isPrefixOf_errorExcerpt (by decide) (by decide),
    isPrefixOf_errorExcerpt (by decide) (by decide), isPrefixOf_errorExcerpt (by decide) (by decide)]

end Excerpts

/-! ## The two reports of a death -/

section Reports

open Delivery (Env Move Moves RetryPolicy Txn)

variable {env : Env} {id : String} {t : Txn} {l : List Delivery.Event} {v v' : View}

/-- The delivery was given up by its last retry. -/
def GivenUp (l : List Delivery.Event) : Prop := l = [.terminated] ∨ l = [.terminatedFollowedUp]

theorem GivenUp.of_append {o : Option Delivery.Event} (h : GivenUp (l ++ o.toList)) :
    (GivenUp l ∧ o = none) ∨ l = [] := by
  cases o with
  | none => exact Or.inl ⟨by simpa using h, rfl⟩
  | some event =>
    refine Or.inr (List.eq_nil_of_length_eq_zero ?_)
    rcases h with h | h <;> simpa using congrArg List.length h

/-- **A delivery that its last retry gives up** is dead afterwards, with the excerpt of that failure. -/
theorem dead_of_givenUp {g nowMs : UInt64} {failure : RetryFailure} {policy : RetryPolicy}
    (h : Moves env id (.retry id g failure policy nowMs) l v v') (hl : GivenUp l) :
    ∃ r keyed, v.live = some r ∧ v'.dead = some ((r.failed failure).exhausted false keyed nowMs) := by
  refine (h.preserves (P := fun l w => (l = [] → w.live = v.live) ∧ (GivenUp l →
    ∃ r keyed, v.live = some r ∧ w.dead = some ((r.failed failure).exhausted false keyed nowMs))) ?_
    ⟨fun _ => rfl, fun hnil => by rcases hnil with hnil | hnil <;> cases hnil⟩).2 hl
  intro l o w w' ⟨hlive, hdead⟩ hm
  have hother : ∀ event, o = some event → event ≠ .terminated → event ≠ .terminatedFollowedUp →
      ¬ GivenUp (l ++ o.toList) := by
    rintro event rfl hne hne' hl
    rcases hl.of_append with ⟨_, ho⟩ | rfl
    · cases ho
    · rcases hl with hl | hl
      · exact hne (List.cons.inj hl).1
      · exact hne' (List.cons.inj hl).1
  cases hm with
  | retry => exact ⟨fun hnil => by simp at hnil, fun hl => absurd hl (hother _ rfl (by decide) (by decide))⟩
  | deadLetter =>
    exact ⟨fun hnil => by simp at hnil, fun hl => absurd hl (hother _ rfl (by decide) (by decide))⟩
  | terminate _ _ _ hr =>
    refine ⟨fun hnil => by simp at hnil, fun hl => ?_⟩
    rcases hl.of_append with ⟨_, ho⟩ | rfl
    · cases ho
    · exact ⟨_, false, (hlive rfl).symm.trans hr, rfl⟩
  | terminateFollowUp _ _ _ hr =>
    refine ⟨fun hnil => by simp at hnil, fun hl => ?_⟩
    rcases hl.of_append with ⟨_, ho⟩ | rfl
    · cases ho
    · exact ⟨_, true, (hlive rfl).symm.trans hr, rfl⟩
  | compact nowMs' hclock hd _ hold =>
    refine ⟨fun hnil => hlive (by simpa using hnil), fun hl => ?_⟩
    obtain ⟨r, keyed, _, hd'⟩ := hdead (by simpa using hl)
    obtain rfl := Option.some.inj hclock
    obtain rfl := Option.some.inj (hd.symm.trans hd')
    exact absurd hold (Delivery.DeadRecord.not_old_of_deadAtMs rfl)

/-- What both reports tell. -/
def sharedKeys : List String :=
  ["attempt", "delivery_id", "error", "error_class", "origin_dept", "origin_queue", "source_ref"]

theorem get_deadRecordPayload {d : DeadRecord} {r : DeliveryRecord} {error : String}
    (hdead : d.errorExcerpt = some (errorExcerpt error)) (hid : d.deliveryId = r.deliveryId)
    (hqueue : d.queue = r.queue) (hdept : d.dept = r.dept) (hsource : d.source = r.source)
    (hattempts : d.attempts = saturatingAdd r.attempt 1) {key : String} (hkey : key ∈ sharedKeys) :
    (deadRecordPayload d).get key = (deliveryFailurePayload r error).get key := by
  rw [deadRecordPayload, deliveryFailurePayload, hdead, hid, hqueue, hdept, hsource, hattempts,
    Option.getD_some, errorExcerpt_errorExcerpt, classifyDeliveryError_errorExcerpt]
  simp only [sharedKeys, List.mem_cons, List.not_mem_nil, or_false] at hkey
  rcases hkey with rfl | rfl | rfl | rfl | rfl | rfl | rfl <;>
    simp only [Json.ofStruct, JsonFields.ofStruct, Json.get, List.foldl_cons, List.foldl_nil,
      JsonFields.get_insert, String.reduceEq, if_true, if_false]

theorem get_fingerprint_dead (d : DeadRecord) {error : String}
    (hdead : d.errorExcerpt = some (errorExcerpt error)) :
    (deadRecordPayload d).get "fingerprint" =
      some (.string (fingerprint (classifyDeliveryError error) (errorExcerpt error))) := by
  rw [deadRecordPayload, hdead, Option.getD_some, classifyDeliveryError_errorExcerpt]
  simp only [Json.ofStruct, JsonFields.ofStruct, Json.get, List.foldl_cons, List.foldl_nil,
    JsonFields.get_insert, String.reduceEq, if_true, if_false]

theorem get_fingerprint_fact (r : DeliveryRecord) (error : String) :
    (deliveryFailurePayload r error).get "fingerprint" =
      some (.string (fingerprint (classifyDeliveryError error) error)) := by
  rw [deliveryFailurePayload]
  simp only [Json.ofStruct, JsonFields.ofStruct, Json.get, List.foldl_cons, List.foldl_nil,
    JsonFields.get_insert, String.reduceEq, if_true, if_false]

/-- **The two reports of a death.**  In every run, the notice about a delivery that its last retry gave up
and the failure fact about it agree in all that both tell, and their fingerprints agree if and only if the
words of the excerpt are like those of the error, or collide with them. -/
theorem notice_agrees_with_fact (env : Env) (acts : List Delivery.Act) {e : Entry}
    (he : e ∈ (World.init.run env acts).2) {g nowMs : UInt64} {failure : RetryFailure}
    {policy : RetryPolicy} (htxn : e.txn = .retry id g failure policy nowMs)
    (hreply : e.reply = .retry .permanentDead) :
    ∃ r d, e.before.deliveryById[id]? = some r ∧ e.after.deadById[id]? = some d ∧
      (∀ key ∈ sharedKeys,
        (deadRecordPayload d).get key = (deliveryFailurePayload r failure.message).get key) ∧
      ((deadRecordPayload d).get "fingerprint" =
          (deliveryFailurePayload r failure.message).get "fingerprint" ↔
        List.Forall₂ Alike (words isWhitespace (errorExcerpt failure.message).toList)
            (words isWhitespace failure.message.toList) ∨
          Collide (normalizeForFingerprint (errorExcerpt failure.message).toList)
            (normalizeForFingerprint failure.message.toList)) := by
  have hcommitted := Delivery.World.committed_of_mem acts he
  have hmoves := hcommitted.moves id
  have hgivenUp : GivenUp (e.events id) := by
    rw [Entry.events, htxn, hreply]
    dsimp only [Delivery.Store.retryEvents]
    rw [Delivery.eventsAt_self]
    split
    · exact Or.inl rfl
    · exact Or.inr rfl
  rw [htxn] at hmoves
  obtain ⟨r, keyed, hlive, hdead⟩ := dead_of_givenUp hmoves hgivenUp
  refine ⟨r, _, hlive, hdead, fun key hkey => get_deadRecordPayload rfl rfl rfl rfl rfl rfl hkey, ?_⟩
  rw [get_fingerprint_dead _ rfl, get_fingerprint_fact, Option.some.injEq, Json.string.injEq,
    fingerprint_eq_iff_hash, hash_eq_iff]
  exact ⟨fun h => h.2, fun h => ⟨rfl, h⟩⟩

/-- A delivery fails at once, with this error. -/
def Sample.failsAtOnce (e : Entry) : Bool :=
  match e.txn, e.reply with
  | .retry id _ failure _ _, .retry .permanentDead => id = "a" ∧ failure.message = "exit=7 stderr=bad"
  | _, _ => false

/-- The theorem at a delivery that fails at once, with an error that is its own excerpt. -/
theorem notice_agrees_with_fact_failed : ∃ e ∈ (World.init.run Delivery.Sample.env (Delivery.Act.inSequence
      [.enqueue (Delivery.Sample.record "a" false), .lease 0 1 ⟨0, 0⟩ none ∅,
        .retry "a" 1 ⟨"exit=7 stderr=bad", false⟩ Delivery.Sample.retryPolicy 0])).2,
    ∃ r d, e.before.deliveryById["a"]? = some r ∧ e.after.deadById["a"]? = some d ∧
      (∀ key ∈ "fingerprint" :: sharedKeys,
        (deadRecordPayload d).get key = (deliveryFailurePayload r "exit=7 stderr=bad").get key) := by
  have hrun : (World.init.run Delivery.Sample.env (Delivery.Act.inSequence
      [.enqueue (Delivery.Sample.record "a" false), .lease 0 1 ⟨0, 0⟩ none ∅,
        .retry "a" 1 ⟨"exit=7 stderr=bad", false⟩ Delivery.Sample.retryPolicy 0])).2.any Sample.failsAtOnce = true := by
    decide +kernel
  obtain ⟨e, he, h⟩ := List.any_eq_true.1 hrun
  rw [Sample.failsAtOnce] at h
  split at h
  · rename_i htxn hreply
    obtain ⟨rfl, hmessage⟩ := of_decide_eq_true h
    obtain ⟨r, d, hr, hd, hshared, hfingerprint⟩ := notice_agrees_with_fact _ _ he htxn hreply
    have hself : errorExcerpt "exit=7 stderr=bad" = "exit=7 stderr=bad" := by decide +kernel
    rw [hmessage] at hshared hfingerprint
    refine ⟨e, he, r, d, hr, hd, List.forall_mem_cons.2 ⟨hfingerprint.2 (Or.inl ?_), hshared⟩⟩
    rw [hself]
    exact List.forall₂_same.2 fun _ _ => .refl _
  · cases h

end Reports

end Fkst.Consumer
