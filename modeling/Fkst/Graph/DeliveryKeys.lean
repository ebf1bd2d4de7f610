import Fkst.Graph.Scan

/-!
# The ids of the deliveries of a graph

`derive_delivery_identity` makes the id of a delivery of the names of its queue and department, and
expects the id to be a runtime key.  Most parts of an id are escaped and cut into segments of 200 bytes.
The ids of raised events that have a `dedup_key` or a source have the two names as they are, and the
graph scan does not bound the length of a name.

`deriveDeliveryIdentity_accepted_iff` says for which names of a scanned graph the expectation is met.
-/

set_option autoImplicit false

namespace Fkst.Graph

open Lib.Codec
open Router

/-! ## Names as segments -/

theorem isKeyChar_of_isNameChar {c : Char} (h : isNameChar c = true) : isKeyChar c = true := by
  simp only [isNameChar, isKeyChar, Bool.or_eq_true, beq_iff_eq] at h ⊢
  tauto

theorem IsSegment.keyChars {value : String} (h : IsSegment value) : value.toList.all isKeyChar = true :=
  List.all_eq_true.2 fun c hc => isKeyChar_of_isNameChar (h.2 c hc)

theorem IsSegment.not_dots {value : String} (h : IsSegment value) (rest : List Char) :
    (value.toList ++ rest).all (· == '.') = false := by
  obtain ⟨c, cs, hcs⟩ := List.exists_cons_of_ne_nil h.1
  have hc : c ≠ '.' := by
    rintro rfl
    exact h.dot_notMem (hcs ▸ List.mem_cons_self)
  simp [hcs, hc]

/-- A canonical name can be a segment if it is not too long. -/
theorem IsCanonical.safeSegment_iff {name : String} (h : IsCanonical name) :
    SafeSegment name.toList ↔ name.toList.length ≤ 255 := by
  refine ⟨fun hsafe => hsafe.length_le, fun hlen => ?_⟩
  cases h with
  | bare h => exact ⟨h.1, by simpa using h.not_dots [], hlen, h.keyChars⟩
  | qualified hspace hname =>
    rw [toList_qualifiedName] at hlen ⊢
    refine ⟨by simp, hspace.not_dots _, hlen, ?_⟩
    rw [List.all_append, List.all_cons, hspace.keyChars, hname.keyChars]
    decide

/-! ## Ids with the names as they are -/

/-- The id has the names of the queue and the department as they are. -/
def NamesAsTheyAre (args : IdentityArgs) : Prop :=
  args.derived.isSome ∧
    ((args.raisedDedupKey.filter (!·.isEmpty)).isSome ∨ (args.raisedSourceRef.or args.source).isSome)

instance (args : IdentityArgs) : Decidable (NamesAsTheyAre args) := inferInstanceAs (Decidable (_ ∧ _))

variable {args : IdentityArgs}

/-- What identifies a delivery, by whether its id has the names as they are. -/
theorem identityKey_cases (hsource : args.derived = none → args.source.isSome) :
    (NamesAsTheyAre args ∧ ∃ k, args.identityKey = some k ∧
      ((∃ key, k = .dedup key) ∨ ∃ src, k = .raisedSource src)) ∨
    (¬ NamesAsTheyAre args ∧ ∃ k, args.identityKey = some k ∧
      ((∃ src, k = .source src) ∨ ∃ hash n, k = .ordinal hash n)) := by
  cases hderived : args.derived with
  | none =>
    obtain ⟨src, hsrc⟩ := Option.isSome_iff_exists.1 (hsource hderived)
    refine Or.inr ⟨?_, .source src, ?_, Or.inl ⟨src, rfl⟩⟩
    · simp [NamesAsTheyAre, hderived]
    · rw [IdentityArgs.identityKey, hderived, hsrc]
      rfl
  | some derived =>
    cases hkey : args.raisedDedupKey.filter (!·.isEmpty) with
    | some key =>
      refine Or.inl ⟨⟨by simp [hderived], Or.inl (by simp [hkey])⟩, .dedup key, ?_, Or.inl ⟨key, rfl⟩⟩
      rw [IdentityArgs.identityKey, hderived, hkey]
    | none =>
      cases hsrc : args.raisedSourceRef.or args.source with
      | some src =>
        refine Or.inl ⟨⟨by simp [hderived], Or.inr (by simp [hsrc])⟩, .raisedSource src, ?_,
          Or.inr ⟨src, rfl⟩⟩
        rw [IdentityArgs.identityKey, hderived, hkey, hsrc]
      | none =>
        refine Or.inr ⟨?_, .ordinal (stableHexHash derived.parentDeliveryId) derived.ordinal, ?_,
          Or.inr ⟨_, _, rfl⟩⟩
        · simp [NamesAsTheyAre, hkey, hsrc]
        · rw [IdentityArgs.identityKey, hderived, hkey, hsrc]

/-- The two names are segments of an id that has them as they are. -/
theorem names_mem_segments {k : IdentityKey} (queue dept : String)
    (hk : (∃ key, k = .dedup key) ∨ ∃ src, k = .raisedSource src) :
    queue.toList ∈ k.segments queue dept ∧ dept.toList ∈ k.segments queue dept := by
  rcases hk with ⟨key, rfl⟩ | ⟨src, rfl⟩
  · simp [segments_dedup]
  · simp [segments_raisedSource]

/-- The segments of an id that does not have the names as they are are safe. -/
theorem safeSegment_of_escaped {k : IdentityKey} {queue dept : String}
    (hk : (∃ src, k = .source src) ∨ ∃ hash n, k = .ordinal hash n) :
    ∀ s ∈ k.segments queue dept, SafeSegment s := by
  have hparts : ∀ parts : List String, ∀ s ∈ parts.flatMap runtimeKeyPartSegments, SafeSegment s := by
    intro parts s hs
    obtain ⟨part, _, hs⟩ := List.mem_flatMap.1 hs
    exact safeSegment_runtimeKeyPartSegments hs
  rcases hk with ⟨src, rfl⟩ | ⟨hash, n, rfl⟩
  · exact hparts _
  · exact hparts _

theorem isSome_deriveDeliveryIdentity_iff {k : IdentityKey} (hk : args.identityKey = some k) :
    (deriveDeliveryIdentity args).isSome ↔
      ∃ key, validateRuntimeKey (joinSegments (k.segments args.queue args.dept)) = .ok key := by
  rw [deriveDeliveryIdentity, deliveryKey_eq, hk]
  simp only [Option.map_some]
  cases hvalid : validateRuntimeKey (joinSegments (k.segments args.queue args.dept)) with
  | ok key => simp
  | error e => simp

/-! ## Chunks -/

/-- The bytes of a text. -/
def IsTextBytes (bytes : List UInt8) : Prop := ∃ text : String, bytes = strBytes text

/-- The chunks of what a part of an id is escaped to are text. -/
structure ChunkedAsText (part : String) : Prop where
  escaped : ∀ chunk ∈ chunks deliveryIdPartChunkBytes
    (strBytes (String.ofList (encodeRuntimeKeyPart part))), IsTextBytes chunk
  escapedV3 : ∀ chunk ∈ chunks deliveryIdPartChunkBytes
    (strBytes (String.ofList (encodeRuntimeKeyPartV3 part))), IsTextBytes chunk

theorem strBytes_ofList {cs : List Char} (h : cs.all isKeyChar = true) :
    strBytes (String.ofList cs) = cs.map fun c => c.val.toUInt8 := by
  rw [strBytes_eq, String.toList_ofList, Lib.Utf8.encode]
  induction cs with
  | nil => rfl
  | cons c cs ih =>
    rw [List.all_cons, Bool.and_eq_true] at h
    rw [List.flatMap_cons, List.map_cons, ih h.2,
      String.utf8EncodeChar_eq_singleton (utf8Size_of_isKeyChar h.1)]
    rfl

theorem isTextBytes_of_mem_chunks {cs : List Char} (h : cs.all isKeyChar = true) {chunk : List UInt8}
    (hchunk : chunk ∈ chunks deliveryIdPartChunkBytes (strBytes (String.ofList cs))) :
    IsTextBytes chunk := by
  rw [strBytes_ofList h, chunks_map] at hchunk
  obtain ⟨c, hc, rfl⟩ := List.mem_map.1 hchunk
  have hkey : c.all isKeyChar = true :=
    isKeyChar_of_mem_flatten (by rwa [flatten_chunks chunkBytes_pos]) hc
  exact ⟨String.ofList c, (strBytes_ofList hkey).symm⟩

/-- **No chunk is cut inside a character.** -/
theorem chunkedAsText (part : String) : ChunkedAsText part where
  escaped _ := isTextBytes_of_mem_chunks (isKeyChar_escapeChars _)
  escapedV3 _ := isTextBytes_of_mem_chunks (isKeyChar_escapeCharsV3 _)

/-! ## The ids of a scanned graph -/

/-- The names of an id that has them as they are and is a runtime key are not too long. -/
theorem names_length_le (hqueue : IsCanonical args.queue) (hdept : IsCanonical args.dept)
    (hraw : NamesAsTheyAre args) (h : (deriveDeliveryIdentity args).isSome) :
    args.queue.toList.length ≤ 255 ∧ args.dept.toList.length ≤ 255 := by
  have hsource : args.derived = none → args.source.isSome := by
    intro hderived
    rw [NamesAsTheyAre, hderived] at hraw
    exact absurd hraw.1 (by simp)
  rcases identityKey_cases hsource with ⟨_, k, hk, hcases⟩ | ⟨hnot, _⟩
  · obtain ⟨key, hvalid⟩ := (isSome_deriveDeliveryIdentity_iff hk).1 h
    have hpass := validateSegment_of_validateRuntimeKey (segments_ne_nil k)
      (forall_mem_segments (fun _ hs => hs.sep_notMem) hqueue.isName.sep_notMem
        hdept.isName.sep_notMem k) hvalid
    have hmem := names_mem_segments args.queue args.dept hcases
    exact ⟨length_le_of_validateSegment (hpass _ hmem.1), length_le_of_validateSegment (hpass _ hmem.2)⟩
  · exact absurd hraw hnot

/-- **Which ids of a scanned graph are runtime keys**: all whose names are escaped, and those that have
the names as they are if neither name is longer than 255 bytes. -/
theorem deriveDeliveryIdentity_accepted_iff {graphRoots : List GraphRoot} {defaults : HostGraphDefaults}
    {cfg : Config} (hload : loadRoots graphRoots defaults = .ok cfg) (args : IdentityArgs)
    (hqueue : args.queue ∈ cfg.queue) (hdept : args.dept ∈ cfg.department)
    (hsource : args.derived = none → args.source.isSome) :
    ((deriveDeliveryIdentity args).isSome ∧ ∀ part, ChunkedAsText part) ↔
      (NamesAsTheyAre args → args.queue.toList.length ≤ 255 ∧ args.dept.toList.length ≤ 255) := by
  have hqueue' := isCanonical_queue hload hqueue
  have hdept' := isCanonical_department hload hdept
  rw [and_iff_left chunkedAsText]
  constructor
  · intro h hraw
    exact names_length_le hqueue' hdept' hraw h
  · intro hlen
    rcases identityKey_cases hsource with ⟨hraw, k, hk, _⟩ | ⟨_, k, hk, hcases⟩
    · obtain ⟨hq, hd⟩ := hlen hraw
      exact (isSome_deriveDeliveryIdentity_iff hk).2 ⟨_, validateRuntimeKey_joinSegments
        (segments_ne_nil k) (forall_mem_segments (fun _ hs => hs) (hqueue'.safeSegment_iff.2 hq)
          (hdept'.safeSegment_iff.2 hd) k)⟩
    · exact (isSome_deriveDeliveryIdentity_iff hk).2
        ⟨_, validateRuntimeKey_joinSegments (segments_ne_nil k) (safeSegment_of_escaped hcases)⟩

namespace Sample

/-- A package whose only department consumes one queue. -/
def worker (queue : String) : GraphRoot where
  root := "/packages/jobs"
  nspace := "jobs"
  departments := [⟨"worker", "departments/worker/main.lua", ⟨[queue], [], [], [], [], false, ""⟩, .disabled⟩]
  raisers := []

/-- The defaults of a host. -/
def defaults : HostGraphDefaults := ⟨64, "10m", 4, ⟨5, "1s", "1m"⟩⟩

/-- An event that was raised for the worker, with a `dedup_key`. -/
def raised (queue : String) : IdentityArgs where
  queue := queue
  dept := "worker"
  source := none
  derived := some ⟨"delivery/v1/source/cron/queue/ticks/dept/clock/ref/tick", 0⟩
  raisedDedupKey := some "job-1"
  raisedSourceRef := none

/-- A name of so many bytes. -/
def longName (n : ℕ) : String := String.ofList (List.replicate n 'q')

theorem isSegment_longName (n : ℕ) : IsSegment (longName (n + 1)) := by
  rw [IsSegment, longName, String.toList_ofList]
  refine ⟨List.cons_ne_nil _ _, fun c hc => ?_⟩
  rw [List.eq_of_mem_replicate hc]
  decide

theorem length_longName (n : ℕ) : (longName n).toList.length = n := by
  rw [longName, String.toList_ofList, List.length_replicate]

/-- How the queues of the package are resolved. -/
def jobsResolver : NameResolver := NameResolver.new ["jobs"]

theorem resolve_jobs {queue : String} (h : IsSegment queue) :
    (jobsResolver.addRecordedOnlyQueue failureFactQueue).resolve "jobs" queue = .ok queue := by
  have howner : (jobsResolver.addRecordedOnlyQueue failureFactQueue).validateOwner "jobs" = .ok () := by
    decide +kernel
  have hmode : (jobsResolver.addRecordedOnlyQueue failureFactQueue).mode = .legacyFlat := by
    decide +kernel
  rw [NameResolver.resolve, howner, parseName_bare h]
  simp only [bind, Except.bind, hmode]
  rfl

/-- What the worker declares. -/
def workerDecl (queue : String) : DepartmentDecl where
  lua := "departments/worker/main.lua"
  ownerRoot := "/packages/jobs"
  ownerNamespace := "jobs"
  consumes := [queue]
  produces := []
  publishedSeam := []
  ephemeral := []
  stallWindow := "10m"
  graphJson := false
  retry := none

/-- The graph of the worker. -/
def workerConfig (queue : String) : Config :=
  ⟨Std.ExtTreeMap.insert ∅ queue ⟨64, false⟩, ∅, Std.ExtTreeMap.insert ∅ "worker" (workerDecl queue), ⟨4⟩⟩

/-- The graph of the worker is scanned. -/
theorem loadRoots_worker {queue : String} (h : IsSegment queue) :
    loadRoots [worker queue] defaults = .ok (workerConfig queue) := by
  have hconsumes : resolveQueues (jobsResolver.addRecordedOnlyQueue failureFactQueue) "jobs" [queue] =
      .ok [queue] := by
    rw [resolveQueues, List.mapM_cons, resolve_jobs h]
    rfl
  have hname : jobsResolver.canonicalDeclName "jobs" "worker" = .ok "worker" := by decide +kernel
  have hsegment : validateNameSegment "department name" "worker" = .ok () := by decide +kernel
  have hscan : scanRoot jobsResolver (jobsResolver.addRecordedOnlyQueue failureFactQueue) defaults
      (worker queue) ⟨∅, ∅, ∅⟩ =
      .ok ⟨Std.ExtTreeMap.insert ∅ "worker" (workerDecl queue), ∅, Std.ExtTreeMap.insert ∅ "worker" []⟩ := by
    simp only [scanRoot, worker, List.foldlM_cons, List.foldlM_nil, scanDepartment, hsegment, hconsumes,
      hname, bind, Except.bind]
    rfl
  have hcross : validateCrossPackageProduces
      ⟨Std.ExtTreeMap.insert ∅ "worker" (workerDecl queue), ∅, Std.ExtTreeMap.insert ∅ "worker" []⟩ =
      .ok () := rfl
  have hqueues : deriveQueues
      ⟨Std.ExtTreeMap.insert ∅ "worker" (workerDecl queue), ∅, Std.ExtTreeMap.insert ∅ "worker" []⟩
      defaults = .ok (workerConfig queue).queue := rfl
  rw [loadRoots, List.foldlM_cons]
  simp only [bind, Except.bind]
  rw [show NameResolver.new ([worker queue].map GraphRoot.nspace) = jobsResolver from rfl, hscan]
  simp only [List.foldlM_nil, pure, Except.pure, hcross, hqueues]
  rfl

theorem mem_workerConfig (queue : String) :
    queue ∈ (workerConfig queue).queue ∧ "worker" ∈ (workerConfig queue).department := by
  simp [workerConfig]

end Sample

/-- The theorem at a queue with a short name. -/
theorem deriveDeliveryIdentity_accepted_todo :
    loadRoots [Sample.worker "todo"] Sample.defaults = .ok (Sample.workerConfig "todo") ∧
      "todo" ∈ (Sample.workerConfig "todo").queue ∧ "worker" ∈ (Sample.workerConfig "todo").department ∧
      (deriveDeliveryIdentity (Sample.raised "todo")).isSome := by
  have hload : loadRoots [Sample.worker "todo"] Sample.defaults = .ok (Sample.workerConfig "todo") :=
    Sample.loadRoots_worker (by decide +kernel)
  obtain ⟨hqueue, hdept⟩ := Sample.mem_workerConfig "todo"
  have haccepted := deriveDeliveryIdentity_accepted_iff hload (Sample.raised "todo") hqueue hdept (by decide)
  exact ⟨hload, hqueue, hdept, (haccepted.2 fun _ => by decide +kernel).1⟩

/-- A queue whose name is too long is scanned, and the id of a raised event of it is no runtime key. -/
theorem deriveDeliveryIdentity_panics_longName :
    loadRoots [Sample.worker (Sample.longName 256)] Sample.defaults =
        .ok (Sample.workerConfig (Sample.longName 256)) ∧
      Sample.longName 256 ∈ (Sample.workerConfig (Sample.longName 256)).queue ∧
      "worker" ∈ (Sample.workerConfig (Sample.longName 256)).department ∧
      deriveDeliveryIdentity (Sample.raised (Sample.longName 256)) = none := by
  have hsegment : IsSegment (Sample.longName 256) := Sample.isSegment_longName 255
  have hlength := Sample.length_longName 256
  generalize Sample.longName 256 = queue at hsegment hlength
  obtain ⟨hqueue, hdept⟩ := Sample.mem_workerConfig queue
  refine ⟨Sample.loadRoots_worker hsegment, hqueue, hdept, ?_⟩
  have hraw : NamesAsTheyAre (Sample.raised queue) := by
    refine ⟨rfl, Or.inl ?_⟩
    show ((some "job-1").filter (!·.isEmpty)).isSome
    decide +kernel
  rw [← Option.not_isSome_iff_eq_none]
  intro hsome
  have hle : queue.toList.length ≤ 255 :=
    (names_length_le (.bare hsegment) (.bare (by show IsSegment "worker"; decide +kernel)) hraw hsome).1
  omega

end Fkst.Graph
