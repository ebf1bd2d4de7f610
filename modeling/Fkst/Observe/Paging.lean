import Fkst.Lib.Base64
import Fkst.Observe.Selection

/-!
# Paging through the dead letters

Following `page.next` from the first page until there is none visits every dead letter once, in the
order of `(dead_at_ms, delivery_id)`, whatever the limit, and no cursor is refused on the way
(`follow_fetchPage`).  A read of a window returns the first dead letters of the window, after the one
that `since` names (`observeSnapshot_window`).

The flag `dead_letters_complete` is documented to be true only when everything in the window fits the
limit.  The code sets it from the rows that are left after `since` was applied, so that it is true on a
snapshot from which the rows up to the cursor are missing.  `exactReads_iff` says when that happens.
-/

set_option autoImplicit false

namespace Fkst.Observe

open Lib Delivery
open Lib.Keyset (Listing follow follow_eq nextCursor trimAfter)
open Router (validateRuntimeKey)

/-- What the text of a cursor relies on: base64 can be read back, and so can the JSON of a cursor that
names a runtime key. -/
structure Codecs.Lawful (codecs : Codecs) : Prop where
  base64 : ∀ bytes, codecs.base64Decode (codecs.base64Encode bytes) = .ok bytes
  json : ∀ cursor : DeadLetterPageCursor,
    validateRuntimeKey cursor.deliveryId = .ok cursor.deliveryId →
      codecs.envelopeFromSlice (codecs.envelopeToVec cursor.envelope) = .ok cursor.envelope

/-- **A cursor can be read back.** -/
theorem decodeDeadLetterCursor_encode {codecs : Codecs} (hcodecs : codecs.Lawful)
    (ms : UInt64) {id : String} (hid : validateRuntimeKey id = .ok id) :
    decodeDeadLetterCursor codecs (encodeDeadLetterCursor codecs ⟨ms, id⟩) = .ok ⟨ms, id⟩ := by
  rw [decodeDeadLetterCursor, encodeDeadLetterCursor, hcodecs.base64]
  show (withText _ (codecs.envelopeFromSlice (codecs.envelopeToVec _)) >>= _) = _
  rw [hcodecs.json ⟨ms, id⟩ hid]
  show (withText _ (validateRuntimeKey id) >>= _) = _
  rw [hid]
  rfl

section Reads

variable (codecs : Codecs) (s : Store) (durableRoot database : String) (nowMs : UInt64)
  (subscribers : Option (Std.ExtTreeSet String)) (limit : ℕ)

/-! ## Pages -/

/-- The options of a page. -/
def pageOptions (page : DeadLetterPageOptions) : DeliveryObserveOptions :=
  ⟨nowMs, limit, none, some page, none, subscribers⟩

/-- Ask for the page behind a cursor. -/
def fetchPage (after : Option String) :
    Except String (List DeadLetterObserveEntry × Option String) := do
  let page ← validateDeadLetterPage codecs (some ⟨"dead_letters", after⟩) none
  let snapshot ← observeSnapshot codecs s durableRoot database
    ⟨nowMs, limit, none, page, none, subscribers⟩
  return (snapshot.deadLetters, snapshot.page.bind (·.next))

/-- The cursor that names a dead letter. -/
def entryCursor (entry : DeadLetterObserveEntry) : String :=
  encodeDeadLetterCursor codecs ⟨entry.deadAtMs, entry.deliveryId⟩

variable {codecs s}

theorem nextCursor_map (rows : List DeadRecord) :
    nextCursor (entryCursor codecs) limit (rows.map (deadLetterObserveEntry codecs)) =
      if limit < rows.length then (rows.take limit).getLast?.map fun record =>
        encodeDeadLetterCursor codecs ⟨record.deadAtMs, record.deliveryId⟩ else none := by
  rw [nextCursor, List.length_map, ← List.map_take, List.getLast?_map, Option.map_map]
  by_cases hmore : limit < rows.length
  · rw [if_neg (Nat.not_le.2 hmore), if_pos hmore]
    rfl
  · rw [if_pos (Nat.not_lt.1 hmore), if_neg hmore]

/-- A request with a cursor that can be read. -/
theorem fetchPage_of_decodeAfter {after : Option String} {cursor : Option DeadLetterPageCursor}
    (h : decodeAfter codecs after = .ok cursor) :
    fetchPage codecs s durableRoot database nowMs subscribers limit after = (do
      let snapshot ← observeSnapshot codecs s durableRoot database
        (pageOptions nowMs subscribers limit ⟨cursor⟩)
      return (snapshot.deadLetters, snapshot.page.bind (·.next))) := by
  have hvalid : validateDeadLetterPage codecs (some ⟨"dead_letters", after⟩) none =
      pure (some ⟨cursor⟩) := by
    simp only [validateDeadLetterPage, h]
    rfl
  rw [fetchPage, hvalid, pure_bind, pageOptions]

/-- The page behind some rows of the listing has the first ones of the rest. -/
theorem fetchPage_eq (hs : s.Inv) (hkeys : KeyedByRuntimeKeys s) (hcodecs : codecs.Lawful)
    {done rest : List DeadLetterObserveEntry}
    (hlisting : (deadListing s).map (deadLetterObserveEntry codecs) = done ++ rest) :
    fetchPage codecs s durableRoot database nowMs subscribers limit
        (done.getLast?.map (entryCursor codecs)) =
      .ok (rest.take limit, nextCursor (entryCursor codecs) limit rest) := by
  obtain ⟨before, behindRows, hsplit, rfl, rfl⟩ := List.map_eq_append_iff.1 hlisting
  -- a page from a decoded cursor has the rows that are behind it
  have hpage : ∀ after : Option DeadLetterPageCursor,
      (deadListing s).filter (behind after) = behindRows →
      (do
        let snapshot ← observeSnapshot codecs s durableRoot database
          (pageOptions nowMs subscribers limit ⟨after⟩)
        return (snapshot.deadLetters, snapshot.page.bind (·.next))) =
      Except.ok ((behindRows.map (deadLetterObserveEntry codecs)).take limit,
        nextCursor (entryCursor codecs) limit (behindRows.map (deadLetterObserveEntry codecs))) := by
    intro after hbehind
    have haccepted : Accepted (pageOptions nowMs subscribers limit ⟨after⟩) :=
      ⟨by simp [pageOptions], fun _ => rfl, fun _ => rfl⟩
    have hselected : selected s (pageOptions nowMs subscribers limit ⟨after⟩) = behindRows := by
      rw [← hbehind, selected]
      exact List.filter_congr fun d _ => by simp [pageOptions, inWindow]
    rw [observeSnapshot_eq hs hkeys codecs durableRoot database haccepted, hselected]
    refine congrArg Except.ok (Prod.ext List.map_take ?_)
    show (if decide (limit < behindRows.length) = true then _ else none) = _
    simp only [decide_eq_true_eq]
    exact (nextCursor_map limit behindRows).symm
  rcases List.eq_nil_or_concat before with rfl | ⟨front, x, rfl⟩
  · refine (fetchPage_of_decodeAfter _ _ _ _ _ rfl).trans (hpage none ?_)
    rw [List.nil_append] at hsplit
    rw [← hsplit, List.filter_eq_self]
    simp [behind]
  · have hx : x ∈ deadListing s := by simp [hsplit]
    have hid := hkeys _ x (deadById_of_mem_deadListing hs hx)
    have hlast : ((front ++ [x]).map (deadLetterObserveEntry codecs)).getLast?.map
        (entryCursor codecs) = some (encodeDeadLetterCursor codecs ⟨x.deadAtMs, x.deliveryId⟩) := by
      simp [entryCursor, deadLetterObserveEntry]
    have hafter : decodeAfter codecs (some (encodeDeadLetterCursor codecs
        ⟨x.deadAtMs, x.deliveryId⟩)) = .ok (some ⟨x.deadAtMs, x.deliveryId⟩) := by
      rw [decodeAfter, decodeDeadLetterCursor_encode hcodecs x.deadAtMs hid]
      rfl
    rw [List.concat_eq_append, hlast, fetchPage_of_decodeAfter _ _ _ _ _ hafter]
    refine hpage (some ⟨x.deadAtMs, x.deliveryId⟩) ?_
    have hsorted := listing_deadListing hs
    rw [hsplit, List.concat_eq_append, List.append_assoc, List.singleton_append] at hsorted ⊢
    exact hsorted.filter_after

/-- **Following the pages.** -/
theorem follow_fetchPage (hs : s.Inv) (hkeys : KeyedByRuntimeKeys s) (hcodecs : codecs.Lawful)
    (hlimit : 0 < limit) {fuel : ℕ} (hfuel : (deadListing s).length < fuel) :
    follow (fetchPage codecs s durableRoot database nowMs subscribers limit) fuel none =
      .ok (some ((deadListing s).map (deadLetterObserveEntry codecs))) :=
  follow_eq hlimit (fun _ _ hl => fetchPage_eq durableRoot database nowMs subscribers limit hs hkeys
    hcodecs hl) fuel (List.nil_append _).symm (by rwa [List.length_map])

/-! ## Windows -/

variable (since : Option String) (window : DeadLetterWindow)

/-- The options of a read of a window. -/
def windowOptions : DeliveryObserveOptions :=
  ⟨nowMs, limit, since, none, some window, subscribers⟩

/-- Some rows in the window, behind the one that `since` names. -/
def windowRows (rows : List DeadRecord) : List DeadRecord :=
  trimSince DeadRecord.deliveryId since (rows.filter (inWindow (some window)))

variable {since}

variable (codecs) in
/-- **A read of a window.** -/
theorem observeSnapshot_window (hs : s.Inv) (hkeys : KeyedByRuntimeKeys s) (hsince : since ≠ some "") :
    ∃ snapshot, observeSnapshot codecs s durableRoot database
        (windowOptions nowMs subscribers limit since window) = .ok snapshot ∧
      snapshot.deadLetters =
        ((windowRows since window (deadListing s)).take limit).map (deadLetterObserveEntry codecs) ∧
      (snapshot.deadLettersComplete = some true ↔
        (windowRows since window (deadListing s)).length ≤ limit) := by
  have haccepted : Accepted (windowOptions nowMs subscribers limit since window) :=
    ⟨hsince, by simp [windowOptions], by simp [windowOptions]⟩
  have hselected : trimSince DeadRecord.deliveryId since
      (selected s (windowOptions nowMs subscribers limit since window)) =
        windowRows since window (deadListing s) := by
    refine congrArg (trimSince DeadRecord.deliveryId since) (List.filter_congr fun d _ => ?_)
    simp [windowOptions, behind]
  refine ⟨_, observeSnapshot_eq hs hkeys codecs durableRoot database haccepted, ?_, ?_⟩
  · exact congrArg (fun rows => (List.take limit rows).map (deadLetterObserveEntry codecs)) hselected
  · show some (!decide (limit < (trimSince DeadRecord.deliveryId since _).length)) = some true ↔ _
    rw [hselected]
    simp

end Reads

/-! ## Exact reads -/

/-- All reads of dead letters are exact: the pages, and the read of a window with its flag. -/
def ExactReads (codecs : Codecs) (s : Store) (durableRoot database : String) (nowMs : UInt64)
    (subscribers : Option (Std.ExtTreeSet String)) (limit : ℕ) (since : Option String)
    (window : DeadLetterWindow) : Prop :=
  ∃ rows : List DeadRecord,
    (rows.Pairwise fun a b =>
      a.deadAtMs < b.deadAtMs ∨ a.deadAtMs = b.deadAtMs ∧ a.deliveryId < b.deliveryId) ∧
    (∀ d, d ∈ rows ↔ ∃ id : String, s.deadById[id]? = some d) ∧
    (0 < limit → ∀ fuel, rows.length < fuel →
      follow (fetchPage codecs s durableRoot database nowMs subscribers limit) fuel none =
        .ok (some (rows.map (deadLetterObserveEntry codecs)))) ∧
    ∃ snapshot, observeSnapshot codecs s durableRoot database
        (windowOptions nowMs subscribers limit since window) = .ok snapshot ∧
      snapshot.deadLetters =
        ((windowRows since window rows).take limit).map (deadLetterObserveEntry codecs) ∧
      (snapshot.deadLettersComplete = some true →
        ∀ d ∈ rows, window.startMs ≤ d.deadAtMs → d.deadAtMs < window.endMs →
          deadLetterObserveEntry codecs d ∈ snapshot.deadLetters)

theorem listing_iff {rows : List DeadRecord} : Listing timeKey rows ↔ rows.Pairwise fun a b =>
    a.deadAtMs < b.deadAtMs ∨ a.deadAtMs = b.deadAtMs ∧ a.deliveryId < b.deliveryId :=
  List.Pairwise.iff fun _ _ => toLex_lt_iff

section Exact

variable {codecs : Codecs} {s : Store} {durableRoot database : String} {nowMs : UInt64}
  {subscribers : Option (Std.ExtTreeSet String)} {limit : ℕ} {since : Option String}
  {window : DeadLetterWindow}

theorem inWindow_iff {d : DeadRecord} :
    inWindow (some window) d = true ↔ window.startMs ≤ d.deadAtMs ∧ d.deadAtMs < window.endMs := by
  simp [inWindow]

/-- `since` names no row of the window, or more rows than the limit are behind it. -/
def NothingHidden (s : Store) (limit : ℕ) (since : Option String) (window : DeadLetterWindow) : Prop :=
  ∀ d ∈ deadListing s, window.startMs ≤ d.deadAtMs → d.deadAtMs < window.endMs →
    since = some d.deliveryId → limit < (windowRows since window (deadListing s)).length

theorem windowRows_of_not_named {rows : List DeadRecord}
    (h : ∀ d ∈ rows, window.startMs ≤ d.deadAtMs → d.deadAtMs < window.endMs →
      since ≠ some d.deliveryId) :
    windowRows since window rows = rows.filter (inWindow (some window)) := by
  cases since with
  | none => rfl
  | some since =>
    refine Keyset.trimAfter_of_not_named fun d hd => ?_
    obtain ⟨hd, hwindow⟩ := List.mem_filter.1 hd
    obtain ⟨hstart, hend⟩ := inWindow_iff.1 hwindow
    rw [beq_eq_false_iff_ne]
    exact fun heq => h d hd hstart hend (congrArg some heq.symm)

variable (codecs limit) in
/-- A row that `since` names is not shown, nor is any entry like its entry. -/
theorem exists_hidden (hs : s.Inv) {d : DeadRecord} (hd : d ∈ deadListing s)
    (hstart : window.startMs ≤ d.deadAtMs) (hend : d.deadAtMs < window.endMs)
    (hsince : since = some d.deliveryId) :
    ∃ x ∈ deadListing s, window.startMs ≤ x.deadAtMs ∧ x.deadAtMs < window.endMs ∧
      deadLetterObserveEntry codecs x ∉
        ((windowRows since window (deadListing s)).take limit).map (deadLetterObserveEntry codecs) := by
  subst hsince
  have hmem : d ∈ (deadListing s).filter (inWindow (some window)) :=
    List.mem_filter.2 ⟨hd, inWindow_iff.2 ⟨hstart, hend⟩⟩
  obtain ⟨x, hx, hhidden⟩ : ∃ x ∈ (deadListing s).filter (inWindow (some window)),
      x ∉ windowRows (some d.deliveryId) window (deadListing s) :=
    Keyset.exists_notMem_trimAfter ((listing_deadListing hs).filter _).nodup
      ⟨d, hmem, beq_self_eq_true _⟩
  obtain ⟨hx, hwindow⟩ := List.mem_filter.1 hx
  obtain ⟨hxstart, hxend⟩ := inWindow_iff.1 hwindow
  refine ⟨x, hx, hxstart, hxend, fun hshown => ?_⟩
  obtain ⟨y, hy, hentry⟩ := List.mem_map.1 hshown
  have hy : y ∈ windowRows (some d.deliveryId) window (deadListing s) := List.mem_of_mem_take hy
  have hyrow : y ∈ deadListing s := by
    refine List.mem_of_mem_filter (p := inWindow (some window)) ?_
    exact Keyset.mem_of_mem_trimAfter hy
  have hid : y.deliveryId = x.deliveryId := congrArg DeadLetterObserveEntry.deliveryId hentry
  have hsame : y = x := by
    have hget := deadById_of_mem_deadListing hs hyrow
    rw [hid, deadById_of_mem_deadListing hs hx] at hget
    exact (Option.some.inj hget).symm
  exact hhidden (hsame ▸ hy)

theorem exactReads_iff (hs : s.Inv) (hkeys : KeyedByRuntimeKeys s) (hcodecs : codecs.Lawful)
    (hsince : since ≠ some "") :
    ExactReads codecs s durableRoot database nowMs subscribers limit since window ↔
      NothingHidden s limit since window := by
  obtain ⟨snapshot, hsnapshot, hrows, hcomplete⟩ := observeSnapshot_window codecs durableRoot database
    nowMs subscribers limit window hs hkeys hsince
  have hlisting := listing_deadListing hs
  constructor
  · rintro ⟨rows, hsorted, hmem, _, snapshot', hsnapshot', _, hall⟩ d hd hstart hend hnamed
    obtain rfl : snapshot = snapshot' := Except.ok.inj (hsnapshot.symm.trans hsnapshot')
    obtain rfl : rows = deadListing s :=
      (listing_iff.2 hsorted).ext hlisting fun d => (hmem d).trans mem_deadListing.symm
    by_contra hfits
    obtain ⟨x, hx, hxstart, hxend, hhidden⟩ := exists_hidden codecs limit hs hd
      hstart hend hnamed
    rw [← hrows] at hhidden
    exact hhidden (hall (hcomplete.2 (Nat.not_lt.1 hfits)) x hx hxstart hxend)
  · intro hnothing
    refine ⟨deadListing s, listing_iff.1 hlisting, fun d => mem_deadListing, fun hlimit fuel hfuel =>
      follow_fetchPage durableRoot database nowMs subscribers limit hs hkeys hcodecs hlimit hfuel,
      snapshot, hsnapshot, hrows, fun hflag d hd hstart hend => ?_⟩
    have hfits := hcomplete.1 hflag
    have hall : windowRows since window (deadListing s) =
        (deadListing s).filter (inWindow (some window)) :=
      windowRows_of_not_named fun x hx hxstart hxend hnamed =>
        absurd (hnothing x hx hxstart hxend hnamed) (Nat.not_lt.2 hfits)
    rw [hrows, List.take_of_length_le hfits, hall]
    exact List.mem_map_of_mem (List.mem_filter.2 ⟨hd, inWindow_iff.2 ⟨hstart, hend⟩⟩)

end Exact

/-- **Paging and window reads are exact up to the flag.**  In every store that calls can reach, the
pages visit every dead letter once and in order, and a read of a window returns its first rows after
the `since` cursor; the flag is right unless `since` names a row of the window and what is behind it
fits the limit. -/
theorem deadLetterReads_exact_iff (codecs : Codecs) (hcodecs : codecs.Lawful) (env : Env)
    (acts : List Act) (henqueued : ∀ e ∈ (World.init.run env acts).2, EnqueuesRuntimeKey e.txn)
    (durableRoot database : String) (nowMs : UInt64) (subscribers : Option (Std.ExtTreeSet String))
    (limit : ℕ) (since : Option String) (hsince : since ≠ some "") (window : DeadLetterWindow) :
    ExactReads codecs (World.init.run env acts).1.store durableRoot database nowMs subscribers limit
        since window ↔
      NothingHidden (World.init.run env acts).1.store limit since window :=
  exactReads_iff (World.run_inv env acts).store (keyedByRuntimeKeys_run env acts henqueued) hcodecs
    hsince

/-! ## A small example -/

namespace Sample

open Delivery.Sample

/-- Drop a prefix. -/
def stripPrefix (front text : List Char) : Option (List Char) :=
  if front.isPrefixOf text then some (text.drop front.length) else none

theorem stripPrefix_append (front text : List Char) :
    stripPrefix front (front ++ text) = some text := by
  simp [stripPrefix, List.isPrefixOf_iff_prefix]

/-- What is in front of the version. -/
def versionFront : List Char := "\x7b\"version\":".toList

/-- What is in front of the section. -/
def sectionFront : List Char := ",\"section\":\"".toList

/-- What is in front of the time. -/
def timeFront : List Char := "\",\"dead_at_ms\":".toList

/-- What is in front of the id, without the comma. -/
def idFront : List Char := "\"delivery_id\":\"".toList

/-- What is behind the id. -/
def idBack : List Char := "\"\x7d".toList

/-- The JSON of an envelope whose texts need no escapes. -/
def envelopeText (envelope : DeadLetterCursorEnvelope) : List Char :=
  versionFront ++ envelope.version.toNat.repr.toList ++ sectionFront ++
    envelope.«section».toList ++ timeFront ++ envelope.deadAtMs.toNat.repr.toList ++
    ',' :: (idFront ++ envelope.deliveryId.toList ++ idBack)

/-- The front of the JSON of a cursor. -/
def cursorFront : List Char :=
  versionFront ++ (1 : UInt32).toNat.repr.toList ++ sectionFront ++ "dead_letters".toList ++ timeFront

/-- Read the id of a cursor. -/
def readId (deadAtMs : UInt64) (text : List Char) : Option DeadLetterCursorEnvelope :=
  if idBack.isSuffixOf text then
    some ⟨1, "dead_letters", deadAtMs, String.ofList (text.take (text.length - 2))⟩
  else none

/-- Read the time and the id of a cursor. -/
def readTime (text : List Char) : Option DeadLetterCursorEnvelope :=
  (Text.splitOnce ',' text).bind fun parts => (parseU64 parts.1).bind fun deadAtMs =>
    (stripPrefix idFront parts.2).bind (readId deadAtMs)

/-- Read the JSON of a cursor. -/
def readCursor (text : List Char) : Option DeadLetterCursorEnvelope :=
  (stripPrefix cursorFront text).bind readTime

/-- `serde_json` on the cursors of this example, and `base64`. -/
def codecs : Codecs where
  envelopeToVec envelope := (envelopeText envelope).map fun c => UInt8.ofNat c.toNat
  envelopeFromSlice bytes := match readCursor (bytes.map fun b => Char.ofNat b.toNat) with
    | some envelope => .ok envelope
    | none => .error "expected value at line 1 column 1"
  base64Encode bytes := String.ofList (Base64.encode bytes)
  base64Decode text := match Base64.decode text.toList with
    | some bytes => .ok bytes
    | none => .error "Invalid input"
  valueToVec _ := "null".toList.map fun c => UInt8.ofNat c.toNat

theorem envelopeText_envelope (cursor : DeadLetterPageCursor) :
    envelopeText cursor.envelope = cursorFront ++ (cursor.deadAtMs.toNat.repr.toList ++
      ',' :: (idFront ++ (cursor.deliveryId.toList ++ idBack))) := by
  simp only [envelopeText, cursorFront, DeadLetterPageCursor.envelope, List.append_assoc]

theorem readCursor_envelopeText (cursor : DeadLetterPageCursor) :
    readCursor (envelopeText cursor.envelope) = some cursor.envelope := by
  have hid : readId cursor.deadAtMs (cursor.deliveryId.toList ++ idBack) = some cursor.envelope := by
    have hlen : idBack.length = 2 := by decide
    rw [readId, if_pos (by simp), List.length_append, hlen, Nat.add_sub_cancel, List.take_left,
      String.ofList_toList]
    rfl
  rw [readCursor, envelopeText_envelope, stripPrefix_append, Option.bind_some, readTime,
    Text.splitOnce_append (Text.notMem_repr (by decide) _), Option.bind_some, parseU64_repr,
    Option.bind_some, stripPrefix_append, Option.bind_some, hid]

theorem lt_of_isDigit {c : Char} (h : c.isDigit = true) : c.toNat < 128 := by
  have hle : '0' ≤ c ∧ c ≤ '9' := by simpa [Char.isDigit, Char.le_def] using h
  exact Nat.lt_of_le_of_lt (UInt32.le_iff_toNat_le.1 (Char.le_def.1 hle.2)) (by decide)

theorem lt_of_runtimeKey {id : String} (h : validateRuntimeKey id = .ok id) {c : Char}
    (hc : c ∈ id.toList) : c.toNat < 128 := by
  rcases char_of_runtimeKey h hc with rfl | hchar
  · decide
  · exact Nat.lt_succ_of_le (UInt32.le_iff_toNat_le.1
      (Char.utf8Size_eq_one_iff.1 (Router.utf8Size_of_isKeyChar hchar)))

theorem codecs_lawful : codecs.Lawful where
  base64 bytes := by
    simp only [codecs, String.toList_ofList, Base64.decode_encode]
  json cursor hid := by
    have htexts : (cursorFront ++ ',' :: (idFront ++ idBack)).all (·.toNat < 128) = true := by
      decide +kernel
    have hchars : ∀ c ∈ envelopeText cursor.envelope, c.toNat < 128 := by
      intro c hc
      rw [envelopeText_envelope] at hc
      simp only [List.all_eq_true, decide_eq_true_eq, List.mem_append, List.mem_cons] at hc htexts
      rcases hc with hc | hc | hc | hc | hc | hc
      · exact htexts c (.inl hc)
      · rw [Nat.toList_repr] at hc
        exact lt_of_isDigit (Nat.isDigit_of_mem_toDigits (by decide) (by decide) hc)
      · exact htexts c (.inr (.inl hc))
      · exact htexts c (.inr (.inr (.inl hc)))
      · exact lt_of_runtimeKey hid hc
      · exact htexts c (.inr (.inr (.inr hc)))
    have hback : ((envelopeText cursor.envelope).map fun c => UInt8.ofNat c.toNat).map
        (fun b => Char.ofNat b.toNat) = envelopeText cursor.envelope := by
      rw [List.map_map]
      conv_rhs => rw [← List.map_id (envelopeText cursor.envelope)]
      refine List.map_congr_left fun c hc => ?_
      have hlt := hchars c hc
      show Char.ofNat (UInt8.ofNat c.toNat).toNat = c
      rw [UInt8.toNat_ofNat', Nat.mod_eq_of_lt (by omega), Char.ofNat_toNat]
    simp only [codecs, hback, readCursor_envelopeText]

/-- Two deliveries that were tried once and died, at 1 and at 2. -/
def twoDead : List Act := Act.inSequence
  [.enqueue (record "a" false), .lease 0 1 ⟨0, 0⟩ none ∅,
    .retry "a" 1 ⟨"failed", true⟩ retryPolicy 1,
    .enqueue (record "b" false), .lease 1 1 ⟨0, 0⟩ none ∅,
    .retry "b" 1 ⟨"failed", true⟩ retryPolicy 2]

/-- An enqueue has a delivery id that is a runtime key. -/
def enqueuesKey (e : Entry) : Bool :=
  match e.txn with
  | .enqueue record => decide (validateRuntimeKey record.val.deliveryId = .ok record.val.deliveryId)
  | _ => true

theorem enqueuesRuntimeKey_twoDead : ∀ e ∈ (World.init.run env twoDead).2, EnqueuesRuntimeKey e.txn := by
  have hall : (World.init.run env twoDead).2.all enqueuesKey = true := by
    decide +kernel
  intro e he
  have he := List.all_eq_true.1 hall e he
  cases htxn : e.txn with
  | enqueue record =>
    simp only [enqueuesKey, htxn, decide_eq_true_eq] at he
    exact he
  | _ => trivial

end Sample

/-- The theorem at two dead letters, a page of which has one. -/
theorem deadLetterReads_exact_twoDead :
    ExactReads Sample.codecs (World.init.run Delivery.Sample.env Sample.twoDead).1.store "root"
      "root/delivery.redb" 5 none 1 none ⟨0, 10⟩ :=
  (deadLetterReads_exact_iff Sample.codecs Sample.codecs_lawful Delivery.Sample.env Sample.twoDead
    Sample.enqueuesRuntimeKey_twoDead "root" "root/delivery.redb" 5 none 1 none (by decide)
    ⟨0, 10⟩).2 fun _ _ _ _ hsince => by cases hsince

/-- Two dead letters are in the window and the limit is one.  Behind the first one there is one left, so
that the snapshot says that it is complete. -/
theorem complete_without_first :
    ¬ ExactReads Sample.codecs (World.init.run Delivery.Sample.env Sample.twoDead).1.store "root"
      "root/delivery.redb" 5 none 1 (some "a") ⟨0, 10⟩ := by
  have hinv := (World.run_inv Delivery.Sample.env Sample.twoDead).store
  rw [exactReads_iff hinv
    (keyedByRuntimeKeys_run _ _ Sample.enqueuesRuntimeKey_twoDead) Sample.codecs_lawful (by decide)]
  have hfirst : (World.init.run Delivery.Sample.env Sample.twoDead).1.store.deadById["a"]?.any
      (fun d => decide (d.deliveryId = "a" ∧ d.deadAtMs = 1)) = true := by
    decide +kernel
  have hsize : (World.init.run Delivery.Sample.env Sample.twoDead).1.store.deadById.size = 2 := by
    decide +kernel
  obtain ⟨d, hd, hrow⟩ := (Option.any_eq_true _ _).1 hfirst
  obtain ⟨hid, hat⟩ := of_decide_eq_true hrow
  intro hnothing
  have hmem := mem_deadListing.2 ⟨"a", hd⟩
  have hstart : (0 : UInt64) ≤ d.deadAtMs := by rw [hat]; decide
  have hend : d.deadAtMs < 10 := by rw [hat]; decide
  have hmore := hnothing d hmem hstart hend (congrArg some hid.symm)
  have hshorter : (windowRows (some "a") ⟨0, 10⟩
      (deadListing (World.init.run Delivery.Sample.env Sample.twoDead).1.store)).length <
        ((deadListing (World.init.run Delivery.Sample.env Sample.twoDead).1.store).filter
          (inWindow (some ⟨0, 10⟩))).length :=
    Keyset.length_trimAfter_lt ⟨d, List.mem_filter.2 ⟨hmem, inWindow_iff.2 ⟨hstart, hend⟩⟩, by
      rw [hid]
      rfl⟩
  have hlen : (deadListing (World.init.run Delivery.Sample.env Sample.twoDead).1.store).length = 2 := by
    rw [deadListing, List.length_mergeSort, scanRecords, List.length_map, Std.ExtTreeMap.length_toList,
      hsize]
  have hle := List.length_filter_le (inWindow (some ⟨0, 10⟩))
    (deadListing (World.init.run Delivery.Sample.env Sample.twoDead).1.store)
  omega

end Fkst.Observe
