import Fkst.Delivery.DueKeys
import Fkst.Delivery.Indexes
import Fkst.Observe.Snapshot
import Mathlib.Data.Prod.Lex

/-!
# What a snapshot shows

The dead letters of a store in the order of `(dead_at_ms, delivery_id)` are one listing, `deadListing`.
Every snapshot shows a part of it: the rows of the window, those behind the cursor of the page, those
behind the row that `since` names, and of these the first few (`observeSnapshot_eq`).

A full scan makes the listing by sorting.  The walk over the time index makes it by reading the keys in
their order, and needs for it that the index is exact, which it is in every store that was reached by
calls, and that the ids of deliveries are runtime keys, which they are because the router makes them:
the range of a walk ends with a character that is above every character of a runtime key.
-/

set_option autoImplicit false

namespace Fkst.Observe

open Lib Delivery
open Lib.Keyset (Listing listing_mergeSort)
open Router (validateRuntimeKey)

/-! ## Ids -/

/-- The dead letters of the store are under runtime keys. -/
def KeyedByRuntimeKeys (s : Store) : Prop :=
  ∀ (id : String) (d : DeadRecord), s.deadById[id]? = some d → validateRuntimeKey id = .ok id

/-- If it enqueues anything, the transaction enqueues a delivery under a runtime key. -/
def EnqueuesRuntimeKey : Txn → Prop
  | .enqueue record => validateRuntimeKey record.val.deliveryId = .ok record.val.deliveryId
  | _ => True

/-- The router only makes ids that are runtime keys. -/
theorem validateRuntimeKey_deliveryId {args : Router.IdentityArgs} {i : Router.DeliveryIdentity}
    (h : Router.deriveDeliveryIdentity args = some i) :
    validateRuntimeKey i.deliveryId = .ok i.deliveryId := by
  rw [Router.deriveDeliveryIdentity] at h
  split at h
  · cases h
  · split at h
    · rename_i key _ valid hvalid
      obtain rfl := Option.some.inj h
      rw [hvalid]
      rw [validateRuntimeKey] at hvalid
      split_ifs at hvalid
      obtain ⟨_, _, hreturn⟩ := Checks.bind_eq_ok.1 hvalid
      exact hreturn.symm
    · cases h

/-- A delivery has rows. -/
def HasRows (v : View) : Prop := v.live ≠ none ∨ v.dead ≠ none

/-- Rows come from rows, or from an `enqueue` of the delivery. -/
theorem hasRows_of_move {env : Env} {id : String} {t : Txn} {o : Option Event} {v v' : View}
    (h : Move env id t o v v') (hrows : HasRows v') :
    HasRows v ∨ ∃ record, t = .enqueue record ∧ record.val.deliveryId = id := by
  cases h with
  | insert record hid => exact .inr ⟨record, rfl, hid⟩
  | compact nowMs hclock hdead => exact .inl (.inr (by simp [hdead]))
  | redrive _ _ _ _ _ hdead | kill _ _ _ _ _ hdead | killFollowUp _ _ _ _ _ hdead =>
    exact .inl (.inr (by simp [hdead]))
  | mark _ hlive | reset _ hlive | rebind _ _ hlive | absence _ _ _ _ _ hlive
  | sweep _ _ _ _ hlive | renew _ _ hlive | grant _ _ _ _ _ _ _ hlive | grantNext _ _ hlive
  | ack hlive | ackFollowUp hlive | defer _ _ _ hlive | retry _ _ _ _ hlive
  | deadLetter _ _ _ hlive | terminate _ _ _ hlive | terminateFollowUp _ _ _ hlive =>
    exact .inl (.inl (by simp [hlive]))

/-- **Every delivery with rows is under a runtime key**, after every run that enqueues no other. -/
theorem keyedByRuntimeKeys_run (env : Env) (acts : List Act)
    (henqueued : ∀ e ∈ (World.init.run env acts).2, EnqueuesRuntimeKey e.txn) :
    KeyedByRuntimeKeys (World.init.run env acts).1.store := by
  have hstep : ∀ (h : List Entry) (e : Entry), e.Committed env →
      ((∀ e ∈ h, EnqueuesRuntimeKey e.txn) → ∀ id, HasRows (e.before.view id) →
        validateRuntimeKey id = .ok id) →
      (∀ e' ∈ h ++ [e], EnqueuesRuntimeKey e'.txn) → ∀ id, HasRows (e.after.view id) →
        validateRuntimeKey id = .ok id := by
    intro h e he hbefore hall id
    refine Lib.Path.preserves (P := fun _ v => HasRows v → validateRuntimeKey id = .ok id) ?_
      (he.moves id) (hbefore (fun e' he' => hall e' (List.mem_append_left _ he')) id)
    rintro _ o v v' hv hmove hrows
    rcases hasRows_of_move hmove hrows with hrows | ⟨record, htxn, rfl⟩
    · exact hv hrows
    · have hkey := hall e (List.mem_append_right _ (List.mem_singleton.2 rfl))
      rw [htxn] at hkey
      exact hkey
  have hrun := World.run_induction (P := fun s h => (∀ e ∈ h, EnqueuesRuntimeKey e.txn) →
    ∀ id, HasRows (s.view id) → validateRuntimeKey id = .ok id) hstep World.inv_init (h := [])
    (fun _ id hrows => by simp [HasRows, Store.view, World.init, Store.empty] at hrows) acts
  intro id d hd
  exact hrun.2 (by simpa using henqueued) id (.inr (by simp [Store.view, hd]))

/-! ## The order of dead letters -/

/-- What dead letters are listed by. -/
def timeKey (d : DeadRecord) : ℕ ×ₗ String := toLex (d.deadAtMs.toNat, d.deliveryId)

/-- The key of a cursor. -/
def DeadLetterPageCursor.timeKey (cursor : DeadLetterPageCursor) : ℕ ×ₗ String :=
  toLex (cursor.deadAtMs.toNat, cursor.deliveryId)

theorem toLex_lt_iff {ms ms' : UInt64} {id id' : String} :
    toLex (ms.toNat, id) < toLex (ms'.toNat, id') ↔ ms < ms' ∨ ms = ms' ∧ id < id' := by
  rw [Prod.Lex.toLex_lt_toLex, UInt64.lt_iff_toNat_lt, UInt64.toNat_inj]

theorem timeIdLt_eq (ms : UInt64) (id : String) (ms' : UInt64) (id' : String) :
    timeIdLt ms id ms' id' = decide (toLex (ms.toNat, id) < toLex (ms'.toNat, id')) :=
  decide_eq_decide.2 toLex_lt_iff.symm

/-- The keys of the time index are in the order of what they say. -/
theorem timeIndexKey_lt_iff {ms ms' : UInt64} {id id' : String} :
    makeDeadTimeIndexKey ms id < makeDeadTimeIndexKey ms' id' ↔
      toLex (ms.toNat, id) < toLex (ms'.toNat, id') :=
  makeDeadTimeIndexKey_lt_iff.trans toLex_lt_iff.symm

theorem compareDeadLetters_isLE {a b : DeadRecord} :
    (compareDeadLetters a b).isLE = true ↔ timeKey a ≤ timeKey b := by
  rw [compareDeadLetters, Ordering.isLE_then_iff_or, timeKey, timeKey, Prod.Lex.toLex_le_toLex,
    Std.compare_eq_lt, Std.LawfulEqCmp.compare_eq_iff_eq, UInt64.lt_iff_toNat_lt, UInt64.toNat_inj]
  refine or_congr_right (and_congr_right fun _ => ?_)
  rw [Ordering.isLE_iff_ne_gt]
  exact compare_le_iff_le

/-! ## The listing -/

/-- The dead letters of a store, in the order of their times, and for one time of their ids. -/
def deadListing (s : Store) : List DeadRecord :=
  (scanRecords s).mergeSort fun left right => (compareDeadLetters left right).isLE

theorem mem_scanRecords {s : Store} {d : DeadRecord} :
    d ∈ scanRecords s ↔ ∃ id : String, s.deadById[id]? = some d := by
  simp [scanRecords, Std.ExtTreeMap.mem_toList_iff_getElem?_eq_some]

theorem mem_deadListing {s : Store} {d : DeadRecord} :
    d ∈ deadListing s ↔ ∃ id : String, s.deadById[id]? = some d := by
  rw [deadListing, List.mem_mergeSort, mem_scanRecords]

section Listing

variable {s : Store}

theorem deadById_of_mem_deadListing (hs : s.Inv) {d : DeadRecord} (hd : d ∈ deadListing s) :
    s.deadById[d.deliveryId]? = some d := by
  obtain ⟨id, hid⟩ := mem_deadListing.1 hd
  rw [(hs.deadOk hid).deliveryId, hid]

/-- **The dead letters are a listing.** -/
theorem listing_deadListing (hs : s.Inv) : Listing timeKey (deadListing s) := by
  refine listing_mergeSort (fun _ _ => compareDeadLetters_isLE) ?_
  rw [scanRecords, List.pairwise_map]
  have hkeys := Table.keys_nodup s.deadById
  rw [List.Nodup, List.pairwise_map] at hkeys
  refine hkeys.imp_of_mem fun {p q} hp hq hne hkey => hne ?_
  have hid : ∀ {p : String × DeadRecord}, p ∈ s.deadById.toList → p.2.deliveryId = p.1 := fun hp =>
    (hs.deadOk (Std.ExtTreeMap.mem_toList_iff_getElem?_eq_some.1 hp)).deliveryId
  rw [← hid hp, ← hid hq]
  exact congrArg (fun key => (ofLex key).2) hkey

end Listing

/-! ## The walk over the index -/

/-- What a walk skips: everything up to the cursor. -/
def behind (after : Option DeadLetterPageCursor) (d : DeadRecord) : Bool :=
  after.all fun cursor => decide (cursor.timeKey < timeKey d)

/-- The rows of a window. -/
def inWindow (window : Option DeadLetterWindow) (d : DeadRecord) : Bool :=
  window.all fun window => decide (window.startMs ≤ d.deadAtMs ∧ d.deadAtMs < window.endMs)

/-- The first rows, if there is a limit. -/
def upTo {α : Type} (limit : Option ℕ) (rows : List α) : List α :=
  match limit with
  | none => rows
  | some limit => rows.take limit

/-- The entry of a row in the time index. -/
def timeEntry (d : DeadRecord) : String × Unit :=
  (makeDeadTimeIndexKey d.deadAtMs d.deliveryId, ())

theorem collectDeadLetterPageRecord_eq {s : Store} {d : DeadRecord} (records : List DeadRecord)
    (hd : s.deadById[d.deliveryId]? = some d) :
    collectDeadLetterPageRecord s (timeEntry d).1 records = .ok (records ++ [d]) := by
  rw [collectDeadLetterPageRecord, timeEntry, parseDeadTimeIndexKey_makeDeadTimeIndexKey]
  simp [withText, bind, Except.bind, hd]

/-- **The walk** reads the rows whose keys it meets, those behind the cursor, up to the limit. -/
theorem collectDeadLetters_eq {s : Store} (after : Option DeadLetterPageCursor) (limit : Option ℕ) :
    ∀ (rows records : List DeadRecord), (∀ d ∈ rows, s.deadById[d.deliveryId]? = some d) →
      (∀ n, limit = some n → records.length < n) →
      collectDeadLetters s after limit (rows.map timeEntry) records =
        .ok (records ++ upTo (limit.map (· - records.length)) (rows.filter (behind after)))
  | [], records, _, _ => by
    cases limit with
    | none => simp [collectDeadLetters, upTo]
    | some n => simp [collectDeadLetters, upTo]
  | d :: rows, records, hrows, hlimit => by
    have hrest : ∀ d ∈ rows, s.deadById[d.deliveryId]? = some d :=
      fun d hd => hrows d (List.mem_cons_of_mem _ hd)
    have hskip : (after.any fun cursor =>
        !timeIdLt cursor.deadAtMs cursor.deliveryId d.deadAtMs d.deliveryId) =
          !behind after d := by
      cases after with
      | none => rfl
      | some cursor =>
        show (!timeIdLt _ _ _ _) = !decide _
        rw [timeIdLt_eq]
        rfl
    rw [List.map_cons, timeEntry, collectDeadLetters, parseDeadTimeIndexKey_makeDeadTimeIndexKey]
    show (if (after.any fun cursor =>
        !timeIdLt cursor.deadAtMs cursor.deliveryId d.deadAtMs d.deliveryId) = true
      then collectDeadLetters s after limit (rows.map timeEntry) records
      else collectDeadLetterPageRecord s (timeEntry d).1 records >>= fun records =>
        if limit.any (· ≤ records.length) then .ok records
        else collectDeadLetters s after limit (rows.map timeEntry) records) = _
    rw [hskip, collectDeadLetterPageRecord_eq records (hrows d List.mem_cons_self), List.filter_cons]
    cases hbehind : behind after d with
    | false => exact collectDeadLetters_eq after limit rows records hrest hlimit
    | true =>
      show (if limit.any (· ≤ (records ++ [d]).length) then Except.ok (records ++ [d])
        else collectDeadLetters s after limit (rows.map timeEntry) (records ++ [d])) = _
      by_cases hfull : limit = some (records.length + 1)
      · subst hfull
        simp [upTo]
      · have hroom : ∀ n, limit = some n → (records ++ [d]).length < n := by
          rintro n rfl
          have hlt := hlimit n rfl
          have hne : n ≠ records.length + 1 := fun h => hfull (congrArg some h)
          rw [List.length_append, List.length_singleton]
          omega
        have hnot : limit.any (· ≤ (records ++ [d]).length) = false := by
          cases limit with
          | none => rfl
          | some n => simpa using hroom n rfl
        rw [hnot, if_neg (by simp),
          collectDeadLetters_eq after limit rows (records ++ [d]) hrest hroom, List.append_assoc]
        cases limit with
        | none => rfl
        | some n =>
          have hlt := hroom n rfl
          rw [List.length_append, List.length_singleton] at hlt
          have hsub : n - records.length = n - (records.length + 1) + 1 := by omega
          simp [upTo, hsub]

/-- Where a walk starts. -/
def lowerMs (after : Option DeadLetterPageCursor) (window : Option DeadLetterWindow) : UInt64 :=
  match after, window with
  | some cursor, some window => max cursor.deadAtMs window.startMs
  | some cursor, none => cursor.deadAtMs
  | none, some window => window.startMs
  | none, none => 0

/-- Where a walk ends. -/
def upperMs (window : Option DeadLetterWindow) : UInt64 :=
  match window with
  | some window => window.endMs - 1
  | none => u64Max

/-- The key that a walk starts at. -/
def lowerBound (ms : UInt64) : String := String.ofList (padded20 ms) ++ "/"

/-- The key that a walk ends at. -/
def upperBound (ms : UInt64) : String :=
  String.ofList (padded20 ms) ++ "/" ++ String.ofList [lastChar]

theorem deadLetterTimeBounds_eq (after : Option DeadLetterPageCursor)
    (window : Option DeadLetterWindow) :
    deadLetterTimeBounds after window = (lowerBound (lowerMs after window), upperBound (upperMs window)) :=
  rfl

theorem makeDeadTimeIndexKey_lt_lowerBound_iff {ms lower : UInt64} {id : String} :
    makeDeadTimeIndexKey ms id < lowerBound lower ↔ ms < lower := by
  rw [String.lt_iff, toList_makeDeadTimeIndexKey, lowerBound, String.toList_append,
    String.toList_ofList, padded20_append_lt_iff]
  simp

theorem upperBound_lt_makeDeadTimeIndexKey_iff {ms upper : UInt64} {id : String}
    (hid : validateRuntimeKey id = .ok id) :
    upperBound upper < makeDeadTimeIndexKey ms id ↔ upper < ms := by
  rw [String.lt_iff, toList_makeDeadTimeIndexKey, upperBound, String.toList_append,
    String.toList_append, String.toList_ofList, String.toList_ofList, List.append_assoc,
    padded20_append_lt_iff]
  have hlast := not_lastChar_lt_of_runtimeKey hid
  simp [hlast]

theorem upperBound_lt_lowerBound_iff {lower upper : UInt64} :
    upperBound upper < lowerBound lower ↔ upper < lower := by
  rw [String.lt_iff, upperBound, lowerBound]
  simp only [String.toList_append, String.toList_ofList, List.append_assoc]
  rw [padded20_append_lt_iff]
  simp

section Walk

variable {s : Store}

/-- The entries of the dead letters are listed like the dead letters. -/
theorem listing_timeEntry {rows : List DeadRecord} (h : Listing timeKey rows) :
    Listing (Prod.fst : String × Unit → String) (rows.map timeEntry) := by
  rw [Listing, List.pairwise_map]
  exact List.Pairwise.imp (fun hlt => timeIndexKey_lt_iff.2 hlt) h

theorem mem_deadByTime_iff (hs : s.Inv) {key : String} :
    key ∈ s.deadByTime ↔ ∃ d ∈ deadListing s, key = (timeEntry d).1 := by
  rw [KeyFormat.mem_iff hs.wellFormed.deadTime hs.deadTime_entries]
  constructor
  · rintro ⟨id, _, ⟨d, hd, rfl⟩, rfl⟩
    have hid := (hs.deadOk hd).deliveryId
    exact ⟨d, mem_deadListing.2 ⟨id, hd⟩, by rw [timeEntry, hid]; rfl⟩
  · rintro ⟨d, hd, rfl⟩
    exact ⟨d.deliveryId, d.deadAtMs, ⟨d, deadById_of_mem_deadListing hs hd, rfl⟩, rfl⟩

/-- **A range of the index** has the entries of the dead letters between two times. -/
theorem range_deadByTime (hs : s.Inv) (hkeys : KeyedByRuntimeKeys s) (lower upper : UInt64) :
    Table.range s.deadByTime (lowerBound lower) (upperBound upper) =
      ((deadListing s).filter fun d =>
        decide (lower ≤ d.deadAtMs ∧ d.deadAtMs ≤ upper)).map timeEntry := by
  refine (listing_range _ _ _).ext (listing_timeEntry ((listing_deadListing hs).filter _)) ?_
  rintro ⟨key, ⟨⟩⟩
  have hmem : s.deadByTime[key]? = some () ↔ key ∈ s.deadByTime := by
    rw [← Std.ExtTreeMap.isSome_getElem?_iff_mem]
    cases s.deadByTime[key]? with
    | none => simp
    | some u => simp
  have hbounds : ∀ d ∈ deadListing s,
      (compare (lowerBound lower) (timeEntry d).1 ≠ .gt ∧
        compare (timeEntry d).1 (upperBound upper) ≠ .gt) ↔
          lower ≤ d.deadAtMs ∧ d.deadAtMs ≤ upper := by
    intro d hd
    have hid := hkeys _ d (deadById_of_mem_deadListing hs hd)
    rw [Ne, compare_eq_gt_iff, Ne, compare_eq_gt_iff, timeEntry,
      makeDeadTimeIndexKey_lt_lowerBound_iff, upperBound_lt_makeDeadTimeIndexKey_iff hid,
      UInt64.not_lt, UInt64.not_lt]
  rw [Table.mem_range, hmem, mem_deadByTime_iff hs, List.mem_map]
  constructor
  · rintro ⟨⟨d, hd, rfl⟩, hrange⟩
    exact ⟨d, List.mem_filter.2 ⟨hd, decide_eq_true ((hbounds d hd).1 hrange)⟩, rfl⟩
  · rintro ⟨d, hd, heq⟩
    obtain ⟨hd, hrange⟩ := List.mem_filter.1 hd
    obtain rfl : (timeEntry d).1 = key := congrArg Prod.fst heq
    exact ⟨⟨d, hd, rfl⟩, (hbounds d hd).2 (of_decide_eq_true hrange)⟩

theorem deadAtMs_le_of_behind {cursor : DeadLetterPageCursor} {d : DeadRecord}
    (h : cursor.timeKey < timeKey d) : cursor.deadAtMs ≤ d.deadAtMs := by
  rcases toLex_lt_iff.1 h with hlt | ⟨heq, _⟩
  · exact UInt64.le_of_lt hlt
  · rw [heq]
    exact UInt64.le_refl _

/-- The two bounds leave out nothing that is behind the cursor and in the window, and nothing else of
what is behind the cursor. -/
theorem bounds_iff {after : Option DeadLetterPageCursor} {window : Option DeadLetterWindow}
    {d : DeadRecord} (hwindow : ∀ w, window = some w → w.startMs < w.endMs)
    (hbehind : behind after d = true) :
    (lowerMs after window ≤ d.deadAtMs ∧ d.deadAtMs ≤ upperMs window) ↔
      inWindow window d = true := by
  have hafter : ∀ cursor, after = some cursor → cursor.deadAtMs ≤ d.deadAtMs := by
    rintro cursor rfl
    exact deadAtMs_le_of_behind (of_decide_eq_true hbehind)
  have hupper : ∀ w : DeadLetterWindow, w.startMs < w.endMs →
      (d.deadAtMs ≤ w.endMs - 1 ↔ d.deadAtMs < w.endMs) := by
    intro w hw
    rw [UInt64.le_iff_toNat_le, UInt64.lt_iff_toNat_lt]
    rw [UInt64.lt_iff_toNat_lt] at hw
    rw [UInt64.toNat_sub_of_le _ _ (UInt64.le_iff_toNat_le.2 (by
      show 1 ≤ w.endMs.toNat
      omega))]
    show _ ≤ w.endMs.toNat - 1 ↔ _
    omega
  cases window with
  | none =>
    have hmax : d.deadAtMs ≤ u64Max := UInt64.le_iff_toNat_le.2 (Nat.le_of_lt_succ d.deadAtMs.toNat_lt)
    cases after with
    | none => simp [lowerMs, upperMs, inWindow, hmax]
    | some cursor => simp [lowerMs, upperMs, inWindow, hmax, hafter cursor rfl]
  | some w =>
    have hend := hupper w (hwindow w rfl)
    cases after with
    | none => simp [lowerMs, upperMs, inWindow, hend]
    | some cursor =>
      have hmax : max cursor.deadAtMs w.startMs ≤ d.deadAtMs ↔ w.startMs ≤ d.deadAtMs := by
        show (if cursor.deadAtMs ≤ w.startMs then w.startMs else cursor.deadAtMs) ≤ _ ↔ _
        split_ifs with hle
        · exact Iff.rfl
        · have hlt := UInt64.le_of_lt (UInt64.not_le.1 hle)
          exact ⟨fun _ => UInt64.le_trans hlt (hafter cursor rfl), fun _ => hafter cursor rfl⟩
      simp [lowerMs, upperMs, inWindow, hend, hmax]

/-- **The scan of a window** reads the rows of the window behind the cursor, in order, up to the
limit. -/
theorem scanRecordsForDeadLetterWindow_eq (hs : s.Inv) (hkeys : KeyedByRuntimeKeys s)
    (after : Option DeadLetterPageCursor) (window : Option DeadLetterWindow) {limit : Option ℕ}
    (hlimit : ∀ n, limit = some n → 0 < n) :
    scanRecordsForDeadLetterWindow s after window limit =
      .ok (upTo limit ((deadListing s).filter fun d => inWindow window d && behind after d)) := by
  have hnone : ∀ {p : DeadRecord → Bool}, (∀ d, p d = false) →
      upTo limit ((deadListing s).filter p) = [] := by
    intro p hp
    rw [List.filter_eq_nil_iff.2 fun d _ => by rw [hp d]; simp]
    cases limit with
    | none => rfl
    | some n => exact List.take_nil
  rw [scanRecordsForDeadLetterWindow]
  split_ifs with hempty
  · cases window with
    | none => simp at hempty
    | some w =>
      have hle : w.endMs ≤ w.startMs := by simpa using hempty
      refine congrArg Except.ok (hnone fun d => ?_).symm
      have hout : ¬ (w.startMs ≤ d.deadAtMs ∧ d.deadAtMs < w.endMs) := fun h =>
        absurd (UInt64.lt_of_lt_of_le h.2 hle) (UInt64.not_lt.2 h.1)
      simp only [inWindow, Option.all_some, decide_eq_false hout, Bool.false_and]
  · have hwindow : ∀ w, window = some w → w.startMs < w.endMs := by
      rintro w rfl
      simpa using hempty
    rw [deadLetterTimeBounds_eq]
    show (if upperBound (upperMs window) < lowerBound (lowerMs after window) then Except.ok []
      else collectDeadLetters s after limit
        (Table.range s.deadByTime (lowerBound (lowerMs after window))
          (upperBound (upperMs window))) []) = _
    have hrows : ∀ d, (behind after d &&
        decide (lowerMs after window ≤ d.deadAtMs ∧ d.deadAtMs ≤ upperMs window)) =
          (inWindow window d && behind after d) := by
      intro d
      cases hbehind : behind after d with
      | false => simp
      | true => simp only [Bool.true_and, Bool.and_true, bounds_iff hwindow hbehind, Bool.decide_eq_true]
    split_ifs with hbounds
    · refine congrArg Except.ok (hnone fun d => ?_).symm
      have hout : ¬ (lowerMs after window ≤ d.deadAtMs ∧ d.deadAtMs ≤ upperMs window) := fun h =>
        absurd (upperBound_lt_lowerBound_iff.1 hbounds) (UInt64.not_lt.2 (UInt64.le_trans h.1 h.2))
      rw [← hrows, decide_eq_false hout, Bool.and_false]
    · rw [range_deadByTime hs hkeys, collectDeadLetters_eq after limit _ []
        (fun d hd => deadById_of_mem_deadListing hs (List.mem_filter.1 hd).1) hlimit, List.nil_append,
        List.filter_filter]
      refine congrArg Except.ok ?_
      have hlimits : (limit.map (· - ([] : List DeadRecord).length)) = limit := by
        cases limit with
        | none => rfl
        | some n => rfl
      rw [hlimits]
      exact congrArg (upTo limit) (List.filter_congr fun d _ => hrows d)

end Walk

/-! ## The snapshot -/

/-- The live rows of a store, in the order of a snapshot. -/
def deliveryListing (s : Store) : List DeliveryRecord :=
  (deliveryRecords s).mergeSort fun left right => (compareDeliveries left right).isLE

/-- The dead letters of the window and of the page. -/
def selected (s : Store) (options : DeliveryObserveOptions) : List DeadRecord :=
  (deadListing s).filter fun d =>
    inWindow options.deadLetterWindow d && behind (options.deadLetterPage.bind (·.after)) d

/-- What `observe_snapshot` accepts. -/
structure Accepted (options : DeliveryObserveOptions) : Prop where
  since : options.since ≠ some ""
  page : options.deadLetterPage.isSome = true → options.since = none
  window : options.deadLetterPage.isSome = true → options.deadLetterWindow = none

/-- One row more than the limit is enough to make a snapshot of. -/
theorem makeSnapshot_take (codecs : Codecs) (durableRoot database : String)
    (options : DeliveryObserveOptions) (queues : Table String QueueAccumulator)
    (deliveries : List DeliveryRecord) (rows : List DeadRecord) :
    makeSnapshot codecs durableRoot database options queues deliveries
        (rows.take (options.limit + 1)) =
      makeSnapshot codecs durableRoot database options queues deliveries rows := by
  have hmore : (options.limit < (rows.take (options.limit + 1)).length) =
      (options.limit < rows.length) := by
    rw [List.length_take]
    exact propext (by omega)
  have hrows : (rows.take (options.limit + 1)).take options.limit = rows.take options.limit := by
    rw [List.take_take, Nat.min_eq_left (Nat.le_succ _)]
  simp only [makeSnapshot, hmore, hrows]

/-- **A snapshot** is made of the listing of the dead letters: of the rows of the window and the page,
behind the row that `since` names. -/
theorem observeSnapshot_eq {s : Store} (hs : s.Inv) (hkeys : KeyedByRuntimeKeys s) (codecs : Codecs)
    (durableRoot database : String) {options : DeliveryObserveOptions} (h : Accepted options) :
    observeSnapshot codecs s durableRoot database options =
      .ok (makeSnapshot codecs durableRoot database options
        (observeQueues (deliveryRecords s) options.nowMs)
        (trimSince DeliveryRecord.deliveryId options.since (deliveryListing s))
        (trimSince DeadRecord.deliveryId options.since (selected s options))) := by
  have hsince : validateSince options.since = .ok () := Checks.bailIf_eq_ok.2 h.since
  have hpage : ¬ (options.deadLetterPage.isSome = true ∧ options.since.isSome = true) := fun hboth => by
    simp [h.page hboth.1] at hboth
  have hwindow : ¬ (options.deadLetterPage.isSome = true ∧ options.deadLetterWindow.isSome = true) :=
    fun hboth => by simp [h.window hboth.1] at hboth
  have hsorted : ∀ {l : List DeadRecord}, Listing timeKey l →
      (l.mergeSort fun left right => (compareDeadLetters left right).isLE) = l :=
    fun hl => hl.mergeSort_eq fun _ _ => compareDeadLetters_isLE
  have hlisting : Listing timeKey (selected s options) := (listing_deadListing hs).filter _
  have hok : ∀ {p : Prop} [Decidable p] (text : String), ¬ p → Checks.bailIf p text = .ok () :=
    fun _ hp => Checks.bailIf_eq_ok.2 hp
  rw [observeSnapshot, hsince, hok _ hpage, hok _ hwindow]
  show (readDeadRecords s options >>= fun deadRecords => Except.ok (makeSnapshot codecs durableRoot
    database options (observeQueues (deliveryRecords s) options.nowMs)
    (trimSince DeliveryRecord.deliveryId options.since (deliveryListing s))
    (trimSince DeadRecord.deliveryId options.since
      (deadRecords.mergeSort fun left right => (compareDeadLetters left right).isLE)))) = _
  rw [readDeadRecords]
  split_ifs with hwalk hall
  · -- `since` with a window: the whole window is read
    rw [scanRecordsForDeadLetterWindow_eq hs hkeys _ _ (by simp)]
    show Except.ok (makeSnapshot codecs durableRoot database options _ _
      (trimSince _ _ ((selected s options).mergeSort _))) = _
    rw [hsorted hlisting]
  · -- one row more than the limit
    have hnone : options.since = none := by
      cases hs' : options.since with
      | none => rfl
      | some since =>
        have hno : options.deadLetterPage.isNone = true := by
          cases hp : options.deadLetterPage with
          | none => rfl
          | some page =>
            rw [hs', hp] at hpage
            simp at hpage
        rw [hs', hno] at hall
        simp at hall
    rw [scanRecordsForDeadLetterWindow_eq hs hkeys _ _ (by simp)]
    have htake : Listing timeKey ((selected s options).take (options.limit + 1)) :=
      List.Pairwise.sublist (List.take_sublist _ _) hlisting
    rw [hnone]
    show Except.ok (makeSnapshot codecs durableRoot database options _ _
      (((selected s options).take (options.limit + 1)).mergeSort _)) = _
    rw [hsorted htake, makeSnapshot_take]
    rfl
  · -- everything is read, and nothing is left out
    have hneither : options.deadLetterWindow = none ∧ options.deadLetterPage = none := by
      simpa using hwalk
    have hselected : selected s options = deadListing s := by
      rw [selected, hneither.1, hneither.2, List.filter_eq_self]
      simp [inWindow, behind]
    rw [hselected]
    rfl

end Fkst.Observe
