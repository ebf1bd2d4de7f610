import Fkst.Delivery.Lineage
import Fkst.Lib.Base64

/-!
# Looking up a lineage

`lookup_lineage` walks the lineage index from the front for the first live delivery of a lineage, and
from the back for the last terminal tombstone.  `lookupLineage_exact` says that this is what a full scan
of the two tables of rows would find.

Two things are needed for it: that the index is exact (`World.lineageExact`), and that the order of the
keys of one lineage is the order of their times and, for one time, of the bytes of their ids
(`lineageIndexKey_lt_iff`).
-/

set_option autoImplicit false

namespace Fkst.Delivery

open Lib

/-- `LineageLookup`. -/
structure LineageLookup where
  liveDelivery : Option DeliveryRecord
  terminalDeadLetter : Option DeadRecord

/-- Where the keys that start with `front` end. -/
def lineageRangeStop (front : String) : String := front ++ String.ofList [lastChar]

namespace Store

/-- The entries of a lineage, for one kind of rows. -/
def lineageRange (env : Env) (s : Store) (queue dept : String) (source : SourceRef)
    (recordKind : String) : List (String × String) :=
  Table.range s.lineageBySource (lineageIndexPrefix env queue dept source recordKind)
    (lineageRangeStop (lineageIndexPrefix env queue dept source recordKind))

/-- `lookup_lineage`. -/
def lookupLineage (env : Env) (s : Store) (queue dept : String) (source : SourceRef) :
    LineageLookup where
  liveDelivery := (s.lineageRange env queue dept source "live").findSome? fun entry =>
    s.deliveryById[entry.2]?
  terminalDeadLetter := (s.lineageRange env queue dept source "terminal").reverse.findSome? fun entry =>
    (s.deadById[entry.2]?).filter isTerminalTombstone

/-! ## What a full scan finds -/

/-- A live row of a lineage. -/
structure LiveOf (s : Store) (queue dept : String) (source : SourceRef) (r : DeliveryRecord) :
    Prop where
  live : ∃ id : String, s.deliveryById[id]? = some r
  queue : r.queue = queue
  dept : r.dept = dept
  source : r.source = some source

/-- A terminal tombstone of a lineage. -/
structure TombstoneOf (s : Store) (queue dept : String) (source : SourceRef) (d : DeadRecord) :
    Prop where
  dead : ∃ id : String, s.deadById[id]? = some d
  attempts : 1 ≤ d.attempts
  permanent : d.permanent = true
  replayable : d.replayable = false
  queue : d.queue = queue
  dept : d.dept = dept
  source : d.source = some source

end Store

/-- The order of rows by a time, and for one time by the bytes of their ids. -/
def NotAfter (ms : UInt64) (id : String) (ms' : UInt64) (id' : String) : Prop :=
  ms < ms' ∨ ms = ms' ∧ strBytes id ≤ strBytes id'

theorem notAfter_iff {ms ms' : UInt64} {id id' : String} : NotAfter ms id ms' id' ↔
    (ms = ms' ∧ id = id') ∨ ms < ms' ∨ ms = ms' ∧ strBytes id < strBytes id' := by
  have hid : strBytes id = strBytes id' ↔ id = id' := ⟨strBytes_injective, congrArg strBytes⟩
  rw [NotAfter, List.le_iff_lt_or_eq, hid]
  tauto

/-! ## The order of the keys -/

theorem hexBytes_lt_iff : ∀ {bs bs' : List UInt8},
    (bs.flatMap fun b => Text.digits Nat.digitChar 16 2 b.toNat) <
      (bs'.flatMap fun b => Text.digits Nat.digitChar 16 2 b.toNat) ↔ bs < bs'
  | [], [] => by simp [List.lt_irrefl]
  | [], b :: bs => by simp [Text.digits]
  | b :: bs, [] => by simp [Text.digits]
  | b :: bs, b' :: bs' => by
    rw [List.flatMap_cons, List.flatMap_cons, Text.digits_append_lt_iff (by decide)
      Text.digitChar_lt_sixteen b.toNat_lt b'.toNat_lt, hexBytes_lt_iff, List.cons_lt_cons_iff,
      UInt8.lt_iff_toNat_lt, UInt8.toNat_inj]

theorem encodeOrderedLineageId_lt_iff {id id' : String} :
    (encodeOrderedLineageId id).toList < (encodeOrderedLineageId id').toList ↔
      strBytes id < strBytes id' := by
  rw [encodeOrderedLineageId, encodeOrderedLineageId, String.toList_ofList, String.toList_ofList]
  exact hexBytes_lt_iff

section Order

variable {env : Env} {queue dept kind id id' : String} {source : SourceRef} {ms ms' : UInt64}

/-- **The order of the keys of a lineage.** -/
theorem lineageIndexKey_lt_iff :
    lineageIndexKey env queue dept source kind ms id <
        lineageIndexKey env queue dept source kind ms' id' ↔
      ms < ms' ∨ ms = ms' ∧ strBytes id < strBytes id' := by
  rw [String.lt_iff, toList_lineageIndexKey, toList_lineageIndexKey, Text.append_lt_append_iff rfl,
    Text.append_lt_append_iff rfl, padded20_append_lt_iff, Text.append_lt_append_iff rfl,
    encodeOrderedLineageId_lt_iff]
  simp [List.lt_irrefl]

/-- The entry of a row is that of another, or comes before it. -/
theorem entry_notAfter_iff :
    ((lineageIndexKey env queue dept source kind ms' id', id') =
        (lineageIndexKey env queue dept source kind ms id, id) ∨
      lineageIndexKey env queue dept source kind ms id <
        lineageIndexKey env queue dept source kind ms' id') ↔ NotAfter ms id ms' id' := by
  rw [notAfter_iff, lineageIndexKey_lt_iff]
  refine or_congr_left' fun hnot => ⟨fun heq => ?_, ?_⟩
  · obtain ⟨hkey, rfl⟩ := Prod.mk.inj heq
    have hge : ¬ ms' < ms := by
      intro hlt
      have hkeys : lineageIndexKey env queue dept source kind ms' id' <
          lineageIndexKey env queue dept source kind ms id' := lineageIndexKey_lt_iff.2 (.inl hlt)
      rw [hkey] at hkeys
      exact String.lt_irrefl _ hkeys
    have hle : ¬ ms < ms' := fun hlt => hnot (.inl hlt)
    exact ⟨UInt64.le_antisymm (UInt64.not_lt.1 hge) (UInt64.not_lt.1 hle), rfl⟩
  · rintro ⟨rfl, rfl⟩
    rfl

theorem compare_eq_lt_iff {a b : String} : compare a b = .lt ↔ a < b := by
  rw [← compare_eq_gt_iff, Std.OrientedCmp.gt_iff_lt]

/-- The keys in the range of a lineage are those of the lineage. -/
theorem mem_lineageRange {s : Store} (henv : env.SegmentsEncode) {kind' : String}
    (hkind : '/' ∉ kind.toList) (hkind' : '/' ∉ kind'.toList) {queue' dept' owner : String}
    {source' : SourceRef} :
    (lineageIndexKey env queue' dept' source' kind' ms id, owner) ∈
        s.lineageRange env queue dept source kind ↔
      s.lineageBySource[lineageIndexKey env queue' dept' source' kind' ms id]? = some owner ∧
        queue' = queue ∧ dept' = dept ∧ source' = source ∧ kind' = kind := by
  rw [Store.lineageRange, Table.mem_range]
  refine and_congr_right fun _ => ?_
  rw [Ne, compare_eq_gt_iff, Ne, compare_eq_gt_iff, String.lt_iff, String.lt_iff]
  have hstop : (lineageRangeStop (lineageIndexPrefix env queue dept source kind)).toList =
      (lineageIndexPrefix env queue dept source kind).toList ++ [lastChar] := by
    simp [lineageRangeStop]
  rw [hstop]
  constructor
  · rintro ⟨hlo, hhi⟩
    obtain ⟨c, hc, _⟩ := Text.exists_append_of_between (a := []) (by simpa using hlo) hhi
    rw [toList_lineageIndexKey] at hc
    obtain ⟨hqueue, hdept, hsource, hkinds, _⟩ := lineageIndexPrefix_inj henv hkind' hkind hc
    exact ⟨hqueue, hdept, hsource, hkinds⟩
  · rintro ⟨rfl, rfl, rfl, rfl⟩
    have hat : "at/".toList = 'a' :: "t/".toList := by decide
    have hlast : ¬ lastChar < 'a' ∧ lastChar ≠ 'a' := by decide
    rw [toList_lineageIndexKey]
    constructor
    · nth_rewrite 2 [← List.append_nil (lineageIndexPrefix env queue' dept' source' kind').toList]
      rw [Text.append_lt_append_iff rfl]
      simp [List.lt_irrefl]
    · rw [Text.append_lt_append_iff rfl, hat, List.cons_append, List.cons_lt_cons_iff]
      simp [List.lt_irrefl, hlast]

end Order

/-! ## The ends of a sorted walk -/

section Walk

variable {α : Type} {R : α → α → Prop}

/-- The first of a sorted list is the one that comes before all others. -/
theorem head?_eq_some_iff (hasymm : ∀ a b, R a b → ¬ R b a) :
    ∀ {l : List α}, l.Pairwise R → ∀ {a : α},
      l.head? = some a ↔ a ∈ l ∧ ∀ b ∈ l, b = a ∨ R a b
  | [], _, a => by simp
  | b :: l, hl, a => by
    rw [List.pairwise_cons] at hl
    rw [List.head?_cons, Option.some.injEq]
    constructor
    · rintro rfl
      refine ⟨by simp, fun c hc => ?_⟩
      rcases List.mem_cons.1 hc with rfl | hc
      · exact .inl rfl
      · exact .inr (hl.1 c hc)
    · rintro ⟨ha, hfirst⟩
      rcases List.mem_cons.1 ha with rfl | ha
      · rfl
      · exact (hfirst b (by simp)).resolve_right fun hab => hasymm _ _ (hl.1 a ha) hab

theorem findSome?_eq_of_forall {β : Type} {f : α → Option β} :
    ∀ {l : List α}, (∀ a ∈ l, (f a).isSome) → l.findSome? f = l.head?.bind f
  | [], _ => rfl
  | a :: l, h => by
    obtain ⟨b, hb⟩ := Option.isSome_iff_exists.1 (h a (by simp))
    simp [hb]

end Walk

namespace Store

variable {env : Env} {s : Store} {queue dept : String} {source : SourceRef}

theorem lineageRange_sorted (env : Env) (s : Store) (queue dept : String) (source : SourceRef)
    (kind : String) : (s.lineageRange env queue dept source kind).Pairwise fun p q => p.1 < q.1 := by
  have hordered := s.lineageBySource.ordered_keys_toList
  refine List.Pairwise.filter _ (hordered.imp fun hlt => ?_)
  exact compare_eq_lt_iff.1 hlt

/-- The live entries of a lineage are those of its live rows. -/
theorem LineageExact.mem_live (henv : env.SegmentsEncode) (h : s.LineageExact env)
    {p : String × String} :
    p ∈ s.lineageRange env queue dept source "live" ↔
      ∃ r, s.deliveryById[p.2]? = some r ∧ r.queue = queue ∧ r.dept = dept ∧ r.source = some source ∧
        p.1 = deliveryLineageKey env r source := by
  obtain ⟨key, id⟩ := p
  constructor
  · intro hmem
    have hget := (Table.mem_range.1 hmem).1
    rcases (h.entries key id).1 hget with hlive | hdead
    · obtain ⟨r, hr, hkey⟩ := Option.bind_eq_some_iff.1 hlive
      obtain ⟨source', hsource, rfl⟩ := liveKey_eq_some.1 hkey
      obtain ⟨_, hqueue, hdept, rfl, _⟩ :=
        (mem_lineageRange henv sep_notMem_live sep_notMem_live).1 hmem
      exact ⟨r, hr, hqueue, hdept, hsource, rfl⟩
    · obtain ⟨d, hd, hkey⟩ := Option.bind_eq_some_iff.1 hdead
      obtain ⟨_, source', hsource, rfl⟩ := tombstoneKey_eq_some.1 hkey
      obtain ⟨_, _, _, _, hkind⟩ := (mem_lineageRange henv sep_notMem_live sep_notMem_terminal).1 hmem
      exact absurd hkind (by decide)
  · rintro ⟨r, hr, rfl, rfl, hsource, rfl⟩
    refine (mem_lineageRange henv sep_notMem_live sep_notMem_live).2 ⟨?_, rfl, rfl, rfl, rfl⟩
    refine (h.entries _ _).2 (.inl (Option.bind_eq_some_iff.2 ⟨r, hr, ?_⟩))
    exact liveKey_eq_some.2 ⟨source, hsource, rfl⟩

/-- The terminal entries of a lineage are those of its tombstones. -/
theorem LineageExact.mem_terminal (henv : env.SegmentsEncode) (h : s.LineageExact env)
    {p : String × String} :
    p ∈ s.lineageRange env queue dept source "terminal" ↔
      ∃ d, s.deadById[p.2]? = some d ∧ isTerminalTombstone d = true ∧ d.queue = queue ∧
        d.dept = dept ∧ d.source = some source ∧ p.1 = deadLineageKey env d source := by
  obtain ⟨key, id⟩ := p
  constructor
  · intro hmem
    have hget := (Table.mem_range.1 hmem).1
    rcases (h.entries key id).1 hget with hlive | hdead
    · obtain ⟨r, hr, hkey⟩ := Option.bind_eq_some_iff.1 hlive
      obtain ⟨source', hsource, rfl⟩ := liveKey_eq_some.1 hkey
      obtain ⟨_, _, _, _, hkind⟩ := (mem_lineageRange henv sep_notMem_terminal sep_notMem_live).1 hmem
      exact absurd hkind (by decide)
    · obtain ⟨d, hd, hkey⟩ := Option.bind_eq_some_iff.1 hdead
      obtain ⟨htomb, source', hsource, rfl⟩ := tombstoneKey_eq_some.1 hkey
      obtain ⟨_, hqueue, hdept, rfl, _⟩ :=
        (mem_lineageRange henv sep_notMem_terminal sep_notMem_terminal).1 hmem
      exact ⟨d, hd, htomb, hqueue, hdept, hsource, rfl⟩
  · rintro ⟨d, hd, htomb, rfl, rfl, hsource, rfl⟩
    refine (mem_lineageRange henv sep_notMem_terminal sep_notMem_terminal).2 ⟨?_, rfl, rfl, rfl, rfl⟩
    refine (h.entries _ _).2 (.inr (Option.bind_eq_some_iff.2 ⟨d, hd, ?_⟩))
    exact tombstoneKey_eq_some.2 ⟨htomb, source, hsource, rfl⟩

/-- **The live delivery of a lineage** is the first of its live rows. -/
theorem LineageExact.liveDelivery_iff (henv : env.SegmentsEncode) (h : s.LineageExact env)
    {r : DeliveryRecord} :
    (s.lookupLineage env queue dept source).liveDelivery = some r ↔
      s.LiveOf queue dept source r ∧ ∀ r', s.LiveOf queue dept source r' →
        NotAfter r.notBeforeMs r.deliveryId r'.notBeforeMs r'.deliveryId := by
  have hall : ∀ p ∈ s.lineageRange env queue dept source "live", (s.deliveryById[p.2]?).isSome := by
    intro p hp
    obtain ⟨r, hr, _⟩ := (h.mem_live henv).1 hp
    exact Option.isSome_iff_exists.2 ⟨r, hr⟩
  have hhead := fun p => head?_eq_some_iff (fun a b => String.lt_asymm)
    (lineageRange_sorted env s queue dept source "live") (a := p)
  have horder : ∀ {r r' : DeliveryRecord}, r.queue = queue → r.dept = dept → r'.queue = queue →
      r'.dept = dept → ((deliveryLineageKey env r' source, r'.deliveryId) =
        (deliveryLineageKey env r source, r.deliveryId) ∨
        deliveryLineageKey env r source < deliveryLineageKey env r' source ↔
          NotAfter r.notBeforeMs r.deliveryId r'.notBeforeMs r'.deliveryId) := by
    intro r r' hq hd hq' hd'
    rw [deliveryLineageKey, deliveryLineageKey, hq, hd, hq', hd']
    exact entry_notAfter_iff
  simp only [lookupLineage]
  rw [findSome?_eq_of_forall hall, Option.bind_eq_some_iff]
  constructor
  · rintro ⟨⟨key, id⟩, hp, hr⟩
    obtain ⟨hmem, hfirst⟩ := (hhead _).1 hp
    obtain ⟨r₁, hr₁, hqueue, hdept, hsource, rfl⟩ := (h.mem_live henv).1 hmem
    obtain rfl := Option.some.inj (hr₁.symm.trans hr)
    obtain rfl := h.liveIds hr₁
    refine ⟨⟨⟨_, hr⟩, hqueue, hdept, hsource⟩, fun r' hr' => ?_⟩
    obtain ⟨id', hid'⟩ := hr'.live
    obtain rfl := h.liveIds hid'
    refine (horder hqueue hdept hr'.queue hr'.dept).1 (hfirst _ ((h.mem_live henv).2 ?_))
    exact ⟨r', hid', hr'.queue, hr'.dept, hr'.source, rfl⟩
  · rintro ⟨hr, hfirst⟩
    obtain ⟨id, hid⟩ := hr.live
    obtain rfl := h.liveIds hid
    refine ⟨(deliveryLineageKey env r source, r.deliveryId), (hhead _).2 ⟨?_, fun q hq => ?_⟩, hid⟩
    · exact (h.mem_live henv).2 ⟨r, hid, hr.queue, hr.dept, hr.source, rfl⟩
    · obtain ⟨key, id'⟩ := q
      obtain ⟨r', hid', hqueue, hdept, hsource, rfl⟩ := (h.mem_live henv).1 hq
      obtain rfl := h.liveIds hid'
      exact (horder hr.queue hr.dept hqueue hdept).2 (hfirst r' ⟨⟨_, hid'⟩, hqueue, hdept, hsource⟩)

theorem isTerminalTombstone_iff {d : DeadRecord} (hid : d.deliveryId ≠ "") :
    isTerminalTombstone d = true ↔ 1 ≤ d.attempts ∧ d.permanent = true ∧ d.replayable = false := by
  simp [isTerminalTombstone, hid, and_assoc]

/-- **The terminal dead letter of a lineage** is the last of its tombstones. -/
theorem LineageExact.terminalDeadLetter_iff (henv : env.SegmentsEncode) (h : s.LineageExact env)
    (hnamed : s.deadById[""]? = none) {d : DeadRecord} :
    (s.lookupLineage env queue dept source).terminalDeadLetter = some d ↔
      s.TombstoneOf queue dept source d ∧ ∀ d', s.TombstoneOf queue dept source d' →
        NotAfter d'.deadAtMs d'.deliveryId d.deadAtMs d.deliveryId := by
  have htomb : ∀ {id : String} {d : DeadRecord}, s.deadById[id]? = some d →
      (isTerminalTombstone d = true ↔
        1 ≤ d.attempts ∧ d.permanent = true ∧ d.replayable = false) := by
    intro id d hd
    refine isTerminalTombstone_iff fun hempty => ?_
    rw [← h.deadIds hd, hempty, hnamed] at hd
    cases hd
  have hall : ∀ p ∈ (s.lineageRange env queue dept source "terminal").reverse,
      ((s.deadById[p.2]?).filter isTerminalTombstone).isSome := by
    intro p hp
    obtain ⟨d, hd, hterminal, _⟩ := (h.mem_terminal henv).1 (List.mem_reverse.1 hp)
    simp [hd, hterminal]
  have hsorted : (s.lineageRange env queue dept source "terminal").reverse.Pairwise
      fun p q => q.1 < p.1 :=
    List.pairwise_reverse.2 (lineageRange_sorted env s queue dept source "terminal")
  have hhead := fun p => head?_eq_some_iff (fun a b => String.lt_asymm) hsorted (a := p)
  have horder : ∀ {d d' : DeadRecord}, d.queue = queue → d.dept = dept → d'.queue = queue →
      d'.dept = dept → ((deadLineageKey env d' source, d'.deliveryId) =
        (deadLineageKey env d source, d.deliveryId) ∨
        deadLineageKey env d' source < deadLineageKey env d source ↔
          NotAfter d'.deadAtMs d'.deliveryId d.deadAtMs d.deliveryId) := by
    intro d d' hq hd hq' hd'
    rw [deadLineageKey, deadLineageKey, hq, hd, hq', hd', eq_comm]
    exact entry_notAfter_iff
  simp only [lookupLineage]
  rw [findSome?_eq_of_forall hall, Option.bind_eq_some_iff]
  constructor
  · rintro ⟨⟨key, id⟩, hp, hfound⟩
    obtain ⟨hd, hterminal⟩ := Option.filter_eq_some_iff.1 hfound
    obtain ⟨hmem, hlast⟩ := (hhead _).1 hp
    obtain ⟨d₁, hd₁, _, hqueue, hdept, hsource, rfl⟩ :=
      (h.mem_terminal henv).1 (List.mem_reverse.1 hmem)
    obtain rfl := Option.some.inj (hd₁.symm.trans hd)
    obtain rfl := h.deadIds hd₁
    obtain ⟨hattempts, hpermanent, hreplayable⟩ := (htomb hd).1 hterminal
    refine ⟨⟨⟨_, hd⟩, hattempts, hpermanent, hreplayable, hqueue, hdept, hsource⟩, fun d' hd' => ?_⟩
    obtain ⟨id', hid'⟩ := hd'.dead
    obtain rfl := h.deadIds hid'
    refine (horder hqueue hdept hd'.queue hd'.dept).1 (hlast _ (List.mem_reverse.2
      ((h.mem_terminal henv).2 ?_)))
    exact ⟨d', hid', (htomb hid').2 ⟨hd'.attempts, hd'.permanent, hd'.replayable⟩, hd'.queue,
      hd'.dept, hd'.source, rfl⟩
  · rintro ⟨hd, hlast⟩
    obtain ⟨id, hid⟩ := hd.dead
    obtain rfl := h.deadIds hid
    have hterminal := (htomb hid).2 ⟨hd.attempts, hd.permanent, hd.replayable⟩
    refine ⟨(deadLineageKey env d source, d.deliveryId), (hhead _).2 ⟨?_, fun q hq => ?_⟩,
      Option.filter_eq_some_iff.2 ⟨hid, hterminal⟩⟩
    · exact List.mem_reverse.2 ((h.mem_terminal henv).2
        ⟨d, hid, hterminal, hd.queue, hd.dept, hd.source, rfl⟩)
    · obtain ⟨key, id'⟩ := q
      obtain ⟨d', hid', hterminal', hqueue, hdept, hsource, rfl⟩ :=
        (h.mem_terminal henv).1 (List.mem_reverse.1 hq)
      obtain rfl := h.deadIds hid'
      obtain ⟨hattempts, hpermanent, hreplayable⟩ := (htomb hid').1 hterminal'
      exact (horder hd.queue hd.dept hqueue hdept).2
        (hlast d' ⟨⟨_, hid'⟩, hattempts, hpermanent, hreplayable, hqueue, hdept, hsource⟩)

theorem LineageExact.liveDelivery_eq_none_iff (henv : env.SegmentsEncode) (h : s.LineageExact env) :
    (s.lookupLineage env queue dept source).liveDelivery = none ↔
      ∀ r, ¬ s.LiveOf queue dept source r := by
  constructor
  · intro hnone r hr
    obtain ⟨id, hid⟩ := hr.live
    have hmem := (h.mem_live henv (p := (deliveryLineageKey env r source, id))).2
      ⟨r, hid, hr.queue, hr.dept, hr.source, rfl⟩
    have hfound : s.deliveryById[id]? = none := List.findSome?_eq_none_iff.1 hnone _ hmem
    rw [hid] at hfound
    cases hfound
  · intro hall
    by_contra hsome
    obtain ⟨r, hr⟩ := Option.ne_none_iff_exists'.1 hsome
    exact hall r ((h.liveDelivery_iff henv).1 hr).1

theorem LineageExact.terminalDeadLetter_eq_none_iff (henv : env.SegmentsEncode)
    (h : s.LineageExact env) (hnamed : s.deadById[""]? = none) :
    (s.lookupLineage env queue dept source).terminalDeadLetter = none ↔
      ∀ d, ¬ s.TombstoneOf queue dept source d := by
  constructor
  · intro hnone d hd
    obtain ⟨id, hid⟩ := hd.dead
    have hempty : d.deliveryId ≠ "" := by
      intro hempty
      rw [← h.deadIds hid, hempty, hnamed] at hid
      cases hid
    have htomb := (isTerminalTombstone_iff hempty).2 ⟨hd.attempts, hd.permanent, hd.replayable⟩
    have hmem := (h.mem_terminal henv (p := (deadLineageKey env d source, id))).2
      ⟨d, hid, htomb, hd.queue, hd.dept, hd.source, rfl⟩
    have hfound : (s.deadById[id]?).filter isTerminalTombstone = none :=
      List.findSome?_eq_none_iff.1 hnone _ (List.mem_reverse.2 hmem)
    simp [hid, htomb] at hfound
  · intro hall
    by_contra hsome
    obtain ⟨d, hd⟩ := Option.ne_none_iff_exists'.1 hsome
    exact hall d ((h.terminalDeadLetter_iff henv hnamed).1 hd).1

end Store

/-! ## Every run -/

/-- A move does not make rows for an id that was never enqueued. -/
theorem Moves.untouched {env : Env} {id : String} {t : Txn} {evs : List Event} {v v' : View}
    (h : Moves env id t evs v v')
    (hid : ∀ record, t = .enqueue record → record.val.deliveryId ≠ id)
    (hnone : v.live = none ∧ v.dead = none) : v'.live = none ∧ v'.dead = none := by
  induction h with
  | refl => exact hnone
  | tail _ hmove ih =>
    obtain ⟨hlive, hdead⟩ := ih hnone
    cases hmove <;> simp_all

/-- The run enqueued records with names only, as the router makes them. -/
def NamesDeliveries (history : List Entry) : Prop :=
  ∀ e ∈ history, ∀ record, e.txn = .enqueue record → record.val.deliveryId ≠ ""

theorem World.deadById_empty {env : Env} (acts : List Act)
    (hnames : NamesDeliveries (World.init.run env acts).2) :
    (World.init.run env acts).1.store.deadById[""]? = none := by
  have hrun := World.run_induction
    (P := fun s h => NamesDeliveries h → (s.view "").live = none ∧ (s.view "").dead = none)
    (fun h e (he : e.Committed env) ih hnames => (he.moves "").untouched
      (fun record hrecord => hnames e (by simp) record hrecord)
      (ih fun e' he' => hnames e' (by simp [he'])))
    World.inv_init (h := []) (fun _ => by simp [Store.view, World.init, Store.empty]) acts
  exact (hrun.2 (by simpa using hnames)).2

/-- **Looking up a lineage is a full scan.**  After every run, for every lineage and whatever its names
are made of, the lookup returns the live row that is due first and the terminal tombstone that died
last, and nothing exactly when there is no such row. -/
theorem lookupLineage_exact (env : Env) (henv : env.SegmentsEncode) (acts : List Act)
    (hnames : NamesDeliveries (World.init.run env acts).2) (queue dept : String) (source : SourceRef) :
    (∀ r, ((World.init.run env acts).1.store.lookupLineage env queue dept source).liveDelivery = some r ↔
      (World.init.run env acts).1.store.LiveOf queue dept source r ∧
        ∀ r', (World.init.run env acts).1.store.LiveOf queue dept source r' →
          NotAfter r.notBeforeMs r.deliveryId r'.notBeforeMs r'.deliveryId) ∧
    (((World.init.run env acts).1.store.lookupLineage env queue dept source).liveDelivery = none ↔
      ∀ r, ¬ (World.init.run env acts).1.store.LiveOf queue dept source r) ∧
    (∀ d, ((World.init.run env acts).1.store.lookupLineage env queue dept source).terminalDeadLetter =
        some d ↔
      (World.init.run env acts).1.store.TombstoneOf queue dept source d ∧
        ∀ d', (World.init.run env acts).1.store.TombstoneOf queue dept source d' →
          NotAfter d'.deadAtMs d'.deliveryId d.deadAtMs d.deliveryId) ∧
    (((World.init.run env acts).1.store.lookupLineage env queue dept source).terminalDeadLetter = none ↔
      ∀ d, ¬ (World.init.run env acts).1.store.TombstoneOf queue dept source d) := by
  have hexact := World.lineageExact henv acts
  have hnamed := World.deadById_empty acts hnames
  exact ⟨fun _ => hexact.liveDelivery_iff henv, hexact.liveDelivery_eq_none_iff henv,
    fun _ => hexact.terminalDeadLetter_iff henv hnamed,
    hexact.terminalDeadLetter_eq_none_iff henv hnamed⟩

namespace Sample

/-- An environment with the base64 that the store uses. -/
def base64Env : Env := ⟨fun _ _ => 0, fun bytes => String.ofList (Base64.encode bytes)⟩

theorem base64Env_segmentsEncode : base64Env.SegmentsEncode where
  inj h := Base64.encode_inj (String.ofList_injective h)
  sep bytes := by
    simp only [base64Env, String.toList_ofList]
    exact Base64.sep_notMem_encode bytes

/-- Where a delivery came from. -/
def issue : SourceRef := ⟨.external, "repo/issue/42"⟩

/-- A delivery that came from an issue. -/
def issueRecord : FreshRecord :=
  ⟨{ (record "one" false).val with source := some issue }, by simp [record, DeliveryRecord.Fresh]⟩

/-- The delivery is enqueued. -/
def issueRaised : List Act := Act.inSequence [.enqueue issueRecord]

/-- An enqueue names its delivery. -/
def namesDelivery (e : Entry) : Bool :=
  match e.txn with
  | .enqueue record => record.val.deliveryId != ""
  | _ => true

end Sample

/-- The theorem at a lineage with one delivery. -/
theorem lookupLineage_issueRaised :
    ((World.init.run Sample.base64Env Sample.issueRaised).1.store.lookupLineage Sample.base64Env "queue"
        "dept" Sample.issue).liveDelivery = some Sample.issueRecord.val ∧
      ((World.init.run Sample.base64Env Sample.issueRaised).1.store.lookupLineage Sample.base64Env "queue"
        "dept" Sample.issue).terminalDeadLetter = none := by
  have hrows : (World.init.run Sample.base64Env Sample.issueRaised).1.store.deliveryById.toList =
      [("one", Sample.issueRecord.val)] := by
    decide +kernel
  have hdeads : (World.init.run Sample.base64Env Sample.issueRaised).1.store.deadById.toList = [] := by
    decide +kernel
  have hnames : (World.init.run Sample.base64Env Sample.issueRaised).2.all Sample.namesDelivery = true := by
    decide +kernel
  have hnames : NamesDeliveries (World.init.run Sample.base64Env Sample.issueRaised).2 := by
    intro e he record hrecord
    simpa [Sample.namesDelivery, hrecord] using List.all_eq_true.1 hnames e he
  have hlive : ∀ {id : String} {r : DeliveryRecord},
      (World.init.run Sample.base64Env Sample.issueRaised).1.store.deliveryById[id]? = some r ↔
        (id, r) = ("one", Sample.issueRecord.val) := by
    intro id r
    rw [← Std.ExtTreeMap.mem_toList_iff_getElem?_eq_some, hrows, List.mem_singleton]
  obtain ⟨hfirst, _, _, hnone⟩ := lookupLineage_exact Sample.base64Env Sample.base64Env_segmentsEncode
    Sample.issueRaised hnames "queue" "dept" Sample.issue
  refine ⟨(hfirst _).2 ⟨⟨⟨"one", hlive.2 rfl⟩, rfl, rfl, rfl⟩, fun r' hr' => ?_⟩, hnone.2 fun d hd => ?_⟩
  · obtain ⟨id, hid⟩ := hr'.live
    obtain ⟨rfl, rfl⟩ := Prod.mk.inj (hlive.1 hid)
    exact .inr ⟨rfl, List.le_refl _⟩
  · obtain ⟨id, hid⟩ := hd.dead
    rw [← Std.ExtTreeMap.mem_toList_iff_getElem?_eq_some, hdeads] at hid
    cases hid

end Fkst.Delivery
