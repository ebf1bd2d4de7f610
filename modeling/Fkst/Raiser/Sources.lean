import Fkst.Lib.Fnv
import Fkst.Lib.Machine
import Fkst.Lib.Table
import Fkst.Raiser.Glob
import Fkst.Router.Identity

/-!
# Raisers

The tasks of `source_runner.rs` that publish events from outside: one that fires every interval, and
one that watches files.  Each tells its events apart by the reference of their source, from which the
router makes the ids of the deliveries (`told_iff`).

`cron_wellTimed` says for which runs of wake-ups the schedule is kept and no two fires get the same
reference: every wake-up has to come before the slot of the next instant begins.
-/

set_option autoImplicit false

namespace Fkst.Raiser

open Lib (Machine.run Machine.Along)
open Router (IsName deriveDeliveryIdentity)
open Delivery (SourceKind SourceRef)

/-! ## References and deliveries -/

/-- The delivery of what comes from a source. -/
def sourceDelivery (queue dept : String) (source : SourceRef) : Router.IdentityArgs :=
  ⟨queue, dept, some source, none, none, none⟩

/-- Two sources have different references, and different deliveries everywhere. -/
def ToldApart (source source' : SourceRef) : Prop :=
  source.reference ≠ source'.reference ∧
  ∀ queue dept i i', IsName queue → IsName dept →
    deriveDeliveryIdentity (sourceDelivery queue dept source) = some i →
    deriveDeliveryIdentity (sourceDelivery queue dept source') = some i' →
    i.deliveryId ≠ i'.deliveryId

/-- The reference is enough to tell the deliveries apart. -/
theorem toldApart_iff {source source' : SourceRef} :
    ToldApart source source' ↔ source.reference ≠ source'.reference := by
  refine ⟨And.left, fun hne => ⟨hne, fun queue dept i i' hqueue hdept h h' heq => hne ?_⟩⟩
  have hkey : ∀ source, (sourceDelivery queue dept source).identityKey = some (.source source) :=
    fun _ => rfl
  have hsame := ((Router.deliveryIds_collisionFree _ _ hqueue hdept hqueue hdept h h').1.1 heq).2.2
  rw [hkey, hkey] at hsame
  rw [Router.IdentityKey.source.inj (Option.some.inj hsame)]

/-! ## Cron -/

/-- `deterministic_hash_u64`. -/
def deterministicHashU64 (bytes : List UInt8) : UInt64 := Lib.Fnv.feed Lib.Fnv.basis bytes

/-- `cron_first_fire_jitter`. -/
def cronFirstFireJitter (name : String) (interval : Duration) : Duration :=
  let bound := if interval.asNanos ≤ (Duration.fromSecs 30).asNanos then interval else Duration.fromSecs 30
  let boundMs := durationMillis bound
  if boundMs = 0 then Duration.zero
  else Duration.fromMillis (deterministicHashU64 (strBytes name) % boundMs)

/-- `cron_slot_unix_millis`, at a time of the wall clock in nanoseconds since the epoch.  A time before
the epoch counts as the epoch. -/
def cronSlotUnixMillis (interval : Duration) (wall : ℤ) : UInt64 :=
  let intervalMs := durationMillis interval
  let nowMs := clampU64 (wall.toNat / 1000000)
  if intervalMs = 0 then nowMs else nowMs / intervalMs * intervalMs

/-- `cron_source_reference`. -/
def cronSourceReference (name : String) (slotUnixMs : UInt64) : String :=
  name ++ "/slot/" ++ slotUnixMs.toNat.repr

/-- A cron raiser, and what the wall clock says at the zero of the monotonic one. -/
structure Cron where
  name : String
  interval : Duration
  epoch : ℤ

/-- A wake-up, and the instant at which its event is published and the clock is read again. -/
structure Fire where
  wake : ℕ
  published : ℕ
deriving DecidableEq

namespace Cron

variable (cron : Cron)

/-- The slot of an instant. -/
def slotAt (instant : ℕ) : UInt64 := cronSlotUnixMillis cron.interval (cron.epoch + instant)

/-- The instant of the first fire. -/
def firstFire (started : ℕ) : ℕ := started + (cronFirstFireJitter cron.name cron.interval).asNanos

/-- The loop of `spawn_cron`: the state is `next`. -/
def step (next : ℕ) (fire : Fire) : ℕ × Option SourceRef :=
  (max (next + cron.interval.asNanos) fire.published,
    some ⟨.cron, cronSourceReference cron.name (cron.slotAt fire.wake)⟩)

/-- `sleep_until` does not return early. -/
def Possible (next : ℕ) (fire : Fire) : Prop := next ≤ fire.wake ∧ fire.wake ≤ fire.published

/-- The wake-up comes before the slot of the next instant, and all is done before that instant. -/
def OnTime (next : ℕ) (fire : Fire) : Prop :=
  cron.slotAt fire.wake < cron.slotAt (next + cron.interval.asNanos) ∧
    fire.published < next + cron.interval.asNanos

instance (next : ℕ) (fire : Fire) : Decidable (Possible next fire) :=
  inferInstanceAs (Decidable (_ ∧ _))

instance (next : ℕ) (fire : Fire) : Decidable (cron.OnTime next fire) :=
  inferInstanceAs (Decidable (_ ∧ _))

/-- **The schedule is kept**: after every fire the next one is scheduled for later, and no two fires
are taken for one. -/
structure WellTimed (started : ℕ) (fires : List Fire) : Prop where
  later : Machine.Along cron.step (fun next fire => fire.published < (cron.step next fire).1)
    (cron.firstFire started) fires
  apart : (Machine.run cron.step (cron.firstFire started) fires).2.Pairwise ToldApart

end Cron

section Cron

variable {cron : Cron}

theorem cronSourceReference_injective {name : String} {slot slot' : UInt64}
    (h : cronSourceReference name slot = cronSourceReference name slot') : slot = slot' := by
  have h := congrArg String.toList h
  simp only [cronSourceReference, String.toList_append] at h
  exact UInt64.toNat_inj.1 (Router.repr_injective (String.toList_inj.1 (List.append_cancel_left h)))

theorem slotAt_mono {a b : ℕ} (h : a ≤ b) : cron.slotAt a ≤ cron.slotAt b := by
  have hwall : (cron.epoch + a).toNat ≤ (cron.epoch + b).toNat := Int.toNat_le_toNat (by omega)
  have hms := clampU64_mono (Nat.div_le_div_right hwall : _ / 1000000 ≤ _ / 1000000)
  simp only [Cron.slotAt, cronSlotUnixMillis]
  split
  · exact hms
  · rw [UInt64.le_iff_toNat_le] at hms ⊢
    have hfits : ∀ n m : UInt64, (n / m * m).toNat = n.toNat / m.toNat * m.toNat := by
      intro n m
      have hle := Nat.div_mul_le_self n.toNat m.toNat
      have hlt := n.toNat_lt
      rw [UInt64.toNat_mul, UInt64.toNat_div, Nat.mod_eq_of_lt (by omega)]
    rw [hfits, hfits]
    exact Nat.mul_le_mul_right _ (Nat.div_le_div_right hms)

/-- The fires so far have slots before that of the next instant, and are told apart. -/
def Cron.SoFar (cron : Cron) (next : ℕ) (sources : List SourceRef) : Prop :=
  (∀ source ∈ sources, ∃ slot, source.reference = cronSourceReference cron.name slot ∧
    slot < cron.slotAt next) ∧ sources.Pairwise ToldApart

theorem Cron.SoFar.step {next : ℕ} {sources : List SourceRef} (h : cron.SoFar next sources) {fire : Fire}
    (hpossible : Cron.Possible next fire) (hontime : cron.OnTime next fire) :
    cron.SoFar (cron.step next fire).1 (sources ++ (cron.step next fire).2.toList) := by
  obtain ⟨hslots, happart⟩ := h
  have hnow : cron.slotAt next ≤ cron.slotAt fire.wake := slotAt_mono hpossible.1
  have hnext : cron.slotAt fire.wake < cron.slotAt (cron.step next fire).1 :=
    UInt64.lt_of_lt_of_le hontime.1 (slotAt_mono (Nat.le_max_left _ _))
  constructor
  · intro source hsource
    rcases List.mem_append.1 hsource with hsource | hsource
    · obtain ⟨slot, hreference, hlt⟩ := hslots source hsource
      exact ⟨slot, hreference, UInt64.lt_trans (UInt64.lt_of_lt_of_le hlt hnow) hnext⟩
    · obtain rfl := List.mem_singleton.1 hsource
      exact ⟨_, rfl, hnext⟩
  · refine List.pairwise_append.2 ⟨happart, List.pairwise_singleton _ _, fun source hsource source' h' => ?_⟩
    obtain rfl := List.mem_singleton.1 h'
    obtain ⟨slot, hreference, hlt⟩ := hslots source hsource
    rw [toldApart_iff, hreference]
    intro heq
    have hlt := UInt64.lt_of_lt_of_le hlt hnow
    rw [cronSourceReference_injective heq] at hlt
    exact UInt64.lt_irrefl _ hlt

theorem Cron.lt_step {next : ℕ} {fire : Fire} (h : cron.OnTime next fire) :
    fire.published < (cron.step next fire).1 :=
  Nat.lt_of_lt_of_le h.2 (Nat.le_max_left _ _)

/-- A wake-up that is not on time: the next instant is now, or a wake-up at that instant is taken for
this one. -/
theorem Cron.not_wellTimed {started : ℕ} {fires : List Fire} {fire : Fire}
    (hpossible : Cron.Possible (Machine.run cron.step (cron.firstFire started) fires).1 fire)
    (hlate : ¬ cron.OnTime (Machine.run cron.step (cron.firstFire started) fires).1 fire) :
    ∃ later, Machine.Along cron.step Cron.Possible
        (Machine.run cron.step (cron.firstFire started) (fires ++ [fire])).1 later ∧
      ¬ cron.WellTimed started (fires ++ fire :: later) := by
  rw [Lib.Machine.run_append]
  have hsplit : ∀ later, Machine.run cron.step (cron.firstFire started) (fires ++ later) = (_, _ ++ _) :=
    Lib.Machine.run_append (cron.firstFire started) fires
  have halong : ∀ later, Machine.Along cron.step (fun next fire => fire.published < (cron.step next fire).1)
      (cron.firstFire started) (fires ++ fire :: later) ↔ _ ∧ _ :=
    fun later => Lib.Machine.along_append
  generalize (Machine.run cron.step (cron.firstFire started) fires) = end' at hpossible hlate hsplit halong ⊢
  obtain ⟨next, sources⟩ := end'
  by_cases hpublished : fire.published < next + cron.interval.asNanos
  · -- the next instant is kept, but lies in the slot of this fire
    have hnext : (cron.step next fire).1 = next + cron.interval.asNanos := max_eq_left hpublished.le
    have hslot : cron.slotAt fire.wake = cron.slotAt (next + cron.interval.asNanos) := by
      have hle : cron.slotAt fire.wake ≤ _ := slotAt_mono (Nat.le_of_lt (hpossible.2.trans_lt hpublished))
      exact UInt64.le_antisymm hle (UInt64.not_lt.1 fun hlt => hlate ⟨hlt, hpublished⟩)
    have hprompt : Cron.Possible (cron.step next fire).1
        ⟨next + cron.interval.asNanos, next + cron.interval.asNanos⟩ :=
      ⟨Nat.le_of_eq hnext, Nat.le_refl _⟩
    refine ⟨[_], ⟨hprompt, trivial⟩, fun h => ?_⟩
    have happart := h.apart
    rw [hsplit] at happart
    have happart := (List.pairwise_append.1 happart).2.1
    have htold := List.rel_of_pairwise_cons happart List.mem_cons_self
    exact htold.1 (congrArg (cronSourceReference cron.name) hslot)
  · refine ⟨[], trivial, fun h => ?_⟩
    have hnow : (cron.step next fire).1 = fire.published := max_eq_right (Nat.not_lt.1 hpublished)
    have hlater : fire.published < (cron.step next fire).1 := ((halong _).1 h.later).2.1
    rw [hnow] at hlater
    exact Nat.lt_irrefl _ hlater

/-- **A raiser whose wake-ups are on time keeps its schedule**, and a wake-up that is not makes it
possible that the schedule is broken. -/
theorem cron_wellTimed :
    (∀ started fires, Machine.Along cron.step (fun next fire => Cron.Possible next fire ∧
      cron.OnTime next fire) (cron.firstFire started) fires → cron.WellTimed started fires) ∧
    ∀ started fires fire,
      Cron.Possible (Machine.run cron.step (cron.firstFire started) fires).1 fire →
      ¬ cron.OnTime (Machine.run cron.step (cron.firstFire started) fires).1 fire →
      ∃ later, Machine.Along cron.step Cron.Possible
          (Machine.run cron.step (cron.firstFire started) (fires ++ [fire])).1 later ∧
        ¬ cron.WellTimed started (fires ++ fire :: later) := by
  constructor
  · intro started fires h
    have hstep : ∀ next sources fire, Cron.Possible next fire ∧ cron.OnTime next fire →
        cron.SoFar next sources →
        cron.SoFar (cron.step next fire).1 (sources ++ (cron.step next fire).2.toList) :=
      fun next sources fire hfire hsofar => hsofar.step hfire.1 hfire.2
    have hstart : cron.SoFar (cron.firstFire started) [] :=
      ⟨fun _ h => absurd h List.not_mem_nil, List.Pairwise.nil⟩
    exact ⟨h.imp fun next fire hfire => Cron.lt_step hfire.2,
      (Lib.Machine.run_induction_along hstep fires h hstart).2⟩
  · intro started fires fire hpossible hlate
    exact Cron.not_wellTimed hpossible hlate

end Cron

namespace Sample

/-- A raiser that fires every ten seconds, and for the first time nine seconds into a slot. -/
def cron : Cron where
  name := "tick"
  interval := Duration.fromSecs 10
  epoch := 9000000000 - ((cronFirstFireJitter "tick" (Duration.fromSecs 10)).asNanos : ℤ)

/-- Wake-ups, each so long after the first scheduled instant. -/
def fires (wakes : List ℕ) : List Fire :=
  wakes.map fun wake => ⟨cron.firstFire 0 + wake, cron.firstFire 0 + wake⟩

end Sample

/-- Two fires on time. -/
theorem cron_wellTimed_sample : Sample.cron.WellTimed 0 (Sample.fires [1000000, 10500000000]) :=
  cron_wellTimed.1 _ _ (by decide +kernel)

/-- After a pause of two intervals the raiser fires twice at once; and after a wake-up three seconds
late, which misses nothing, the next fire gets the same reference. -/
theorem cron_collides :
    (Machine.Along Sample.cron.step Cron.Possible (Sample.cron.firstFire 0) (Sample.fires [20000000000]) ∧
      ¬ Sample.cron.WellTimed 0 (Sample.fires [20000000000])) ∧
    Machine.Along Sample.cron.step Cron.Possible (Sample.cron.firstFire 0)
      (Sample.fires [3000000000, 10000000000]) ∧
    ¬ Sample.cron.WellTimed 0 (Sample.fires [3000000000, 10000000000]) := by
  refine ⟨⟨by decide +kernel, fun h => ?_⟩, by decide +kernel, fun h => ?_⟩
  · exact absurd h.later (by decide +kernel)
  · have hsame : (Machine.run Sample.cron.step (Sample.cron.firstFire 0)
        (Sample.fires [3000000000, 10000000000])).2 =
        [⟨.cron, "tick/slot/10000"⟩, ⟨.cron, "tick/slot/10000"⟩] := by
      decide +kernel
    have happart := h.apart
    rw [hsame] at happart
    exact (List.rel_of_pairwise_cons happart List.mem_cons_self).1 rfl

/-! ## Watched files -/

/-- `FileIdentity`, the modification time in nanoseconds since the epoch. -/
structure FileIdentity where
  len : UInt64
  modified : Option ℤ
deriving DecidableEq

/-- A path that is looked at, and what `metadata` says about it there, unless it fails. -/
structure Found where
  path : String
  metadata : Option FileIdentity
deriving DecidableEq

/-- What is published for a path. -/
structure Emission where
  path : String
  identity : FileIdentity
  source : SourceRef
deriving DecidableEq

/-- The milliseconds since the epoch, if there are any. -/
def FileIdentity.modifiedMs (identity : FileIdentity) : Option UInt64 :=
  identity.modified.bind fun modified =>
    if 0 ≤ modified then some (clampU64 (modified.toNat / 1000000)) else none

/-- `file_source_reference`. -/
def fileSourceReference (path : String) (identity : FileIdentity) : String :=
  match identity.modifiedMs with
  | some modifiedMs =>
    path ++ "/len/" ++ identity.len.toNat.repr ++ "/mtime/" ++ modifiedMs.toNat.repr
  | none => path ++ "/len/" ++ identity.len.toNat.repr

/-- The files that a raiser has seen, and how. -/
abbrev Seen := Lib.Table String FileIdentity

/-- `emit_changed_path`. -/
def emitChangedPath (seen : Seen) (found : Found) : Seen × Option Emission :=
  match found.metadata with
  | none => (seen, none)
  | some identity =>
    if seen[found.path]? = some identity then (seen, none)
    else (seen.insert found.path identity,
      some ⟨found.path, identity, .file, fileSourceReference found.path identity⟩)

/-- A path of a notification: whether it is a file, its canonical path, and what `metadata` says. -/
structure Notified where
  isFile : Bool
  canonical : Option String
  metadata : Option FileIdentity

/-- `notify::EventKind`, as far as the raiser tells them apart. -/
inductive EventKind where
  | any
  | access
  | create
  | modifyName
  | modifyElse
  | remove
  | other

/-- `is_file_creation_like`. -/
def isFileCreationLike : EventKind → Bool
  | .create | .modifyName | .any | .other => true
  | .access | .modifyElse | .remove => false

/-- What wakes the loop of `spawn_file_watch`: a tick of the poll, or the first scan, with the files
that it visits; a notification, or that there was an error. -/
inductive WatchEvent where
  | scan (files : List Found)
  | notify (kind : EventKind) (paths : List Notified)
  | notifyError

/-- `glob_has_magic`. -/
def globHasMagic (glob : List Char) : Bool := glob.contains '*' || glob.contains '?' || glob.contains '['

/-- The files of `existing_matches`. -/
def existingMatches (glob : List Char) (files : List Found) : List Found :=
  if globHasMagic glob then files.filter fun found => globMatchesPath glob found.path.toList else files

/-- The file that `emit_if_match` looks at. -/
def notifiedMatch (glob : List Char) (notified : Notified) : Option Found :=
  if notified.isFile then
    notified.canonical.bind fun path =>
      if globMatchesPath glob path.toList then some ⟨path, notified.metadata⟩ else none
  else none

/-- The files that the raiser looks at on an event. -/
def observations (glob : List Char) : WatchEvent → List Found
  | .scan files => existingMatches glob files
  | .notify kind paths => if isFileCreationLike kind then paths.filterMap (notifiedMatch glob) else []
  | .notifyError => []

/-- What `spawn_file_watch` publishes. -/
def fileWatch (glob : List Char) (events : List WatchEvent) : List Emission :=
  (Machine.run emitChangedPath ∅ (events.flatMap (observations glob))).2

/-- The identity that a path was last seen with. -/
def lastSeen (path : String) (observed : List Found) : Option FileIdentity :=
  observed.foldl (fun last found => if found.path = path then found.metadata.or last else last) none

/-- **Every observed change is its own delivery**: a path is published exactly when it is not as it was
last seen, and what is published for different paths or identities is told apart. -/
structure EachOwnDelivery (glob : List Char) (events : List WatchEvent) : Prop where
  published : ∀ before found after, events.flatMap (observations glob) = before ++ found :: after →
    ((emitChangedPath (Machine.run emitChangedPath ∅ before).1 found).2.isSome ↔
      ∃ identity, found.metadata = some identity ∧ lastSeen found.path before ≠ some identity)
  apart : ∀ e ∈ fileWatch glob events, ∀ e' ∈ fileWatch glob events,
    (e.path, e.identity) ≠ (e'.path, e'.identity) → ToldApart e.source e'.source

/-- The identities that a path is observed with differ in length or in whole milliseconds. -/
def Discerned (observed : List Found) : Prop :=
  ∀ found ∈ observed, ∀ found' ∈ observed, found.path = found'.path →
    ∀ identity identity', found.metadata = some identity → found'.metadata = some identity' →
      identity.len = identity'.len → identity.modifiedMs = identity'.modifiedMs → identity = identity'

section FileWatch

theorem append_number_inj {a a' : List Char} {n n' : UInt64}
    (h : a ++ '/' :: n.toNat.repr.toList = a' ++ '/' :: n'.toNat.repr.toList) : a = a' ∧ n = n' := by
  have hslash := fun n : ℕ => Lib.Text.notMem_repr (show '/'.isDigit = false by decide) n
  obtain ⟨ha, hn⟩ := Lib.Text.append_sep_inj_right (hslash _) (hslash _) h
  exact ⟨ha, UInt64.toNat_inj.1 (Router.repr_injective (String.toList_inj.1 hn))⟩

theorem toList_lenReference (path : String) (len : ℕ) :
    (path ++ "/len/" ++ len.repr).toList = (path.toList ++ "/len".toList) ++ '/' :: len.repr.toList := by
  simp [String.toList_append]

theorem toList_mtimeReference (path : String) (ms : ℕ) :
    (path ++ "/mtime/" ++ ms.repr).toList = (path.toList ++ "/mtime".toList) ++ '/' :: ms.repr.toList := by
  simp [String.toList_append]

theorem lenReference_inj {path path' : String} {len len' : UInt64}
    (h : (path ++ "/len/" ++ len.toNat.repr).toList = (path' ++ "/len/" ++ len'.toNat.repr).toList) :
    path = path' ∧ len = len' := by
  rw [toList_lenReference, toList_lenReference] at h
  obtain ⟨hpath, hlen⟩ := append_number_inj h
  exact ⟨String.toList_inj.1 (List.append_cancel_right hpath), hlen⟩

/-- A reference with a time is not one without. -/
theorem mtimeReference_ne {path path' : String} {ms len : UInt64} :
    (path ++ "/mtime/" ++ ms.toNat.repr).toList ≠ (path' ++ "/len/" ++ len.toNat.repr).toList := by
  rw [toList_mtimeReference, toList_lenReference]
  intro h
  have hlast := congrArg List.getLast? (append_number_inj h).1
  simp at hlast

/-- A reference says nothing but path, length and milliseconds. -/
theorem fileSourceReference_eq_iff {path path' : String} {identity identity' : FileIdentity} :
    fileSourceReference path identity = fileSourceReference path' identity' ↔
      path = path' ∧ identity.len = identity'.len ∧ identity.modifiedMs = identity'.modifiedMs := by
  constructor
  · intro h
    rw [← String.toList_inj, fileSourceReference, fileSourceReference] at h
    cases hms : identity.modifiedMs with
    | none =>
      cases hms' : identity'.modifiedMs with
      | none =>
        simp only [hms, hms'] at h
        obtain ⟨hpath, hlen⟩ := lenReference_inj h
        exact ⟨hpath, hlen, rfl⟩
      | some ms' =>
        simp only [hms, hms'] at h
        exact absurd h.symm mtimeReference_ne
    | some ms =>
      cases hms' : identity'.modifiedMs with
      | none =>
        simp only [hms, hms'] at h
        exact absurd h mtimeReference_ne
      | some ms' =>
        simp only [hms, hms'] at h
        rw [toList_mtimeReference, toList_mtimeReference] at h
        obtain ⟨hfront, hms⟩ := append_number_inj h
        obtain ⟨hpath, hlen⟩ := lenReference_inj (List.append_cancel_right hfront)
        exact ⟨hpath, hlen, congrArg some hms⟩
  · rintro ⟨rfl, hlen, hms⟩
    rw [fileSourceReference, fileSourceReference, hlen, hms]

theorem lastSeen_concat (path : String) (observed : List Found) (found : Found) :
    lastSeen path (observed ++ [found]) =
      if found.path = path then found.metadata.or (lastSeen path observed) else lastSeen path observed := by
  rw [lastSeen, List.foldl_append]
  rfl

/-- What was last seen was seen. -/
theorem exists_of_lastSeen {path : String} {identity : FileIdentity} {observed : List Found}
    (h : lastSeen path observed = some identity) :
    ∃ found ∈ observed, found.path = path ∧ found.metadata = some identity := by
  induction observed using List.reverseRecOn with
  | nil => cases h
  | append_singleton observed found ih =>
    have hbefore : lastSeen path observed = some identity →
        ∃ found' ∈ observed ++ [found], found'.path = path ∧ found'.metadata = some identity :=
      fun h => (ih h).imp fun found' h => ⟨List.mem_append_left _ h.1, h.2⟩
    rw [lastSeen_concat] at h
    split at h
    · rename_i hpath
      rcases Option.or_eq_some_iff.1 h with hmetadata | ⟨_, h⟩
      · exact ⟨found, List.mem_append_right _ List.mem_cons_self, hpath, hmetadata⟩
      · exact hbefore h
    · exact hbefore h

/-- **The raiser knows what every path was last seen as.** -/
theorem seen_run (observed : List Found) (path : String) :
    (Machine.run emitChangedPath ∅ observed).1[path]? = lastSeen path observed := by
  induction observed using List.reverseRecOn with
  | nil => simp [lastSeen]
  | append_singleton observed found ih =>
    rw [Lib.Machine.run_append, lastSeen_concat, ← ih]
    generalize (Machine.run emitChangedPath ∅ observed).1 = seen
    show (emitChangedPath seen found).1[path]? = _
    rw [emitChangedPath]
    cases hmetadata : found.metadata with
    | none => simp
    | some identity =>
      simp only [Option.some_or]
      split
      · rename_i hseen
        split
        · rename_i hpath
          rw [← hpath, hseen]
        · rfl
      · simp only [Lib.Table.get_insert, eq_comm]

/-- What is published on an observation. -/
theorem emitChangedPath_isSome {seen : Seen} {found : Found} :
    (emitChangedPath seen found).2.isSome ↔
      ∃ identity, found.metadata = some identity ∧ seen[found.path]? ≠ some identity := by
  rw [emitChangedPath]
  cases found.metadata with
  | none => simp
  | some identity =>
    simp only [Option.some.injEq, exists_eq_left']
    split
    · rename_i hseen
      simp [hseen]
    · rename_i hseen
      simp [hseen]

theorem source_of_emitChangedPath {seen : Seen} {found : Found} {e : Emission}
    (h : (emitChangedPath seen found).2 = some e) :
    e.path = found.path ∧ found.metadata = some e.identity ∧
      e.source = ⟨.file, fileSourceReference e.path e.identity⟩ := by
  rw [emitChangedPath] at h
  cases hmetadata : found.metadata with
  | none =>
    rw [hmetadata] at h
    cases h
  | some identity =>
    simp only [hmetadata] at h
    split at h
    · cases h
    · obtain rfl := Option.some.inj h
      exact ⟨rfl, rfl, rfl⟩

/-- What is published was observed. -/
theorem observed_of_mem {observed : List Found} {e : Emission}
    (h : e ∈ (Machine.run emitChangedPath ∅ observed).2) :
    (∃ found ∈ observed, found.path = e.path ∧ found.metadata = some e.identity) ∧
      e.source = ⟨.file, fileSourceReference e.path e.identity⟩ := by
  obtain ⟨before, found, after, rfl, hstep⟩ := Lib.Machine.mem_run h
  obtain ⟨hpath, hmetadata, hsource⟩ := source_of_emitChangedPath hstep
  exact ⟨⟨found, by simp, hpath.symm, hmetadata⟩, hsource⟩

/-- **Every identity that a path is observed with is published.** -/
theorem exists_emission {observed : List Found} {found : Found} (hfound : found ∈ observed)
    {identity : FileIdentity} (hmetadata : found.metadata = some identity) :
    ∃ e ∈ (Machine.run emitChangedPath ∅ observed).2, e.path = found.path ∧ e.identity = identity := by
  induction observed using List.reverseRecOn generalizing found with
  | nil => cases hfound
  | append_singleton observed last ih =>
    have hbefore : ∀ {found : Found}, found ∈ observed → found.metadata = some identity →
        ∃ e ∈ (Machine.run emitChangedPath ∅ (observed ++ [last])).2,
          e.path = found.path ∧ e.identity = identity := by
      intro found hfound hmetadata
      obtain ⟨e, he, hsame⟩ := ih hfound hmetadata
      rw [Lib.Machine.run_append]
      exact ⟨e, List.mem_append_left _ he, hsame⟩
    rcases List.mem_append.1 hfound with hfound | hlast
    · exact hbefore hfound hmetadata
    · obtain rfl := List.mem_singleton.1 hlast
      by_cases hseen : lastSeen found.path observed = some identity
      · obtain ⟨found', hfound', hpath, hmetadata'⟩ := exists_of_lastSeen hseen
        rw [← hpath]
        exact hbefore hfound' hmetadata'
      · have hsome : (emitChangedPath (Machine.run emitChangedPath ∅ observed).1 found).2.isSome :=
          emitChangedPath_isSome.2 ⟨identity, hmetadata, by rwa [seen_run]⟩
        obtain ⟨e, he⟩ := Option.isSome_iff_exists.1 hsome
        obtain ⟨hpath, hidentity, _⟩ := source_of_emitChangedPath he
        refine ⟨e, ?_, hpath, (Option.some.inj (hmetadata.symm.trans hidentity)).symm⟩
        rw [Lib.Machine.run_append]
        refine List.mem_append_right _ ?_
        simp [Lib.Machine.run, he]

end FileWatch

namespace Sample

/-- A file that is written twice within a millisecond, without a change of its length. -/
def rewritten : List WatchEvent :=
  [.scan [⟨"/w/a", some ⟨5, some 1000000500000⟩⟩], .scan [⟨"/w/a", some ⟨5, some 1000000700000⟩⟩]]

end Sample

end Fkst.Raiser
