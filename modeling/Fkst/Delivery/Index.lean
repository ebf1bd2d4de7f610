import Fkst.Delivery.Types
import Fkst.Escape
import Fkst.Lib.Table

/-!
# Department-scoped secondary index keys

`delivery_index.rs`.  The ready and leased indexes are keyed by department, then time, then
delivery id; the two dead indexes put the time first.  Every time is written with twenty digits, so
that a range of keys is a range of times, and the delivery id comes last because it may contain the
separator.

What the store relies on is proved here once for each of the three formats: the key determines its
fields (`makeIndexKey_inj` and its siblings), the parser gives back time and id
(`parseIndexKey_makeIndexKey` and its siblings), and a key collected as due for a department
belongs to that department and is due (`mem_collectDueKeys`).
-/

set_option autoImplicit false

namespace Fkst.Delivery

open Lib

/-- What can go wrong inside a store operation.  An operation that fails leaves the database as it
was: the transaction is dropped. -/
inductive StoreError where
  /-- A different delivery is already live under this id. -/
  | conflictingDuplicate (deliveryId : String)
  /-- No free slot is left in the terminal suppression table. -/
  | suppressionExhausted (deliveryId : String)
  /-- An index key lacks a part. -/
  | indexKeyMissing (index part : String)
  /-- The time of an index key is not a `u64`. -/
  | indexKeyTime (text : String)
  /-- The database was written by a newer engine. -/
  | schemaNewer (found supported : String)
deriving DecidableEq

/-- The text of the error, as the source formats it. -/
def StoreError.message : StoreError → String
  | .conflictingDuplicate id => "conflicting duplicate delivery_id: " ++ id
  | .suppressionExhausted id => "terminal suppression table exhausted for delivery_id: " ++ id
  | .indexKeyMissing index part => index ++ " key missing " ++ part
  | .indexKeyTime text =>
    if text.isEmpty then "cannot parse integer from empty string"
    else if (Text.readDec 0 text.toList).isSome then "number too large to fit in target type"
    else "invalid digit found in string"
  | .schemaNewer found supported =>
    "durable delivery schema newer than supported: found " ++ found ++ ", supported " ++ supported

/-- A parsed index key, together with the key itself. -/
structure DueIndexKey where
  key : String
  dueMs : UInt64
  deliveryId : String
deriving DecidableEq

/-! ## Making keys -/

/-- `encode_index_part`. -/
def encodeIndexPart (part : String) : String := String.ofList (escapeChars (strBytes part))

/-- `make_index_key`. -/
def makeIndexKey (dept : String) (dueMs : UInt64) (deliveryId : String) : String :=
  encodeIndexPart dept ++ "/" ++ String.ofList (padded20 dueMs) ++ "/" ++ deliveryId

/-- `make_dead_due_index_key`. -/
def makeDeadDueIndexKey (dept : String) (deadAtMs : UInt64) (deliveryId : String) : String :=
  String.ofList (padded20 deadAtMs) ++ "/" ++ encodeIndexPart dept ++ "/" ++ deliveryId

/-- `make_dead_time_index_key`. -/
def makeDeadTimeIndexKey (deadAtMs : UInt64) (deliveryId : String) : String :=
  String.ofList (padded20 deadAtMs) ++ "/" ++ deliveryId

theorem encodeIndexPart_injective {a b : String} (h : encodeIndexPart a = encodeIndexPart b) :
    a = b :=
  strBytes_injective (escapeChars_injective (by
    simpa [encodeIndexPart] using congrArg String.toList h))

theorem sep_notMem_encodeIndexPart (part : String) : '/' ∉ (encodeIndexPart part).toList := by
  rw [encodeIndexPart, String.toList_ofList]
  exact sep_notMem_of_isKeyChar (isKeyChar_escapeChars _)

theorem toList_makeIndexKey (dept : String) (due : UInt64) (id : String) :
    (makeIndexKey dept due id).toList =
      (encodeIndexPart dept).toList ++ '/' :: (padded20 due ++ '/' :: id.toList) := by
  simp [makeIndexKey]

theorem toList_makeDeadDueIndexKey (dept : String) (due : UInt64) (id : String) :
    (makeDeadDueIndexKey dept due id).toList =
      padded20 due ++ '/' :: ((encodeIndexPart dept).toList ++ '/' :: id.toList) := by
  simp [makeDeadDueIndexKey]

theorem toList_makeDeadTimeIndexKey (due : UInt64) (id : String) :
    (makeDeadTimeIndexKey due id).toList = padded20 due ++ '/' :: id.toList := by
  simp [makeDeadTimeIndexKey]

/-- **A due key determines its fields.** -/
theorem makeIndexKey_inj {dept dept' id id' : String} {due due' : UInt64}
    (h : makeIndexKey dept due id = makeIndexKey dept' due' id') :
    dept = dept' ∧ due = due' ∧ id = id' := by
  have h := congrArg String.toList h
  rw [toList_makeIndexKey, toList_makeIndexKey] at h
  obtain ⟨h1, h⟩ := Text.append_sep_inj (sep_notMem_encodeIndexPart _)
    (sep_notMem_encodeIndexPart _) h
  obtain ⟨h2, h3⟩ := Text.append_sep_inj (sep_notMem_padded20 _) (sep_notMem_padded20 _) h
  exact ⟨encodeIndexPart_injective (String.toList_inj.1 h1), padded20_injective h2,
    String.toList_inj.1 h3⟩

/-- **A dead due key determines its fields.** -/
theorem makeDeadDueIndexKey_inj {dept dept' id id' : String} {due due' : UInt64}
    (h : makeDeadDueIndexKey dept due id = makeDeadDueIndexKey dept' due' id') :
    dept = dept' ∧ due = due' ∧ id = id' := by
  have h := congrArg String.toList h
  rw [toList_makeDeadDueIndexKey, toList_makeDeadDueIndexKey] at h
  obtain ⟨h2, h⟩ := Text.append_sep_inj (sep_notMem_padded20 _) (sep_notMem_padded20 _) h
  obtain ⟨h1, h3⟩ := Text.append_sep_inj (sep_notMem_encodeIndexPart _)
    (sep_notMem_encodeIndexPart _) h
  exact ⟨encodeIndexPart_injective (String.toList_inj.1 h1), padded20_injective h2,
    String.toList_inj.1 h3⟩

/-- **A dead time key determines its fields.** -/
theorem makeDeadTimeIndexKey_inj {id id' : String} {due due' : UInt64}
    (h : makeDeadTimeIndexKey due id = makeDeadTimeIndexKey due' id') : due = due' ∧ id = id' := by
  have h := congrArg String.toList h
  rw [toList_makeDeadTimeIndexKey, toList_makeDeadTimeIndexKey] at h
  obtain ⟨h1, h2⟩ := Text.append_sep_inj (sep_notMem_padded20 _) (sep_notMem_padded20 _) h
  exact ⟨padded20_injective h1, String.toList_inj.1 h2⟩

/-! ## Parsing keys -/

/-- `due.parse::<u64>()?`, with the rest of the parsed key. -/
def dueIndexKey (key : String) (due id : List Char) : Except StoreError DueIndexKey :=
  match parseU64 due with
  | some dueMs => .ok ⟨key, dueMs, String.ofList id⟩
  | none => .error (.indexKeyTime (String.ofList due))

/-- `parse_index_key`.  The first part of `splitn` is always there. -/
def parseIndexKey (key : String) : Except StoreError DueIndexKey :=
  match Text.splitOnce '/' key.toList with
  | none => .error (.indexKeyMissing "delivery index" "due time")
  | some (_dept, rest) =>
    match Text.splitOnce '/' rest with
    | none => .error (.indexKeyMissing "delivery index" "delivery id")
    | some (due, id) => dueIndexKey key due id

/-- `parse_dead_due_index_key`. -/
def parseDeadDueIndexKey (key : String) : Except StoreError DueIndexKey :=
  match Text.splitOnce '/' key.toList with
  | none => .error (.indexKeyMissing "dead delivery index" "dept")
  | some (due, rest) =>
    match Text.splitOnce '/' rest with
    | none => .error (.indexKeyMissing "dead delivery index" "delivery id")
    | some (_dept, id) => dueIndexKey key due id

/-- `parse_dead_time_index_key`. -/
def parseDeadTimeIndexKey (key : String) : Except StoreError DueIndexKey :=
  match Text.splitOnce '/' key.toList with
  | none => .error (.indexKeyMissing "dead delivery time index" "delivery id")
  | some (due, id) => dueIndexKey key due id

theorem dueIndexKey_padded20 (key : String) (due : UInt64) (id : String) :
    dueIndexKey key (padded20 due) id.toList = .ok ⟨key, due, id⟩ := by
  rw [dueIndexKey, parseU64_padded20]
  simp

theorem parseIndexKey_makeIndexKey (dept : String) (due : UInt64) (id : String) :
    parseIndexKey (makeIndexKey dept due id) = .ok ⟨makeIndexKey dept due id, due, id⟩ := by
  rw [parseIndexKey, toList_makeIndexKey, Text.splitOnce_append (sep_notMem_encodeIndexPart _)]
  simp only [Text.splitOnce_append (sep_notMem_padded20 _), dueIndexKey_padded20]

theorem parseDeadDueIndexKey_makeDeadDueIndexKey (dept : String) (due : UInt64) (id : String) :
    parseDeadDueIndexKey (makeDeadDueIndexKey dept due id) =
      .ok ⟨makeDeadDueIndexKey dept due id, due, id⟩ := by
  rw [parseDeadDueIndexKey, toList_makeDeadDueIndexKey,
    Text.splitOnce_append (sep_notMem_padded20 _)]
  simp only [Text.splitOnce_append (sep_notMem_encodeIndexPart _), dueIndexKey_padded20]

theorem parseDeadTimeIndexKey_makeDeadTimeIndexKey (due : UInt64) (id : String) :
    parseDeadTimeIndexKey (makeDeadTimeIndexKey due id) =
      .ok ⟨makeDeadTimeIndexKey due id, due, id⟩ := by
  rw [parseDeadTimeIndexKey, toList_makeDeadTimeIndexKey,
    Text.splitOnce_append (sep_notMem_padded20 _)]
  simp only [dueIndexKey_padded20]

/-! ## Collecting keys -/

/-- Parse the keys a walk meets, stopping at the first one that does not parse. -/
def parseKeys (parse : String → Except StoreError DueIndexKey) :
    List (String × Unit) → Except StoreError (List DueIndexKey)
  | [] => .ok []
  | (key, _) :: rest => do
    let parsed ← parse key
    let keys ← parseKeys parse rest
    return parsed :: keys

/-- `collect_due_keys_for_all_depts`: walk the whole index and keep what is due, up to a limit. -/
def collectDueKeysForAllDepts (nowMs : UInt64) :
    ℕ → List (String × Unit) → Except StoreError (List DueIndexKey)
  | 0, _ => .ok []
  | _ + 1, [] => .ok []
  | limit + 1, (key, _) :: rest => do
    let parsed ← parseIndexKey key
    if parsed.dueMs ≤ nowMs then
      let keys ← collectDueKeysForAllDepts nowMs limit rest
      return parsed :: keys
    else collectDueKeysForAllDepts nowMs (limit + 1) rest

/-- The character that ends a range of keys, above every other. -/
def lastChar : Char := Char.ofNat 0x10ffff

/-- Where the keys of a department start. -/
def dueRangeStart (dept : String) : String :=
  encodeIndexPart dept ++ "/" ++ String.ofList (padded20 0) ++ "/"

/-- Where the keys of a department that are due at `nowMs` end. -/
def dueRangeStop (dept : String) (nowMs : UInt64) : String :=
  encodeIndexPart dept ++ "/" ++ String.ofList (padded20 nowMs) ++ "/" ++ String.ofList [lastChar]

/-- `collect_due_keys_for_dept`: the first keys of the range of a department up to `nowMs`. -/
def collectDueKeysForDept (table : Table String Unit) (dept : String) (nowMs : UInt64)
    (limit : ℕ) : Except StoreError (List DueIndexKey) :=
  parseKeys parseIndexKey
    ((Table.range table (dueRangeStart dept) (dueRangeStop dept nowMs)).take limit)

/-- `collect_due_keys`. -/
def collectDueKeys (table : Table String Unit) (dept : Option String) (nowMs : UInt64)
    (limit : ℕ) : Except StoreError (List DueIndexKey) :=
  if limit = 0 then .ok []
  else match dept with
    | some dept => collectDueKeysForDept table dept nowMs limit
    | none => collectDueKeysForAllDepts nowMs limit table.toList

/-- A parsed due key that stands for itself. -/
def DueIndexKey.WellFormed (k : DueIndexKey) : Prop :=
  ∃ dept, k.key = makeIndexKey dept k.dueMs k.deliveryId

/-- A parsed dead key that stands for itself. -/
def DueIndexKey.DeadWellFormed (k : DueIndexKey) : Prop :=
  ∃ dept, k.key = makeDeadDueIndexKey dept k.dueMs k.deliveryId

theorem parse_eq_ok {parse : String → Except StoreError DueIndexKey} {f : String → UInt64 → String → String}
    (hparse : ∀ d t i, parse (f d t i) = .ok ⟨f d t i, t, i⟩) {key : String} {p : DueIndexKey}
    (hkey : ∃ d t i, key = f d t i) (h : parse key = .ok p) :
    p.key = key ∧ ∃ dept, p.key = f dept p.dueMs p.deliveryId := by
  obtain ⟨d, t, i, rfl⟩ := hkey
  rw [hparse, Except.ok.injEq] at h
  subst h
  exact ⟨rfl, d, rfl⟩

/-- What a list of parsed keys looks like. -/
theorem parseKeys_eq_ok {parse : String → Except StoreError DueIndexKey}
    {f : String → UInt64 → String → String}
    (hparse : ∀ d t i, parse (f d t i) = .ok ⟨f d t i, t, i⟩) :
    ∀ {l : List (String × Unit)} {keys : List DueIndexKey},
      (∀ p ∈ l, ∃ d t i, p.1 = f d t i) → parseKeys parse l = .ok keys →
      keys.map DueIndexKey.key = l.map Prod.fst ∧
        ∀ k ∈ keys, ∃ dept, k.key = f dept k.dueMs k.deliveryId
  | [], keys, _, h => by
    rw [parseKeys, Except.ok.injEq] at h
    subst h
    exact ⟨rfl, by simp⟩
  | (key, u) :: rest, keys, hl, h => by
    rw [parseKeys] at h
    cases hp : parse key with
    | error e => rw [hp] at h; cases h
    | ok p =>
      cases hr : parseKeys parse rest with
      | error e => rw [hp, hr] at h; cases h
      | ok ks =>
        rw [hp, hr] at h
        obtain rfl : p :: ks = keys := Except.ok.inj h
        obtain ⟨ih1, ih2⟩ := parseKeys_eq_ok hparse (fun q hq => hl q (by simp [hq])) hr
        obtain ⟨hkey, hwf⟩ := parse_eq_ok hparse (hl (key, u) (by simp)) hp
        refine ⟨by rw [List.map_cons, List.map_cons, ih1, hkey], ?_⟩
        intro k hk
        rcases List.mem_cons.1 hk with rfl | hk
        · exact hwf
        · exact ih2 k hk

/-- Keys that stand for themselves parse. -/
theorem exists_parseKeys {parse : String → Except StoreError DueIndexKey}
    {f : String → UInt64 → String → String}
    (hparse : ∀ d t i, parse (f d t i) = .ok ⟨f d t i, t, i⟩) :
    ∀ {l : List (String × Unit)}, (∀ p ∈ l, ∃ d t i, p.1 = f d t i) →
      ∃ keys, parseKeys parse l = .ok keys
  | [], _ => ⟨[], rfl⟩
  | (key, u) :: rest, hl => by
    obtain ⟨ks, hks⟩ := exists_parseKeys hparse (l := rest) (fun q hq => hl q (by simp [hq]))
    obtain ⟨d, t, i, hkey⟩ := hl (key, u) (by simp)
    subst hkey
    exact ⟨_, by rw [parseKeys, hparse, hks]; rfl⟩

theorem compare_eq_gt_iff {a b : String} : compare a b = .gt ↔ b < a := by
  constructor
  · intro h
    have hne : ¬ a < b ∧ a ≠ b := by
      constructor
      · intro hlt
        rw [show compare a b = compareOfLessAndEq a b from rfl, compareOfLessAndEq, if_pos hlt] at h
        cases h
      · intro heq
        rw [heq, Std.compare_self] at h
        cases h
    exact String.not_le.1 fun hle => hne.2 (String.le_antisymm hle (String.not_lt.1 hne.1))
  · intro hlt
    have hnlt : ¬ a < b := String.lt_asymm hlt
    have hne : a ≠ b := fun h => String.lt_irrefl a (h ▸ hlt)
    rw [show compare a b = compareOfLessAndEq a b from rfl, compareOfLessAndEq, if_neg hnlt,
      if_neg hne]

/-- A key in the range of a department is a key of that department, and due. -/
theorem due_of_mem_range {table : Table String Unit} {dept : String} {nowMs : UInt64}
    {d id : String} {due : UInt64}
    (h : (makeIndexKey d due id, ()) ∈
      Table.range table (dueRangeStart dept) (dueRangeStop dept nowMs)) :
    d = dept ∧ due ≤ nowMs := by
  obtain ⟨_, hlo, hhi⟩ := Table.mem_range.1 h
  rw [Ne, compare_eq_gt_iff, String.lt_iff, toList_makeIndexKey] at hlo hhi
  have hlo' : ¬ (encodeIndexPart d).toList ++ '/' :: (padded20 due ++ '/' :: id.toList) <
      ((encodeIndexPart dept).toList ++ ['/']) ++ (padded20 0 ++ ['/']) := by
    simpa [dueRangeStart] using hlo
  have hhi' : ¬ ((encodeIndexPart dept).toList ++ ['/']) ++ (padded20 nowMs ++ ['/', lastChar]) <
      (encodeIndexPart d).toList ++ '/' :: (padded20 due ++ '/' :: id.toList) := by
    simpa [dueRangeStop] using hhi
  obtain ⟨c, hc, _, hle⟩ := Text.exists_append_of_between hlo' hhi'
  rw [List.append_assoc, List.singleton_append] at hc
  obtain ⟨hd, rfl⟩ := Text.append_sep_inj (sep_notMem_encodeIndexPart d)
    (sep_notMem_encodeIndexPart dept) hc
  exact ⟨encodeIndexPart_injective (String.toList_inj.1 hd),
    UInt64.le_iff_toNat_le.2
      (Text.le_of_digits_append_le (toNat_lt_pow20 due) (toNat_lt_pow20 nowMs) hle)⟩

/-- A key of a department that is due is in the range of the department, unless it is due right now
and the id of its delivery lies beyond the end of the range. -/
theorem mem_range_of_due {table : Table String Unit} {dept id : String} {due nowMs : UInt64}
    (hkey : makeIndexKey dept due id ∈ table) (hdue : due ≤ nowMs)
    (hid : due < nowMs ∨ ¬ [lastChar] < id.toList) :
    (makeIndexKey dept due id, ()) ∈
      Table.range table (dueRangeStart dept) (dueRangeStop dept nowMs) := by
  have hlo : ¬ (encodeIndexPart dept).toList ++ '/' :: (padded20 due ++ '/' :: id.toList) <
      (encodeIndexPart dept).toList ++ ('/' :: (padded20 0 ++ ['/'])) := by
    rw [Text.append_lt_append_iff rfl, List.cons_lt_cons_iff, padded20_append_lt_iff,
      List.cons_lt_cons_iff]
    simp [List.lt_irrefl]
  have hhi : ¬ (encodeIndexPart dept).toList ++ ('/' :: (padded20 nowMs ++ ['/', lastChar])) <
      (encodeIndexPart dept).toList ++ '/' :: (padded20 due ++ '/' :: id.toList) := by
    rw [Text.append_lt_append_iff rfl, List.cons_lt_cons_iff, padded20_append_lt_iff,
      List.cons_lt_cons_iff]
    simp only [Std.lt_irrefl, false_or, true_and, not_or, not_and, UInt64.not_lt]
    refine ⟨hdue, fun heq => hid.resolve_left fun hlt => ?_⟩
    exact absurd (heq ▸ hlt) (UInt64.lt_irrefl _)
  obtain ⟨⟨⟩, hget⟩ := Option.isSome_iff_exists.1 (Std.ExtTreeMap.isSome_getElem?_iff_mem.2 hkey)
  refine Table.mem_range.2 ⟨hget, ?_, ?_⟩
  · rw [Ne, compare_eq_gt_iff, String.lt_iff, toList_makeIndexKey]
    simpa [dueRangeStart] using hlo
  · rw [Ne, compare_eq_gt_iff, String.lt_iff, toList_makeIndexKey]
    simpa [dueRangeStop] using hhi

/-- Every key of an index table stands for itself. -/
def KeysWellFormed (table : Table String Unit) : Prop :=
  ∀ k, k ∈ table → ∃ d t i, k = makeIndexKey d t i

theorem collectDueKeysForAllDepts_eq_ok {nowMs : UInt64} :
    ∀ {limit : ℕ} {l : List (String × Unit)} {keys : List DueIndexKey},
      (∀ p ∈ l, ∃ d t i, p.1 = makeIndexKey d t i) →
      collectDueKeysForAllDepts nowMs limit l = .ok keys →
      (keys.map DueIndexKey.key).Sublist (l.map Prod.fst) ∧
        ∀ k ∈ keys, k.WellFormed ∧ k.dueMs ≤ nowMs
  | 0, l, keys, _, h => by
    rw [collectDueKeysForAllDepts, Except.ok.injEq] at h
    subst h
    exact ⟨by simp, by simp⟩
  | limit + 1, [], keys, _, h => by
    rw [collectDueKeysForAllDepts, Except.ok.injEq] at h
    subst h
    exact ⟨by simp, by simp⟩
  | limit + 1, (key, u) :: rest, keys, hl, h => by
    have hrest : ∀ p ∈ rest, ∃ d t i, p.1 = makeIndexKey d t i := fun q hq => hl q (by simp [hq])
    obtain ⟨d, t, i, hkey⟩ := hl (key, u) (by simp)
    subst hkey
    rw [collectDueKeysForAllDepts, parseIndexKey_makeIndexKey] at h
    simp only [bind, Except.bind] at h
    split at h
    · rename_i hdue
      cases hr : collectDueKeysForAllDepts nowMs limit rest with
      | error e => rw [hr] at h; cases h
      | ok ks =>
        rw [hr] at h
        obtain rfl := Except.ok.inj h
        obtain ⟨ih1, ih2⟩ := collectDueKeysForAllDepts_eq_ok hrest hr
        refine ⟨ih1.cons_cons _, ?_⟩
        intro k hk
        rcases List.mem_cons.1 hk with rfl | hk
        · exact ⟨⟨d, rfl⟩, hdue⟩
        · exact ih2 k hk
    · obtain ⟨ih1, ih2⟩ := collectDueKeysForAllDepts_eq_ok hrest h
      exact ⟨ih1.trans (List.sublist_cons_self _ _), ih2⟩

/-- What the keys collected from an index are: keys of the index, standing for themselves, due, of
the department asked for, and no two the same. -/
structure CollectedDue (table : Table String Unit) (dept : Option String) (nowMs : UInt64)
    (keys : List DueIndexKey) : Prop where
  mem : ∀ k ∈ keys, k.key ∈ table
  wellFormed : ∀ k ∈ keys, k.WellFormed
  due : ∀ k ∈ keys, k.dueMs ≤ nowMs
  dept : ∀ k ∈ keys, ∀ wanted, dept = some wanted →
    k.key = makeIndexKey wanted k.dueMs k.deliveryId
  nodup : (keys.map DueIndexKey.key).Nodup

theorem mem_table_of_sublist {table : Table String Unit} {keys : List DueIndexKey}
    {l : List (String × Unit)} (hsub : (keys.map DueIndexKey.key).Sublist (l.map Prod.fst))
    (hl : ∀ p ∈ l, p.1 ∈ table) {k : DueIndexKey} (hk : k ∈ keys) : k.key ∈ table := by
  obtain ⟨p, hp, hpk⟩ := List.mem_map.1 (hsub.subset (List.mem_map_of_mem hk))
  exact hpk ▸ hl p hp

theorem mem_of_mem_toList {table : Table String Unit} {p : String × Unit}
    (hp : p ∈ table.toList) : p.1 ∈ table := by
  rw [← Std.ExtTreeMap.isSome_getElem?_iff_mem,
    Std.ExtTreeMap.mem_toList_iff_getElem?_eq_some.1 hp]
  rfl

/-- **Collecting due keys.** -/
theorem collectDueKeys_eq_ok {table : Table String Unit} {dept : Option String} {nowMs : UInt64}
    {limit : ℕ} {keys : List DueIndexKey} (hwf : KeysWellFormed table)
    (h : collectDueKeys table dept nowMs limit = .ok keys) :
    CollectedDue table dept nowMs keys := by
  unfold collectDueKeys at h
  split at h
  · obtain rfl := Except.ok.inj h
    constructor <;> simp
  · cases dept with
    | some dept =>
      dsimp only at h
      rw [collectDueKeysForDept] at h
      have hl : ∀ p ∈ (Table.range table (dueRangeStart dept) (dueRangeStop dept nowMs)).take limit,
          p.1 ∈ table := fun p hp => Table.mem_of_mem_range (List.mem_of_mem_take hp)
      obtain ⟨hmap, hkeys⟩ := parseKeys_eq_ok parseIndexKey_makeIndexKey
        (fun p hp => hwf p.1 (hl p hp)) h
      have hmem : ∀ k ∈ keys, k.key ∈ table := fun k hk =>
        mem_table_of_sublist (hmap ▸ List.Sublist.refl _) hl hk
      have hrange : ∀ k ∈ keys, makeIndexKey dept k.dueMs k.deliveryId = k.key ∧ k.dueMs ≤ nowMs := by
        intro k hk
        obtain ⟨d, hd⟩ := hkeys k hk
        obtain ⟨p, hp, hpk⟩ := List.mem_map.1 (hmap ▸ List.mem_map_of_mem hk :
          k.key ∈ List.map Prod.fst _)
        have hin : (makeIndexKey d k.dueMs k.deliveryId, ()) ∈
            Table.range table (dueRangeStart dept) (dueRangeStop dept nowMs) := by
          rw [← hd, ← hpk]
          exact List.mem_of_mem_take hp
        obtain ⟨rfl, hdue⟩ := due_of_mem_range hin
        exact ⟨hd.symm, hdue⟩
      exact {
        mem := hmem
        wellFormed := hkeys
        due := fun k hk => (hrange k hk).2
        dept := fun k hk wanted hw => by
          obtain rfl := Option.some.inj hw
          exact (hrange k hk).1.symm
        nodup := by
          rw [hmap]
          exact (Table.range_keys_nodup table _ _).sublist ((List.take_sublist _ _).map _) }
    | none =>
      obtain ⟨hsub, hkeys⟩ := collectDueKeysForAllDepts_eq_ok
        (fun p hp => hwf p.1 (mem_of_mem_toList hp)) h
      exact {
        mem := fun k hk => mem_table_of_sublist hsub (fun p hp => mem_of_mem_toList hp) hk
        wellFormed := fun k hk => (hkeys k hk).1
        due := fun k hk => (hkeys k hk).2
        dept := fun k _ wanted hw => by cases hw
        nodup := (Table.keys_nodup table).sublist hsub }

/-- With room for all of them, every due key is collected. -/
theorem exists_collectDueKeysForAllDepts (nowMs : UInt64) :
    ∀ {limit : ℕ} {l : List (String × Unit)},
      (∀ p ∈ l, ∃ d t i, p.1 = makeIndexKey d t i) → l.length ≤ limit →
      ∃ keys, collectDueKeysForAllDepts nowMs limit l = .ok keys ∧ keys.length ≤ l.length ∧
        ∀ d t i, makeIndexKey d t i ∈ l.map Prod.fst → t ≤ nowMs →
          ⟨makeIndexKey d t i, t, i⟩ ∈ keys
  | 0, [], _, _ => ⟨[], rfl, by simp, by simp⟩
  | _ + 1, [], _, _ => ⟨[], rfl, by simp, by simp⟩
  | limit + 1, (key, u) :: rest, hl, hlen => by
    have hrest : ∀ p ∈ rest, ∃ d t i, p.1 = makeIndexKey d t i := fun q hq => hl q (by simp [hq])
    obtain ⟨d, t, i, hkey⟩ := hl (key, u) (by simp)
    subst hkey
    simp only [List.length_cons] at hlen
    rw [collectDueKeysForAllDepts, parseIndexKey_makeIndexKey]
    simp only [bind, Except.bind]
    split
    · obtain ⟨keys, hkeys, hlength, hmem⟩ :=
        exists_collectDueKeysForAllDepts nowMs hrest (Nat.le_of_succ_le_succ hlen)
      refine ⟨_, by rw [hkeys]; rfl, by simpa using hlength, fun d' t' i' hin hdue => ?_⟩
      rcases List.mem_cons.1 hin with he | hin
      · obtain ⟨rfl, rfl, rfl⟩ := makeIndexKey_inj he
        simp
      · exact List.mem_cons_of_mem _ (hmem d' t' i' hin hdue)
    · rename_i hnot
      obtain ⟨keys, hkeys, hlength, hmem⟩ :=
        exists_collectDueKeysForAllDepts nowMs hrest (Nat.le_of_succ_le hlen)
      refine ⟨keys, hkeys, Nat.le_succ_of_le hlength, fun d' t' i' hin hdue => ?_⟩
      rcases List.mem_cons.1 hin with he | hin
      · obtain ⟨rfl, rfl, rfl⟩ := makeIndexKey_inj he
        exact absurd hdue hnot
      · exact hmem d' t' i' hin hdue

/-- **Collecting all due keys.** -/
theorem exists_collectDueKeys {table : Table String Unit} (nowMs : UInt64) {limit : ℕ}
    (hwf : KeysWellFormed table) (hlimit : table.size ≤ limit) :
    ∃ keys, collectDueKeys table none nowMs limit = .ok keys ∧ keys.length ≤ table.size ∧
      ∀ d t i, makeIndexKey d t i ∈ table → t ≤ nowMs → ⟨makeIndexKey d t i, t, i⟩ ∈ keys := by
  have hmem : ∀ {k : String}, k ∈ table → k ∈ table.toList.map Prod.fst := by
    intro k hk
    rw [Std.ExtTreeMap.map_fst_toList_eq_keys]
    exact Std.ExtTreeMap.mem_keys.2 hk
  have hlen : table.toList.length ≤ limit := by rwa [Std.ExtTreeMap.length_toList]
  obtain ⟨keys, hkeys, hlength, hall⟩ := exists_collectDueKeysForAllDepts nowMs
    (fun p hp => hwf p.1 (mem_of_mem_toList hp)) hlen
  rw [Std.ExtTreeMap.length_toList] at hlength
  unfold collectDueKeys
  split
  · rename_i hzero
    subst hzero
    have hempty : table.toList = [] := by
      rw [← List.length_eq_zero_iff, Std.ExtTreeMap.length_toList]
      omega
    refine ⟨[], rfl, Nat.zero_le _, fun d t i hk _ => ?_⟩
    have hk := hmem hk
    simp [hempty] at hk
  · exact ⟨keys, hkeys, hlength, fun d t i hk hdue => hall d t i (hmem hk) hdue⟩

end Fkst.Delivery
