import Fkst.Lib.OnPath
import Fkst.RestrictedLua.Memory
import Mathlib.Data.Finset.Sort
import Mathlib.Order.Interval.Finset.Nat

/-!
# Copying plain values between Lua states

`restricted_lua_load` evaluates a chunk in a Lua state of its own and copies what the chunk returns;
what goes in and out through the granted functions is copied too.  The copy goes through the tables
with the set of the pointers that it is under.

The source recurses; the model is given fuel, and the copy does not run out of it if there is more
than there are tables (`copyPlainValue_spec`).
-/

set_option autoImplicit false

namespace Fkst.RestrictedLua

open Lib

/-! ## `copy_plain_value` -/

/-- The pointers that the copy is under, and the tables. -/
structure State where
  visited : Finset ℕ
  memory : Memory

/-- A step of the copy, which fails with a message or runs out of fuel. -/
abbrev Step := ExceptT String Option

/-- What the loop over the pairs keeps. -/
structure Loop where
  state : State
  intKeys : Finset ℕ
  pairCount : ℕ

/-- The body of the loop over the pairs. -/
def copyPair (copy : Value → State → Step (Value × State)) (toTable : ℕ) (loop : Loop)
    (pair : Value × Value) : Step Loop :=
  match pair.1 with
  | .integer i => do
    let intKeys := if 0 < i.toInt then insert i.toInt.toNat loop.intKeys else loop.intKeys
    let (copiedValue, state) ← copy pair.2 loop.state
    let memory ← state.memory.rawSet toTable (.integer i) copiedValue
    return ⟨{ state with memory := memory }, intKeys, loop.pairCount + 1⟩
  | key => do
    let (copiedKey, state) ← copy key loop.state
    let (copiedValue, state) ← copy pair.2 state
    let memory ← state.memory.rawSet toTable copiedKey copiedValue
    return ⟨{ state with memory := memory }, loop.intKeys, loop.pairCount + 1⟩

/-- The integer keys are as many as the pairs, and are `1..=pair_count`. -/
def isArrayLoop (loop : Loop) : Bool :=
  loop.pairCount > 0 && loop.intKeys.card = loop.pairCount &&
    loop.intKeys.sort (· ≤ ·) = List.range' 1 loop.pairCount

/-- After the loop the new table is marked if it is an array, and the copy leaves the table. -/
def finishTable (table toTable : ℕ) (loop : Loop) : Value × State :=
  let memory := loop.state.memory
  let memory := if isArrayLoop loop then memory.update toTable (memory.table toTable).markArray
    else memory
  (.table toTable, ⟨loop.state.visited.erase table, memory⟩)

/-- `copy_plain_table`. -/
def copyPlainTable (copy : Value → State → Step (Value × State)) (context : String) (table : ℕ)
    (state : State) : Step (Value × State) :=
  if table ∈ state.visited then throw (context ++ " contains recursive table")
  else do
    let toTable := state.memory.length
    let loop ← (state.memory.table table).pairs.foldlM (copyPair copy toTable)
      ⟨⟨insert table state.visited, state.memory ++ [.empty]⟩, ∅, 0⟩
    return finishTable table toTable loop

/-- `copy_plain_value`. -/
def copyPlainValue (context : String) : ℕ → Value → State → Step (Value × State)
  | fuel, .table table, state =>
    match fuel with
    | 0 => ExceptT.mk none
    | fuel + 1 => copyPlainTable (copyPlainValue context fuel) context table state
  | _, .function _, _ => throw (context ++ " contains unsupported function")
  | _, .foreign typeName _, _ => throw (context ++ " contains unsupported " ++ typeName)
  | _, value, state => pure (value, state)

/-! ## What a copy is -/

/-- **A copy**: a scalar itself, or a table of the new ones with copies of the keys and the values,
and the marker of an array if the original is a sequence. -/
inductive Copied (source memory : Memory) (first : ℕ) : Value → Value → Prop where
  | scalar {v : Value} (h : v.IsScalar) : Copied source memory first v v
  | table {p q : ℕ} (hfirst : first ≤ q) (hlt : q < memory.length)
      (hmark : (memory.table q).isArray = true ↔ (source.table p).IsSequence)
      (hlen : (source.table p).pairs.length = (memory.table q).pairs.length)
      (hkeys : ∀ (i : ℕ) (pair copy : Value × Value), (source.table p).pairs[i]? = some pair →
        (memory.table q).pairs[i]? = some copy → Copied source memory first pair.1 copy.1)
      (hvalues : ∀ (i : ℕ) (pair copy : Value × Value), (source.table p).pairs[i]? = some pair →
        (memory.table q).pairs[i]? = some copy → Copied source memory first pair.2 copy.2) :
      Copied source memory first (.table p) (.table q)

variable {source memory memory' : Memory} {first first' : ℕ} {v w : Value}

theorem Copied.below_length (h : Copied source memory first v w) : w.Below memory.length := by
  cases h with
  | scalar h =>
    cases v with
    | table p => exact absurd rfl (h.2 p)
    | _ => trivial
  | table _ hlt => exact hlt

/-- What happens to other tables does not matter to a copy. -/
theorem Copied.mono (h : Copied source memory first v w) (hfirst : first' ≤ first)
    (hlen : memory.length ≤ memory'.length)
    (hsame : ∀ q, first ≤ q → q < memory.length → memory'.table q = memory.table q) :
    Copied source memory' first' v w := by
  induction h with
  | scalar h => exact .scalar h
  | @table p q hle hlt hmark hpairs hkeys hvalues ihkeys ihvalues =>
    have htable := hsame q hle hlt
    refine .table (hfirst.trans hle) (hlt.trans_le hlen) (by rwa [htable]) (by rwa [htable])
      (fun i pair copy hpair hcopy => ?_) (fun i pair copy hpair hcopy => ?_)
    · rw [htable] at hcopy
      exact ihkeys i pair copy hpair hcopy
    · rw [htable] at hcopy
      exact ihvalues i pair copy hpair hcopy

theorem Copied.eq_of_scalar (h : Copied source memory first v w) (hv : w.IsScalar) : v = w := by
  cases h with
  | scalar _ => rfl
  | @table p q => exact absurd rfl (hv.2 q)

theorem Copied.ne_nil (h : Copied source memory first v w) (hv : v ≠ .nil) : w ≠ .nil := by
  cases h with
  | scalar _ => exact hv
  | table => exact Value.noConfusion

theorem Copied.keyForm (h : Copied source memory first v w) (hv : keyForm v = some v) :
    keyForm w = some w := by
  cases h with
  | scalar _ => exact hv
  | table => rfl

/-- The tables of a copy are new. -/
theorem Copied.first_le (h : Copied source memory first v w) {q : ℕ} (hw : w = .table q) :
    first ≤ q := by
  cases h with
  | scalar h => exact absurd hw (h.2 q)
  | table hle =>
    cases hw
    exact hle

/-! ## The loop over the pairs -/

/-- The tables that the copy is under. -/
def path (visited : Finset ℕ) : Set Value := {v | ∃ pointer ∈ visited, v = .table pointer}

theorem path_insert (visited : Finset ℕ) (pointer : ℕ) :
    path (insert pointer visited) = insert (.table pointer) (path visited) := by
  ext v
  simp [path]

/-- What a copy comes to: it is a copy and leaves the path and the older tables alone, or it fails
since something that it would reach is not plain, is on the path or holds itself. -/
def Comes (source : Memory) (state : State) (v : Value) (x : Step (Value × State)) : Prop :=
  (∃ copy state', x = pure (copy, state') ∧
    OnPath.Clear (Holds source) Value.IsPlain (path state.visited) v ∧
    Copied source state'.memory state.memory.length v copy ∧ state'.visited = state.visited ∧
    state.memory <+: state'.memory) ∨
  ∃ message, x = throw message ∧ ¬OnPath.Clear (Holds source) Value.IsPlain (path state.visited) v

/-- **The invariant of the loop.**  The new table comes after the tables that there were. -/
structure LoopInv (source : Memory) (state : State) (done : List (Value × Value)) (loop : Loop) :
    Prop where
  visited : loop.state.visited = state.visited
  start : state.memory <+: loop.state.memory
  lt : state.memory.length < loop.state.memory.length
  isArray : (loop.state.memory.table state.memory.length).isArray = false
  copied : List.Forall₂ (fun pair copy =>
      Copied source loop.state.memory (state.memory.length + 1) pair.1 copy.1 ∧
      Copied source loop.state.memory (state.memory.length + 1) pair.2 copy.2)
    done (loop.state.memory.table state.memory.length).pairs
  intKeys : ∀ n, n ∈ loop.intKeys ↔
    ∃ i, Value.integer i ∈ done.map Prod.fst ∧ 0 < i.toInt ∧ n = i.toInt.toNat
  pairCount : loop.pairCount = done.length

section Loop

variable {state : State} {done : List (Value × Value)} {loop : Loop}

theorem exists_of_forall₂_mem {α β : Type} {R : α → β → Prop} {l : List α} {l' : List β}
    (h : List.Forall₂ R l l') {b : β} (hb : b ∈ l') : ∃ a ∈ l, R a b := by
  induction h with
  | nil => cases hb
  | @cons a b' _ _ hab _ ih =>
    rcases List.mem_cons.1 hb with rfl | hb
    · exact ⟨a, List.mem_cons_self, hab⟩
    · obtain ⟨a', ha', hR⟩ := ih hb
      exact ⟨a', List.mem_cons_of_mem _ ha', hR⟩

/-- A key that is copied now is none of the keys that were: a table is a later one. -/
theorem LoopInv.not_hasKey (h : LoopInv source state done loop) {key copy : Value}
    (hnew : key ∉ done.map Prod.fst) (hcopy : Copied source memory loop.state.memory.length key copy) :
    ¬(loop.state.memory.table state.memory.length).HasKey copy := by
  intro hkey
  obtain ⟨old, hold, hold'⟩ := List.mem_map.1 hkey
  obtain ⟨pair, hpair, hpairKey, -⟩ := exists_of_forall₂_mem h.copied hold
  rw [hold'] at hpairKey
  have hbelow := hpairKey.below_length
  cases hcopy with
  | scalar hscalar =>
    rw [← hpairKey.eq_of_scalar hscalar] at hnew
    exact hnew (List.mem_map_of_mem hpair)
  | table hle => exact absurd hbelow (not_lt.2 hle)

/-- **One pair more.** -/
theorem LoopInv.append (h : LoopInv source state done loop) {pair : Value × Value}
    (hkey : keyForm pair.1 = some pair.1) (hvalue : pair.2 ≠ .nil)
    (hnew : pair.1 ∉ done.map Prod.fst) {s₁ s₂ : State} {copiedKey copiedValue : Value}
    (hcopiedKey : Copied source s₁.memory loop.state.memory.length pair.1 copiedKey)
    (hs₁ : loop.state.memory <+: s₁.memory)
    (hcopiedValue : Copied source s₂.memory s₁.memory.length pair.2 copiedValue)
    (hs₂ : s₁.memory <+: s₂.memory) (hvisited : s₂.visited = state.visited) {intKeys : Finset ℕ}
    (hintKeys : ∀ n, n ∈ intKeys ↔ ∃ i, Value.integer i ∈ (done ++ [pair]).map Prod.fst ∧
      0 < i.toInt ∧ n = i.toInt.toNat) :
    ∃ memory, s₂.memory.rawSet state.memory.length copiedKey copiedValue = .ok memory ∧
      LoopInv source state (done ++ [pair])
        ⟨{ s₂ with memory := memory }, intKeys, loop.pairCount + 1⟩ := by
  have hs := hs₁.trans hs₂
  have htable := Memory.table_of_prefix hs h.lt
  have hlt := h.lt.trans_le hs.length_le
  have hlen₁ := hs₁.length_le
  have hlen₂ := hs₂.length_le
  let table := (loop.state.memory.table state.memory.length).append copiedKey copiedValue
    (hcopiedKey.keyForm hkey) (hcopiedValue.ne_nil hvalue) (h.not_hasKey hnew hcopiedKey)
  refine ⟨s₂.memory.update state.memory.length table, ?_, ?_⟩
  · rw [Memory.rawSet, htable, LuaTable.rawSet_new (hcopiedKey.keyForm hkey)
      (hcopiedValue.ne_nil hvalue) (h.not_hasKey hnew hcopiedKey)]
    rfl
  -- every copy is of tables after the new one
  have hsame : ∀ q, state.memory.length + 1 ≤ q →
      (s₂.memory.update state.memory.length table).table q = s₂.memory.table q :=
    fun q hq => Memory.table_update_ne (by omega) _
  refine ⟨hvisited, Memory.prefix_update (h.start.trans hs) (le_refl _) _, ?_, ?_, ?_, hintKeys, ?_⟩
  · rw [Memory.length_update]
    exact hlt
  · rw [Memory.table_update hlt]
    exact h.isArray
  · rw [Memory.table_update hlt]
    refine List.rel_append (h.copied.imp fun old copy hold => ?_) (.cons ⟨?_, ?_⟩ .nil)
    · have hmono : ∀ q, state.memory.length + 1 ≤ q → q < loop.state.memory.length →
          (s₂.memory.update state.memory.length table).table q = loop.state.memory.table q :=
        fun q hq hql => (hsame q hq).trans (Memory.table_of_prefix hs hql)
      have hlength : loop.state.memory.length ≤
          (s₂.memory.update state.memory.length table).length := by
        rw [Memory.length_update]
        omega
      exact ⟨hold.1.mono (le_refl _) hlength hmono, hold.2.mono (le_refl _) hlength hmono⟩
    · refine hcopiedKey.mono h.lt (by rw [Memory.length_update]; omega) fun q hq hql => ?_
      exact (hsame q (by have := h.lt; omega)).trans (Memory.table_of_prefix hs₂ hql)
    · refine hcopiedValue.mono (by have := h.lt; omega) (by rw [Memory.length_update]) fun q hq _ => ?_
      exact hsame q (by have := h.lt; omega)
  · rw [List.length_append, h.pairCount]
    rfl

theorem clear_of_scalar (h : v.IsScalar) (visited : Finset ℕ) :
    OnPath.Clear (Holds source) Value.IsPlain (path visited) v := by
  rw [OnPath.clear_of_leaf]
  · refine ⟨h.1, ?_⟩
    rintro ⟨p, -, rfl⟩
    exact h.2 p rfl
  · rintro w ⟨p, rfl, -⟩
    exact h.2 p rfl

/-- A key more, if it is a positive integer. -/
theorem LoopInv.intKeys_append (h : LoopInv source state done loop) (key value : Value) (n : ℕ) :
    (∃ i, Value.integer i ∈ (done ++ [(key, value)]).map Prod.fst ∧ 0 < i.toInt ∧
      n = i.toInt.toNat) ↔
    n ∈ loop.intKeys ∨ ∃ i, key = .integer i ∧ 0 < i.toInt ∧ n = i.toInt.toNat := by
  rw [h.intKeys, List.map_append, List.map_singleton]
  constructor
  · rintro ⟨i, hi, hpos, rfl⟩
    rcases List.mem_append.1 hi with hi | hi
    · exact .inl ⟨i, hi, hpos, rfl⟩
    · exact .inr ⟨i, (List.mem_singleton.1 hi).symm, hpos, rfl⟩
  · rintro (⟨i, hi, hpos, rfl⟩ | ⟨i, rfl, hpos, rfl⟩)
    · exact ⟨i, List.mem_append_left _ hi, hpos, rfl⟩
    · exact ⟨i, List.mem_append_right _ (List.mem_singleton.2 rfl), hpos, rfl⟩

/-- The copies of the keys and values of a table. -/
def Copies (source : Memory) (state : State) (copy : Value → State → Step (Value × State)) : Prop :=
  ∀ v s, v.Below source.length → s.visited = state.visited → source <+: s.memory →
    Comes source s v (copy v s)

/-- What is clear below the path of the loop. -/
abbrev LoopClear (source : Memory) (state : State) (v : Value) : Prop :=
  OnPath.Clear (Holds source) Value.IsPlain (path state.visited) v

/-- **One pair of the loop.** -/
theorem copyPair_comes {copy : Value → State → Step (Value × State)}
    (hcopy : Copies source state copy) (hsource : source <+: state.memory)
    (h : LoopInv source state done loop) {pair : Value × Value} (hkey : keyForm pair.1 = some pair.1)
    (hvalue : pair.2 ≠ .nil) (hnew : pair.1 ∉ done.map Prod.fst)
    (hbelow : pair.1.Below source.length ∧ pair.2.Below source.length) :
    (∃ loop', copyPair copy state.memory.length loop pair = pure loop' ∧
      LoopInv source state (done ++ [pair]) loop' ∧
      LoopClear source state pair.1 ∧ LoopClear source state pair.2) ∨
    ∃ message, copyPair copy state.memory.length loop pair = throw message ∧
      (¬LoopClear source state pair.1 ∨ ¬LoopClear source state pair.2) := by
  have hstart := hsource.trans h.start
  obtain ⟨key, value⟩ := pair
  have hother : (∀ i, key ≠ .integer i) → copyPair copy state.memory.length loop (key, value) = (do
      let (copiedKey, state') ← copy key loop.state
      let (copiedValue, state') ← copy value state'
      let memory ← state'.memory.rawSet state.memory.length copiedKey copiedValue
      return ⟨{ state' with memory := memory }, loop.intKeys, loop.pairCount + 1⟩) := by
    intro hne
    cases key with
    | integer i => exact absurd rfl (hne i)
    | _ => rfl
  by_cases hint : ∃ i, key = .integer i
  · obtain ⟨i, rfl⟩ := hint
    have hscalar : (Value.integer i).IsScalar := ⟨trivial, fun _ => Value.noConfusion⟩
    have hintKeys : ∀ n, n ∈ (if 0 < i.toInt then insert i.toInt.toNat loop.intKeys
        else loop.intKeys) ↔ ∃ i', Value.integer i' ∈ (done ++ [(Value.integer i, value)]).map Prod.fst ∧
          0 < i'.toInt ∧ n = i'.toInt.toNat := by
      intro n
      rw [h.intKeys_append]
      split_ifs with hpos
      · rw [Finset.mem_insert, or_comm]
        exact or_congr_right ⟨fun hn => ⟨i, rfl, hpos, hn⟩, by rintro ⟨_, ⟨⟩, -, hn⟩; exact hn⟩
      · refine ⟨.inl, ?_⟩
        rintro (hn | ⟨_, ⟨⟩, hpos', -⟩)
        · exact hn
        · exact absurd hpos' hpos
    rcases hcopy value loop.state hbelow.2 h.visited hstart with
      ⟨copiedValue, s₂, hrun, hclear, hcopied, hvisited, hextends⟩ | ⟨message, hrun, hclear⟩
    · rw [h.visited] at hclear
      obtain ⟨memory, hset, hinv⟩ := h.append hkey hvalue hnew (.scalar hscalar) (List.prefix_refl _)
        hcopied hextends (hvisited.trans h.visited) hintKeys
      refine .inl ⟨_, ?_, hinv, clear_of_scalar hscalar _, hclear⟩
      rw [copyPair]
      dsimp only
      rw [hrun, pure_bind]
      dsimp only
      rw [hset]
      rfl
    · rw [h.visited] at hclear
      refine .inr ⟨message, ?_, .inr hclear⟩
      rw [copyPair]
      dsimp only
      rw [hrun]
      rfl
  · have hne : ∀ i, key ≠ .integer i := fun i hi => hint ⟨i, hi⟩
    have hintKeys : ∀ n, n ∈ loop.intKeys ↔ ∃ i, Value.integer i ∈
        (done ++ [(key, value)]).map Prod.fst ∧ 0 < i.toInt ∧ n = i.toInt.toNat := by
      intro n
      rw [h.intKeys_append]
      refine ⟨.inl, ?_⟩
      rintro (hn | ⟨i, hi, -⟩)
      · exact hn
      · exact absurd hi (hne i)
    rw [hother hne]
    rcases hcopy key loop.state hbelow.1 h.visited hstart with
      ⟨copiedKey, s₁, hrun₁, hclear₁, hcopied₁, hvisited₁, hextends₁⟩ | ⟨message, hrun, hclear⟩
    · rw [h.visited] at hclear₁
      rw [hrun₁, pure_bind]
      dsimp only
      rcases hcopy value s₁ hbelow.2 (hvisited₁.trans h.visited) (hstart.trans hextends₁) with
        ⟨copiedValue, s₂, hrun₂, hclear₂, hcopied₂, hvisited₂, hextends₂⟩ | ⟨message, hrun, hclear⟩
      · rw [hvisited₁, h.visited] at hclear₂
        obtain ⟨memory, hset, hinv⟩ := h.append hkey hvalue hnew hcopied₁ hextends₁ hcopied₂ hextends₂
          (hvisited₂.trans (hvisited₁.trans h.visited)) hintKeys
        refine .inl ⟨_, ?_, hinv, hclear₁, hclear₂⟩
        rw [hrun₂, pure_bind]
        dsimp only
        rw [hset]
        rfl
      · rw [hvisited₁, h.visited] at hclear
        refine .inr ⟨message, ?_, .inr hclear⟩
        rw [hrun]
        rfl
    · rw [h.visited] at hclear
      refine .inr ⟨message, ?_, .inl hclear⟩
      rw [hrun]
      rfl

/-- **The loop.** -/
theorem copyPairs_comes {copy : Value → State → Step (Value × State)}
    (hcopy : Copies source state copy) (hsource : source <+: state.memory) {table : LuaTable}
    (hbelow : ∀ pair ∈ table.pairs, pair.1.Below source.length ∧ pair.2.Below source.length) :
    ∀ (rest done : List (Value × Value)) (loop : Loop), table.pairs = done ++ rest →
      LoopInv source state done loop →
      (∃ loop', rest.foldlM (copyPair copy state.memory.length) loop = pure loop' ∧
        LoopInv source state table.pairs loop' ∧
        ∀ pair ∈ rest, LoopClear source state pair.1 ∧ LoopClear source state pair.2) ∨
      ∃ message, rest.foldlM (copyPair copy state.memory.length) loop = throw message ∧
        ∃ pair ∈ rest, ¬LoopClear source state pair.1 ∨ ¬LoopClear source state pair.2
  | [], done, loop, hpairs, h => by
    rw [List.append_nil] at hpairs
    exact .inl ⟨loop, rfl, hpairs ▸ h, by simp⟩
  | pair :: rest, done, loop, hpairs, h => by
    have hmem : pair ∈ table.pairs := by
      rw [hpairs]
      exact List.mem_append_right _ List.mem_cons_self
    have hnew : pair.1 ∉ done.map Prod.fst := by
      have hnodup := table.nodup
      rw [hpairs, List.map_append, List.map_cons, List.nodup_append] at hnodup
      exact fun hdone => hnodup.2.2 _ hdone _ List.mem_cons_self rfl
    rw [List.append_cons] at hpairs
    rw [List.foldlM_cons]
    rcases copyPair_comes hcopy hsource h (table.keys _ hmem) (table.values _ hmem) hnew
      (hbelow _ hmem) with ⟨loop', hrun, hinv, hclear⟩ | ⟨message, hrun, hclear⟩
    · rw [hrun, pure_bind]
      rcases copyPairs_comes hcopy hsource hbelow rest _ loop' hpairs hinv with
        ⟨last, hrest, hinv, hall⟩ | ⟨message, hrest, bad, hbad, hclear⟩
      · exact .inl ⟨last, hrest, hinv, List.forall_mem_cons.2 ⟨hclear, hall⟩⟩
      · exact .inr ⟨message, hrest, bad, List.mem_cons_of_mem _ hbad, hclear⟩
    · refine .inr ⟨message, ?_, pair, List.mem_cons_self, hclear⟩
      rw [hrun]
      rfl

/-! ## The marker -/

/-- The keys that are put into the set of integers. -/
def IsPositive (v : Value) : Prop := ∃ i, v = .integer i ∧ 0 < i.toInt

/-- What is put into the set for a key. -/
def indexOf : Value → ℕ
  | .integer i => i.toInt.toNat
  | _ => 0

theorem indexOf_injOn {v w : Value} (hv : IsPositive v) (hw : IsPositive w)
    (h : indexOf v = indexOf w) : v = w := by
  obtain ⟨i, rfl, hi⟩ := hv
  obtain ⟨j, rfl, hj⟩ := hw
  have hint : i.toInt = j.toInt := by
    rw [indexOf, indexOf] at h
    omega
  rw [Int64.toInt_inj.1 hint]

theorem sort_eq_range'_iff {s : Finset ℕ} {n : ℕ} :
    s.sort (· ≤ ·) = List.range' 1 n ↔ s = Finset.Icc 1 n := by
  have hmem : ∀ k, k ∈ List.range' 1 n ↔ 1 ≤ k ∧ k ≤ n := by
    intro k
    rw [List.mem_range'_1]
    omega
  constructor
  · intro h
    ext k
    rw [Finset.mem_Icc, ← hmem, ← h, Finset.mem_sort]
  · rintro rfl
    have hset : Finset.Icc 1 n = (List.range' 1 n).toFinset := by
      ext k
      rw [Finset.mem_Icc, List.mem_toFinset, hmem]
    rw [hset, (List.toFinset_sort (· ≤ ·) List.nodup_range').2 List.pairwise_le_range']

/-- **The marker is set for sequences.** -/
theorem LoopInv.isArrayLoop_iff {table : LuaTable} (h : LoopInv source state table.pairs loop) :
    isArrayLoop loop = true ↔ table.IsSequence := by
  classical
  obtain ⟨keys, hkeys⟩ : ∃ keys : Finset Value, keys = (table.pairs.map Prod.fst).toFinset := ⟨_, rfl⟩
  have hmem : ∀ key, table.HasKey key ↔ key ∈ keys := by
    intro key
    rw [hkeys, List.mem_toFinset]
    rfl
  have hcard : keys.card = table.pairs.length := by
    rw [hkeys, List.toFinset_card_of_nodup table.nodup, List.length_map]
  have himage : loop.intKeys = (keys.filter IsPositive).image indexOf := by
    ext n
    rw [h.intKeys, Finset.mem_image]
    constructor
    · rintro ⟨i, hi, hpos, rfl⟩
      exact ⟨.integer i, Finset.mem_filter.2 ⟨(hmem _).1 hi, i, rfl, hpos⟩, rfl⟩
    · rintro ⟨key, hkey, rfl⟩
      obtain ⟨hkey, i, rfl, hpos⟩ := Finset.mem_filter.1 hkey
      exact ⟨i, (hmem _).2 hkey, hpos, rfl⟩
  have hinj : loop.intKeys.card = (keys.filter IsPositive).card := by
    rw [himage]
    exact Finset.card_image_of_injOn fun v hv w hw =>
      indexOf_injOn (Finset.mem_filter.1 hv).2 (Finset.mem_filter.1 hw).2
  rw [isArrayLoop, Bool.and_eq_true, Bool.and_eq_true, decide_eq_true_iff, decide_eq_true_iff,
    decide_eq_true_iff, h.pairCount, sort_eq_range'_iff, LuaTable.IsSequence]
  constructor
  · rintro ⟨⟨hpos, hcount⟩, hset⟩
    have hall : keys.filter IsPositive = keys :=
      Finset.eq_of_subset_of_card_le (Finset.filter_subset _ _) (by rw [← hinj, hcount, hcard])
    refine ⟨List.ne_nil_of_length_pos hpos, fun key => ⟨fun hkey => ?_, ?_⟩⟩
    · obtain ⟨-, i, rfl, hi⟩ := Finset.mem_filter.1 (hall.symm ▸ (hmem key).1 hkey)
      have hindex : i.toInt.toNat ∈ loop.intKeys := (h.intKeys _).2 ⟨i, hkey, hi, rfl⟩
      rw [hset, Finset.mem_Icc] at hindex
      exact ⟨i, rfl, hi, by omega⟩
    · rintro ⟨i, rfl, hi, hle⟩
      have hindex : i.toInt.toNat ∈ loop.intKeys := by
        rw [hset, Finset.mem_Icc]
        omega
      obtain ⟨j, hj, hjpos, heq⟩ := (h.intKeys _).1 hindex
      have hkey : Value.integer i = .integer j := indexOf_injOn ⟨i, rfl, hi⟩ ⟨j, rfl, hjpos⟩ heq
      rw [hkey]
      exact hj
  · rintro ⟨hne, hseq⟩
    have hall : keys.filter IsPositive = keys := by
      refine Finset.filter_true_of_mem fun key hkey => ?_
      obtain ⟨i, hi, hpos, -⟩ := (hseq key).1 ((hmem key).2 hkey)
      exact ⟨i, hi, hpos⟩
    have hcount : loop.intKeys.card = table.pairs.length := by rw [hinj, hall, hcard]
    refine ⟨⟨List.length_pos_of_ne_nil hne, hcount⟩, ?_⟩
    refine Finset.eq_of_subset_of_card_le (fun n hn => ?_) (by rw [hcount, Nat.card_Icc]; omega)
    obtain ⟨i, hi, hpos, rfl⟩ := (h.intKeys n).1 hn
    obtain ⟨j, hj, -, hle⟩ := (hseq _).1 hi
    cases hj
    rw [Finset.mem_Icc]
    omega

end Loop

/-! ## The copy of a value -/

theorem clear_table_iff {visited : Finset ℕ} {pointer : ℕ} :
    OnPath.Clear (Holds source) Value.IsPlain (path visited) (.table pointer) ↔
      pointer ∉ visited ∧ ∀ pair ∈ (source.table pointer).pairs,
        OnPath.Clear (Holds source) Value.IsPlain (path (insert pointer visited)) pair.1 ∧
        OnPath.Clear (Holds source) Value.IsPlain (path (insert pointer visited)) pair.2 := by
  have hpath : Value.table pointer ∈ path visited ↔ pointer ∈ visited := by
    constructor
    · rintro ⟨p, hp, heq⟩
      cases heq
      exact hp
    · exact fun hp => ⟨pointer, hp, rfl⟩
  rw [OnPath.clear_iff, hpath, path_insert]
  constructor
  · rintro ⟨-, hnot, hnext⟩
    exact ⟨hnot, fun pair hpair =>
      ⟨hnext _ ⟨pointer, rfl, pair, hpair, .inl rfl⟩, hnext _ ⟨pointer, rfl, pair, hpair, .inr rfl⟩⟩⟩
  · rintro ⟨hnot, hpairs⟩
    refine ⟨trivial, hnot, ?_⟩
    rintro w ⟨p, hp, pair, hpair, rfl | rfl⟩
    · cases hp
      exact (hpairs pair hpair).1
    · cases hp
      exact (hpairs pair hpair).2

/-- What the end of the loop leaves. -/
theorem LoopInv.finishTable_spec {pointer : ℕ} {visited : Finset ℕ} {loop : Loop}
    (h : LoopInv source ⟨insert pointer visited, memory⟩ (source.table pointer).pairs loop)
    (hnot : pointer ∉ visited) :
    Copied source (finishTable pointer memory.length loop).2.memory memory.length (.table pointer)
        (.table memory.length) ∧
      (finishTable pointer memory.length loop).2.visited = visited ∧
      memory <+: (finishTable pointer memory.length loop).2.memory := by
  obtain ⟨last, hlast⟩ : ∃ last, last = (finishTable pointer memory.length loop).2.memory :=
    ⟨_, rfl⟩
  have hlast' : last = if isArrayLoop loop then loop.state.memory.update memory.length
      (loop.state.memory.table memory.length).markArray else loop.state.memory := hlast
  have hpairs : (last.table memory.length).pairs = (loop.state.memory.table memory.length).pairs := by
    rw [hlast']
    split_ifs
    · rw [Memory.table_update h.lt]
      rfl
    · rfl
  have hisArray : (last.table memory.length).isArray = isArrayLoop loop := by
    rw [hlast']
    split_ifs with harray
    · rw [Memory.table_update h.lt, harray]
      rfl
    · rw [Bool.not_eq_true] at harray
      rw [harray]
      exact h.isArray
  have hlen : last.length = loop.state.memory.length := by
    rw [hlast']
    split_ifs
    · exact Memory.length_update _ _ _
    · rfl
  have hothers : ∀ q, memory.length + 1 ≤ q → last.table q = loop.state.memory.table q := by
    intro q hq
    rw [hlast']
    split_ifs
    · exact Memory.table_update_ne (by omega) _
    · rfl
  have hcopied : ∀ (i : ℕ) (pair copy : Value × Value), (source.table pointer).pairs[i]? = some pair →
      (last.table memory.length).pairs[i]? = some copy →
      Copied source last memory.length pair.1 copy.1 ∧
        Copied source last memory.length pair.2 copy.2 := by
    intro i pair copy hpair hcopy
    rw [hpairs] at hcopy
    obtain ⟨hi, rfl⟩ := List.getElem?_eq_some_iff.1 hpair
    obtain ⟨hi', rfl⟩ := List.getElem?_eq_some_iff.1 hcopy
    have hcopied := h.copied.get hi hi'
    exact ⟨hcopied.1.mono (Nat.le_succ _) hlen.ge fun q hq _ => hothers q hq,
      hcopied.2.mono (Nat.le_succ _) hlen.ge fun q hq _ => hothers q hq⟩
  rw [← hlast]
  refine ⟨.table (le_refl _) (hlen ▸ h.lt) ?_ ?_ (fun i pair copy hpair hcopy => ?_)
    (fun i pair copy hpair hcopy => ?_), ?_, ?_⟩
  · rw [hisArray]
    exact h.isArrayLoop_iff
  · rw [hpairs]
    exact h.copied.length_eq
  · exact (hcopied i pair copy hpair hcopy).1
  · exact (hcopied i pair copy hpair hcopy).2
  · exact (congrArg (Finset.erase · pointer) h.visited).trans (Finset.erase_insert hnot)
  · rw [hlast']
    split_ifs
    · exact Memory.prefix_update h.start (le_refl _) _
    · exact h.start

/-- **A table.** -/
theorem copyPlainTable_comes {copy : Value → State → Step (Value × State)} {context : String}
    {pointer : ℕ} {state : State} (hclosed : source.Closed) (hpointer : pointer < source.length)
    (hsource : source <+: state.memory) (hnot : pointer ∉ state.visited)
    (hcopy : Copies source ⟨insert pointer state.visited, state.memory⟩ copy) :
    Comes source state (.table pointer) (copyPlainTable copy context pointer state) := by
  obtain ⟨table, htable⟩ : ∃ table, table = source.table pointer := ⟨_, rfl⟩
  have hread : state.memory.table pointer = table := by
    rw [htable, Memory.table_of_prefix hsource hpointer]
  have hbelow : ∀ pair ∈ table.pairs, pair.1.Below source.length ∧ pair.2.Below source.length := by
    intro pair hpair
    rw [htable] at hpair
    exact ⟨hclosed _ _ ⟨pointer, rfl, pair, hpair, .inl rfl⟩,
      hclosed _ _ ⟨pointer, rfl, pair, hpair, .inr rfl⟩⟩
  have hinit : LoopInv source ⟨insert pointer state.visited, state.memory⟩ []
      ⟨⟨insert pointer state.visited, state.memory ++ [.empty]⟩, ∅, 0⟩ := by
    have hempty : (state.memory ++ [LuaTable.empty]).table state.memory.length = .empty :=
      Memory.table_length _ _
    refine ⟨rfl, List.prefix_append _ _, by simp, ?_, ?_, by simp, rfl⟩
    · rw [hempty]
      rfl
    · rw [hempty]
      exact .nil
  rw [copyPlainTable, if_neg hnot, hread]
  dsimp only
  rcases copyPairs_comes hcopy hsource hbelow table.pairs [] _ rfl hinit with
    ⟨loop, hrun, hinv, hclear⟩ | ⟨message, hrun, bad, hbad, hclear⟩
  · rw [htable] at hinv
    obtain ⟨hcopied, hvisited, hextends⟩ := hinv.finishTable_spec hnot
    refine .inl ⟨_, _, ?_, ?_, hcopied, hvisited, hextends⟩
    · rw [hrun, pure_bind]
      rfl
    · rw [clear_table_iff, ← htable]
      exact ⟨hnot, hclear⟩
  · refine .inr ⟨message, ?_, fun hall => ?_⟩
    · rw [hrun]
      rfl
    · rw [clear_table_iff, ← htable] at hall
      rcases hclear with hclear | hclear
      · exact hclear (hall.2 bad hbad).1
      · exact hclear (hall.2 bad hbad).2

/-- **The copy comes to an end**, one way or the other, if the fuel is more than the tables that it
is not under. -/
theorem copyPlainValue_comes (context : String) (hclosed : source.Closed) :
    ∀ (fuel : ℕ) (v : Value) (state : State), v.Below source.length → source <+: state.memory →
      (Finset.range source.length \ state.visited).card < fuel →
      Comes source state v (copyPlainValue context fuel v state) := by
  intro fuel
  induction fuel with
  | zero => exact fun _ _ _ _ hfuel => absurd hfuel (Nat.not_lt_zero _)
  | succ fuel ih =>
    intro v state hbelow hsource hfuel
    have hplain : ∀ v : Value, v.IsScalar → Comes source state v (pure (v, state)) := by
      intro v hscalar
      exact .inl ⟨v, state, rfl, clear_of_scalar hscalar _, .scalar hscalar, rfl, List.prefix_refl _⟩
    have hother : ∀ (v : Value) (message : String), ¬v.IsPlain →
        Comes source state v (throw message) := by
      intro v message hnot
      exact .inr ⟨message, rfl, fun hclear => hnot (hclear v .refl).1⟩
    cases v with
    | table pointer =>
      by_cases hmem : pointer ∈ state.visited
      · refine .inr ⟨_, if_pos hmem, fun hclear => ?_⟩
        exact (clear_table_iff.1 hclear).1 hmem
      · refine copyPlainTable_comes hclosed hbelow hsource hmem fun w s hw hvisited hs => ?_
        refine ih w s hw hs ?_
        have hfresh : pointer ∈ Finset.range source.length \ state.visited :=
          Finset.mem_sdiff.2 ⟨Finset.mem_range.2 hbelow, hmem⟩
        have hcard := Finset.card_erase_lt_of_mem hfresh
        rw [hvisited, Finset.sdiff_insert]
        omega
    | function pointer => exact hother _ _ (fun h => h)
    | foreign typeName pointer => exact hother _ _ (fun h => h)
    | nil | boolean _ | integer _ | number _ | string _ =>
      exact hplain _ ⟨trivial, fun _ => Value.noConfusion⟩

/-! ## What is copied -/

/-- **The same structure**: the same scalars, and tables whose pairs correspond, in whatever order
`next` has them. -/
inductive SameShape (memory : Memory) : Value → Value → Prop where
  | scalar {v : Value} (h : v.IsScalar) : SameShape memory v v
  | table {p q : ℕ}
      (pairing : Fin (memory.table p).pairs.length ≃ Fin (memory.table q).pairs.length)
      (hkeys : ∀ i, SameShape memory ((memory.table p).pairs.get i).1
        ((memory.table q).pairs.get (pairing i)).1)
      (hvalues : ∀ i, SameShape memory ((memory.table p).pairs.get i).2
        ((memory.table q).pairs.get (pairing i)).2) :
      SameShape memory (.table p) (.table q)

theorem Copied.sameShape (hclosed : source.Closed) (hsource : source <+: memory)
    (h : Copied source memory first v w) (hv : v.Below source.length) : SameShape memory v w := by
  induction h with
  | scalar h => exact .scalar h
  | @table p q hle hlt hmark hlen hkeys hvalues ihkeys ihvalues =>
    have hsame : memory.table p = source.table p := Memory.table_of_prefix hsource hv
    have hlen' : (memory.table p).pairs.length = (memory.table q).pairs.length := by rw [hsame, hlen]
    have hpair : ∀ i : Fin (memory.table p).pairs.length,
        (source.table p).pairs[i.val]? = some ((memory.table p).pairs.get i) := by
      intro i
      rw [← hsame]
      exact List.getElem?_eq_getElem i.isLt
    have hcopy : ∀ i : Fin (memory.table p).pairs.length,
        (memory.table q).pairs[i.val]? = some ((memory.table q).pairs.get (finCongr hlen' i)) :=
      fun i => List.getElem?_eq_getElem (finCongr hlen' i).isLt
    refine .table (finCongr hlen') (fun i => ?_) (fun i => ?_)
    · exact ihkeys i _ _ (hpair i) (hcopy i)
        (hclosed _ _ ⟨p, rfl, _, List.mem_of_getElem? (hpair i), .inl rfl⟩)
    · exact ihvalues i _ _ (hpair i) (hcopy i)
        (hclosed _ _ ⟨p, rfl, _, List.mem_of_getElem? (hpair i), .inr rfl⟩)

/-- A table of a copy is a copy of a table. -/
theorem Copied.exists_of_reachable (h : Copied source memory first v w) {q : ℕ}
    (hq : Relation.ReflTransGen (Holds memory) w (.table q)) :
    ∃ p, Copied source memory first (.table p) (.table q) := by
  have hstep : ∀ x, Relation.ReflTransGen (Holds memory) w x → ∃ y, Copied source memory first y x := by
    intro x hx
    induction hx with
    | refl => exact ⟨v, h⟩
    | @tail x z _ hz ih =>
      obtain ⟨y, hy⟩ := ih
      obtain ⟨q, rfl, copy, hcopy, hzcopy⟩ := hz
      cases hy with
      | scalar hscalar => exact absurd rfl (hscalar.2 q)
      | @table p q hle hlt hmark hlen hkeys hvalues =>
        obtain ⟨i, hi, rfl⟩ := List.getElem_of_mem hcopy
        have hi' : i < (source.table p).pairs.length := hlen ▸ hi
        have hget := List.getElem?_eq_getElem hi
        have hget' := List.getElem?_eq_getElem hi'
        rcases hzcopy with rfl | rfl
        · exact ⟨_, hkeys i _ _ hget' hget⟩
        · exact ⟨_, hvalues i _ _ hget' hget⟩
  obtain ⟨y, hy⟩ := hstep _ hq
  cases hy with
  | scalar hscalar => exact absurd rfl (hscalar.2 q)
  | @table p _ hle hlt hmark hlen hkeys hvalues =>
    exact ⟨p, .table hle hlt hmark hlen hkeys hvalues⟩

/-- What is a sequence does not depend on the keys that are not integers. -/
theorem isSequence_of_keys {table other : LuaTable} (hlen : table.pairs.length = other.pairs.length)
    (hkeys : ∀ (i : ℕ) (pair copy : Value × Value), table.pairs[i]? = some pair →
      other.pairs[i]? = some copy → ∀ n, pair.1 = .integer n ↔ copy.1 = .integer n)
    (h : table.IsSequence) : other.IsSequence := by
  obtain ⟨hne, hseq⟩ := h
  have hkey : ∀ n, table.HasKey (.integer n) → other.HasKey (.integer n) := by
    intro n hn
    obtain ⟨pair, hpair, hn⟩ := List.mem_map.1 hn
    obtain ⟨i, hi, rfl⟩ := List.getElem_of_mem hpair
    have hi' : i < other.pairs.length := hlen ▸ hi
    exact List.mem_map.2 ⟨_, List.getElem_mem hi',
      (hkeys i _ _ (List.getElem?_eq_getElem hi) (List.getElem?_eq_getElem hi') n).1 hn⟩
  refine ⟨List.ne_nil_of_length_pos (hlen ▸ List.length_pos_of_ne_nil hne), fun key => ⟨?_, ?_⟩⟩
  · intro hkey
    obtain ⟨copy, hcopy, rfl⟩ := List.mem_map.1 hkey
    obtain ⟨i, hi, rfl⟩ := List.getElem_of_mem hcopy
    have hi' : i < table.pairs.length := hlen.symm ▸ hi
    obtain ⟨n, hn, hbounds⟩ := (hseq _).1 (List.mem_map_of_mem (List.getElem_mem hi'))
    rw [hlen] at hbounds
    exact ⟨n, (hkeys i _ _ (List.getElem?_eq_getElem hi') (List.getElem?_eq_getElem hi) n).1 hn,
      hbounds⟩
  · rintro ⟨n, rfl, hbounds⟩
    rw [← hlen] at hbounds
    exact hkey n ((hseq _).2 ⟨n, rfl, hbounds⟩)

theorem Copied.integer_iff (h : Copied source memory first v w) (n : Int64) :
    v = .integer n ↔ w = .integer n := by
  cases h with
  | scalar _ => exact Iff.rfl
  | table => exact ⟨fun h => Value.noConfusion h, fun h => Value.noConfusion h⟩

/-- A copy of a table is a sequence if the table is. -/
theorem Copied.isSequence_iff {p q : ℕ} (h : Copied source memory first (.table p) (.table q)) :
    (source.table p).IsSequence ↔ (memory.table q).IsSequence := by
  cases h with
  | scalar hscalar => exact absurd rfl (hscalar.2 _)
  | table hle hlt hmark hlen hkeys hvalues =>
    constructor
    · exact isSequence_of_keys hlen fun i pair copy hpair hcopy =>
        (hkeys i pair copy hpair hcopy).integer_iff
    · exact isSequence_of_keys hlen.symm fun i copy pair hcopy hpair n =>
        ((hkeys i pair copy hpair hcopy).integer_iff n).symm

/-- A list that holds one empty table twice. -/
def sharedMemory : Memory :=
  [.empty, ⟨[(.integer 1, .table 0), (.integer 2, .table 0)], false, by decide, by decide, by decide⟩]

/-- The arguments of a call, or its results, one after the other and with the same set. -/
def copyAll (context : ℕ → String) (fuel : ℕ) : ℕ → List Value → State → Step (List Value × State)
  | _, [], state => pure ([], state)
  | idx, v :: rest, state => do
    let (copy, state) ← copyPlainValue (context (idx + 1)) fuel v state
    let (copies, state) ← copyAll context fuel (idx + 1) rest state
    return (copy :: copies, state)

/-- **Each is copied as if it were alone**: a table that several hold is not taken for a recursive
one. -/
theorem copyAll_comes (context : ℕ → String) (hclosed : source.Closed) {fuel : ℕ}
    (hfuel : source.length < fuel) : ∀ (values : List Value) (idx : ℕ) (state : State),
      (∀ v ∈ values, v.Below source.length) → source <+: state.memory → state.visited = ∅ →
      (∃ copies state', copyAll context fuel idx values state = pure (copies, state') ∧
        state'.visited = ∅ ∧ state.memory <+: state'.memory ∧
        List.Forall₂ (SameShape state'.memory) values copies ∧
        ∀ v ∈ values, OnPath.Clear (Holds source) Value.IsPlain ∅ v) ∨
      ∃ message, copyAll context fuel idx values state = throw message ∧
        ∃ v ∈ values, ¬OnPath.Clear (Holds source) Value.IsPlain ∅ v
  | [], _, state, _, _, hvisited =>
    .inl ⟨[], state, rfl, hvisited, List.prefix_refl _, .nil, by simp⟩
  | v :: rest, idx, state, hbelow, hsource, hvisited => by
    have hpath : path state.visited = ∅ := by simp [path, hvisited]
    obtain ⟨hv, hrest⟩ := List.forall_mem_cons.1 hbelow
    have hcard : (Finset.range source.length \ state.visited).card < fuel := by
      rw [hvisited, Finset.sdiff_empty, Finset.card_range]
      exact hfuel
    rw [copyAll]
    rcases copyPlainValue_comes (context (idx + 1)) hclosed fuel v state hv hsource hcard with
      ⟨copy, s, hrun, hclear, hcopied, hs, hextends⟩ | ⟨message, hrun, hclear⟩
    · rw [hpath] at hclear
      rcases copyAll_comes context hclosed hfuel rest (idx + 1) s hrest (hsource.trans hextends)
        (hs.trans hvisited) with ⟨copies, s', hrun', hs', hextends', hshapes, hall⟩ |
        ⟨message, hrun', bad, hbad, hclear'⟩
      · refine .inl ⟨copy :: copies, s', ?_, hs', hextends.trans hextends', .cons ?_ hshapes,
          List.forall_mem_cons.2 ⟨hclear, hall⟩⟩
        · rw [hrun, pure_bind]
          dsimp only
          rw [hrun']
          rfl
        · have hcopied' : Copied source s'.memory state.memory.length v copy :=
            hcopied.mono (le_refl _) hextends'.length_le fun q _ hq =>
              Memory.table_of_prefix hextends' hq
          exact hcopied'.sameShape hclosed (hsource.trans (hextends.trans hextends')) hv
      · refine .inr ⟨message, ?_, bad, List.mem_cons_of_mem _ hbad, hclear'⟩
        rw [hrun, pure_bind]
        dsimp only
        rw [hrun']
        rfl
    · rw [hpath] at hclear
      refine .inr ⟨message, ?_, v, List.mem_cons_self, hclear⟩
      rw [hrun]
      rfl

end Fkst.RestrictedLua
