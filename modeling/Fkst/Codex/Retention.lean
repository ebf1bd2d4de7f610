import Fkst.Rust
import Fkst.Lib.Eviction
import Mathlib.Data.Prod.Lex
import Mathlib.Data.String.Basic

/-!
# Which codex logs are removed

Before each codex run the logs beside its own are pruned: those that are too old, and then the oldest until
the rest fits into the budget.  A log whose lifetime witness is held, or could not be probed, stays.
`mem_pruneCodexLogs` says which logs go, whatever the order in which the directory lists them.  With a log
goes its tail, which no other log shares (`codexOutputTailPath_injective`).
-/

set_option autoImplicit false

namespace Fkst.Codex

open Lib

/-! ## Names of files -/

/-- A name split at its last dot. -/
def rsplitDot : List Char → Option (List Char × List Char)
  | [] => none
  | c :: cs =>
    match rsplitDot cs with
    | some (front, back) => some (c :: front, back)
    | none => if c = '.' then some ([], cs) else none

/-- `Path::file_stem` and `Path::extension`: a dot at the front is part of the stem. -/
def stemAndExtension (name : List Char) : List Char × Option (List Char) :=
  if name = ['.', '.'] then (name, none)
  else
    match rsplitDot name with
    | some (c :: front, back) => (c :: front, some back)
    | _ => (name, none)

/-- `codex_output_tail_path`. -/
def codexOutputTailPath (name : List Char) : List Char :=
  let stem := (stemAndExtension name).1
  (if stem = [] then "codex".toList else stem) ++ ".tail".toList

/-! ## Pruning -/

/-- What `probe_lifetime_witness` says. -/
inductive WitnessProbe where
  | missing
  | unlocked
  | held
  | failed
deriving DecidableEq

/-- An entry of the directory, with what probing it says.  Times are nanoseconds from the epoch. -/
structure LogFile where
  name : List Char
  isFile : Bool
  len : UInt64
  modified : ℤ
  witness : WitnessProbe
deriving DecidableEq

/-- `CodexLogRetentionPolicy`. -/
structure LogRetentionPolicy where
  maxAge : Option Duration
  maxBytes : Option UInt64

/-- The entry is a log, and not the one of the run. -/
def LogFile.isOther (current : List Char) (entry : LogFile) : Bool :=
  entry.name != current && (stemAndExtension entry.name).2 == some "log".toList && entry.isFile &&
    entry.witness != .missing

/-- The log may be removed. -/
def LogFile.isFree (entry : LogFile) : Bool := entry.witness == .unlocked

/-- `now.duration_since(modified).unwrap_or(Duration::ZERO) > max_age`. -/
def LogRetentionPolicy.tooOld (policy : LogRetentionPolicy) (now : ℤ) (entry : LogFile) : Bool :=
  match policy.maxAge with
  | some maxAge => decide (maxAge.asNanos < (now - entry.modified).toNat)
  | none => false

/-- The loop over the directory: what is removed, and what is retained. -/
def scanLogs (policy : LogRetentionPolicy) (current : List Char) (now : ℤ) :
    List LogFile → List LogFile × List LogFile
  | [] => ([], [])
  | entry :: entries =>
    let (removed, retained) := scanLogs policy current now entries
    if !entry.isOther current then (removed, retained)
    else if entry.isFree && policy.tooOld now entry then (entry :: removed, retained)
    else (removed, entry :: retained)

/-- The order of `prune_codex_logs_by_size`. -/
def LogFile.key (entry : LogFile) : ℤ ×ₗ List Char := toLex (entry.modified, entry.name)

/-- Its second loop. -/
def removeLogs (maxBytes : UInt64) : UInt64 → List LogFile → List LogFile
  | _, [] => []
  | total, entry :: entries =>
    if total ≤ maxBytes then []
    else if !entry.isFree then removeLogs maxBytes total entries
    else entry :: removeLogs maxBytes (saturatingSub total entry.len) entries

/-- `total`. -/
def totalLen (entries : List LogFile) : UInt64 :=
  entries.foldl (fun sum entry => saturatingAdd sum entry.len) 0

/-- `prune_codex_logs_by_size`: what it removes. -/
def pruneCodexLogsBySize (entries : List LogFile) (maxBytes : UInt64) : List LogFile :=
  let total := totalLen entries
  if total ≤ maxBytes then []
  else removeLogs maxBytes total (entries.mergeSort fun left right => decide (left.key ≤ right.key))

/-- `prune_codex_logs`: what it removes. -/
def pruneCodexLogs (policy : LogRetentionPolicy) (current : List Char) (now : ℤ)
    (entries : List LogFile) : List LogFile :=
  if policy.maxAge.isNone && policy.maxBytes.isNone then []
  else
    let (removed, retained) := scanLogs policy current now entries
    match policy.maxBytes with
    | some maxBytes => removed ++ pruneCodexLogsBySize retained maxBytes
    | none => removed

/-! ## What is removed -/

/-- What one log weighs. -/
def LogFile.size (entry : LogFile) : ℕ := entry.len.toNat

theorem toNat_saturatingSub (a b : UInt64) : (saturatingSub a b).toNat = a.toNat - b.toNat := by
  rw [saturatingSub]
  split
  · rename_i h
    exact UInt64.toNat_sub_of_le a b h
  · rename_i h
    rw [UInt64.le_iff_toNat_le, not_le] at h
    rw [Nat.sub_eq_zero_of_le h.le]
    rfl

theorem removeLogs_eq_evict (maxBytes : UInt64) : ∀ (entries : List LogFile) (total : UInt64),
    removeLogs maxBytes total entries =
      evict LogFile.size LogFile.isFree maxBytes.toNat total.toNat entries
  | [], _ => rfl
  | entry :: entries, total => by
    rw [removeLogs, evict]
    by_cases htotal : total ≤ maxBytes
    · rw [if_pos htotal, if_pos (UInt64.le_iff_toNat_le.1 htotal)]
    rw [if_neg htotal, if_neg fun h => htotal (UInt64.le_iff_toNat_le.2 h)]
    cases hfree : entry.isFree with
    | true =>
      have ih := removeLogs_eq_evict maxBytes entries (saturatingSub total entry.len)
      rw [toNat_saturatingSub] at ih
      exact congrArg (entry :: ·) ih
    | false => exact removeLogs_eq_evict maxBytes entries total

theorem toNat_foldl_saturatingAdd : ∀ (entries : List LogFile) (total : UInt64),
    (entries.foldl (fun sum entry => saturatingAdd sum entry.len) total).toNat =
      min (total.toNat + weight LogFile.size entries) (2 ^ 64 - 1)
  | [], total => by
    have := total.toNat_lt
    simp [weight]
    omega
  | entry :: entries, total => by
    rw [List.foldl_cons, toNat_foldl_saturatingAdd entries, toNat_saturatingAdd, weight_cons, LogFile.size]
    omega

theorem toNat_totalLen (entries : List LogFile) :
    (totalLen entries).toNat = min (weight LogFile.size entries) (2 ^ 64 - 1) := by
  rw [totalLen, toNat_foldl_saturatingAdd]
  simp

section Scan

variable {policy : LogRetentionPolicy} {current : List Char} {now : ℤ} {entries : List LogFile}

/-- Logs that go because of their age. -/
def LogRetentionPolicy.expired (policy : LogRetentionPolicy) (current : List Char) (now : ℤ)
    (entry : LogFile) : Bool :=
  entry.isOther current && entry.isFree && policy.tooOld now entry

/-- Logs that count against the budget. -/
def LogRetentionPolicy.counted (policy : LogRetentionPolicy) (current : List Char) (now : ℤ)
    (entry : LogFile) : Bool :=
  entry.isOther current && !(entry.isFree && policy.tooOld now entry)

theorem scanLogs_eq : ∀ entries : List LogFile, scanLogs policy current now entries =
    (entries.filter (policy.expired current now), entries.filter (policy.counted current now))
  | [] => rfl
  | entry :: entries => by
    rw [scanLogs, scanLogs_eq entries, List.filter_cons, List.filter_cons]
    cases hother : entry.isOther current with
    | false => simp [LogRetentionPolicy.expired, LogRetentionPolicy.counted, hother]
    | true =>
      cases hold : entry.isFree && policy.tooOld now entry with
      | false => simp [LogRetentionPolicy.expired, LogRetentionPolicy.counted, hother, hold]
      | true => simp [LogRetentionPolicy.expired, LogRetentionPolicy.counted, hother, hold]

end Scan

/-- Names differ, so keys do. -/
theorem pairwise_key_ne {entries : List LogFile} (h : (entries.map (·.name)).Nodup) :
    entries.Pairwise fun a b => a.key ≠ b.key := by
  refine (List.pairwise_map.1 h).imp fun hne heq => hne ?_
  exact (Prod.mk.inj (toLex.injective heq)).2

/-- What goes for the budget: a log that is too much together with all that stay before it, and with all from
it on. -/
def overBudget (maxBytes : UInt64) (retained : List LogFile) (entry : LogFile) : Prop :=
  maxBytes.toNat < min (weight LogFile.size retained) (2 ^ 64 - 1) -
    weight LogFile.size (retained.filter fun other => other.isFree && decide (other.key < entry.key))

theorem mem_pruneCodexLogsBySize {entries : List LogFile} (h : (entries.map (·.name)).Nodup)
    (maxBytes : UInt64) (entry : LogFile) :
    entry ∈ pruneCodexLogsBySize entries maxBytes ↔
      entry ∈ entries ∧ entry.isFree = true ∧ overBudget maxBytes entries entry := by
  have hle : ∀ a b : LogFile, decide (a.key ≤ b.key) = true ↔ a.key ≤ b.key := fun a b => decide_eq_true_iff
  have hlisting : Keyset.Listing LogFile.key (entries.mergeSort fun left right => decide (left.key ≤ right.key)) :=
    Keyset.listing_mergeSort hle (pairwise_key_ne h)
  have hperm := List.mergeSort_perm entries fun left right => decide (left.key ≤ right.key)
  have hweight : ∀ p : LogFile → Bool, weight LogFile.size ((entries.mergeSort fun left right =>
      decide (left.key ≤ right.key)).filter p) = weight LogFile.size (entries.filter p) := fun p =>
    ((hperm.filter p).map LogFile.size).sum_nat
  rw [pruneCodexLogsBySize, overBudget]
  by_cases htotal : totalLen entries ≤ maxBytes
  · rw [if_pos htotal]
    rw [UInt64.le_iff_toNat_le, toNat_totalLen] at htotal
    refine ⟨fun h => (List.not_mem_nil h).elim, fun ⟨_, _, hlt⟩ => ?_⟩
    omega
  · rw [if_neg htotal, removeLogs_eq_evict, mem_evict hlisting, hweight, List.mem_mergeSort, toNat_totalLen]

/-- **Which logs are removed**: of the other logs in the directory whose witness is free, those that are too
old, and of the rest those that do not fit into the budget together with all newer ones and all that have to
stay. -/
theorem mem_pruneCodexLogs {entries : List LogFile} (h : (entries.map (·.name)).Nodup)
    (policy : LogRetentionPolicy) (current : List Char) (now : ℤ) (entry : LogFile) :
    entry ∈ pruneCodexLogs policy current now entries ↔
      entry ∈ entries ∧ entry.isOther current = true ∧ entry.isFree = true ∧
        (policy.tooOld now entry = true ∨
          ∃ maxBytes ∈ policy.maxBytes,
            overBudget maxBytes (entries.filter (policy.counted current now)) entry) := by
  have hnodup : ((entries.filter (policy.counted current now)).map (·.name)).Nodup :=
    (List.filter_sublist.map _).nodup h
  have hexpired : entry ∈ entries.filter (policy.expired current now) ↔
      entry ∈ entries ∧ entry.isOther current = true ∧ entry.isFree = true ∧
        policy.tooOld now entry = true := by
    rw [List.mem_filter, LogRetentionPolicy.expired, Bool.and_eq_true, Bool.and_eq_true, and_assoc]
  have hsize : ∀ maxBytes,
      entry ∈ pruneCodexLogsBySize (entries.filter (policy.counted current now)) maxBytes ↔
        entry ∈ entries ∧ entry.isOther current = true ∧ entry.isFree = true ∧
          policy.tooOld now entry ≠ true ∧
          overBudget maxBytes (entries.filter (policy.counted current now)) entry := fun maxBytes => by
    rw [mem_pruneCodexLogsBySize hnodup, List.mem_filter, LogRetentionPolicy.counted]
    cases hfree : entry.isFree <;> cases hold : policy.tooOld now entry <;> simp [and_assoc]
  rw [pruneCodexLogs, scanLogs_eq]
  cases hmax : policy.maxBytes with
  | none =>
    cases hage : policy.maxAge with
    | none => simp [LogRetentionPolicy.tooOld, hage]
    | some maxAge => simpa using hexpired
  | some maxBytes =>
    simp only [Option.isNone_some, Bool.and_false, Bool.false_eq_true, if_false, List.mem_append, hexpired,
      hsize, Option.mem_some_iff, exists_eq_left']
    by_cases hold : policy.tooOld now entry = true <;> simp [hold]

/-- Three logs, two of them free. -/
def retentionDir : List LogFile :=
  [⟨"a.log".toList, true, 10, 3, .unlocked⟩, ⟨"b.log".toList, true, 20, 1, .held⟩,
    ⟨"c.log".toList, true, 30, 2, .unlocked⟩]

theorem mem_pruneCodexLogs_dir :
    (⟨"c.log".toList, true, 30, 2, .unlocked⟩ : LogFile) ∈
        pruneCodexLogs ⟨none, some 30⟩ "d.log".toList 9 retentionDir ↔
      (⟨"c.log".toList, true, 30, 2, .unlocked⟩ : LogFile) ∈ retentionDir ∧
        LogFile.isOther "d.log".toList ⟨"c.log".toList, true, 30, 2, .unlocked⟩ = true ∧
        LogFile.isFree ⟨"c.log".toList, true, 30, 2, .unlocked⟩ = true ∧
        (LogRetentionPolicy.tooOld ⟨none, some 30⟩ 9 ⟨"c.log".toList, true, 30, 2, .unlocked⟩ = true ∨
          ∃ maxBytes ∈ (⟨none, some 30⟩ : LogRetentionPolicy).maxBytes,
            overBudget maxBytes (retentionDir.filter (LogRetentionPolicy.counted ⟨none, some 30⟩
              "d.log".toList 9)) ⟨"c.log".toList, true, 30, 2, .unlocked⟩) :=
  mem_pruneCodexLogs (by decide +kernel) _ _ _ _

/-! ## What is left -/

theorem rsplitDot_eq_some : ∀ {s front back : List Char}, rsplitDot s = some (front, back) →
    s = front ++ '.' :: back
  | c :: cs, front, back, h => by
    rw [rsplitDot] at h
    cases hcs : rsplitDot cs with
    | some split =>
      obtain ⟨front', back'⟩ := split
      rw [hcs] at h
      obtain ⟨rfl, rfl⟩ := Prod.mk.inj (Option.some.inj h)
      rw [rsplitDot_eq_some hcs, List.cons_append]
    | none =>
      rw [hcs] at h
      simp only at h
      split at h
      · rename_i hc
        obtain ⟨rfl, rfl⟩ := Prod.mk.inj (Option.some.inj h)
        rw [hc]
        rfl
      · cases h

/-- The name of a log, from its stem. -/
theorem name_of_extension {name ext : List Char} (h : (stemAndExtension name).2 = some ext) :
    (stemAndExtension name).1 ≠ [] ∧ name = (stemAndExtension name).1 ++ '.' :: ext := by
  rw [stemAndExtension] at h ⊢
  by_cases hdots : name = ['.', '.']
  · rw [if_pos hdots] at h
    cases h
  rw [if_neg hdots] at h ⊢
  split at h
  · rename_i c front back hsplit
    obtain rfl := Option.some.inj h
    exact ⟨List.cons_ne_nil _ _, rsplitDot_eq_some hsplit⟩
  · cases h

/-- No two logs have a tail in common. -/
theorem codexOutputTailPath_injective {name name' ext : List Char}
    (h : (stemAndExtension name).2 = some ext) (h' : (stemAndExtension name').2 = some ext)
    (heq : codexOutputTailPath name = codexOutputTailPath name') : name = name' := by
  obtain ⟨hne, hname⟩ := name_of_extension h
  obtain ⟨hne', hname'⟩ := name_of_extension h'
  simp only [codexOutputTailPath, if_neg hne, if_neg hne'] at heq
  rw [hname, hname', List.append_cancel_right heq]

/-- A tail is no log. -/
theorem codexOutputTailPath_ne {name name' : List Char}
    (h : (stemAndExtension name').2 = some "log".toList) : codexOutputTailPath name ≠ name' := by
  obtain ⟨_, hname'⟩ := name_of_extension h
  intro heq
  rw [hname', codexOutputTailPath] at heq
  have hlast := congrArg List.getLast? heq
  have htail : "tail".toList = ['t', 'a', 'i', 'l'] := rfl
  have hlog : "log".toList = ['l', 'o', 'g'] := rfl
  have htail' : ".tail".toList = ['.', 't', 'a', 'i', 'l'] := rfl
  rw [htail', hlog] at hlast
  simp at hlast

/-- `remove_codex_log`: what goes from the directory. -/
def removedFiles (removed : List LogFile) : List (List Char) :=
  removed.flatMap fun entry => [entry.name, codexOutputTailPath entry.name]

theorem pruneCodexLogsBySize_fits {entries : List LogFile} (h : (entries.map (·.name)).Nodup)
    (maxBytes : UInt64) (hweight : weight LogFile.size entries < 2 ^ 64) :
    weight LogFile.size (entries.filter (· ∉ pruneCodexLogsBySize entries maxBytes)) ≤ maxBytes.toNat ∨
      ∀ entry ∈ entries, entry.isFree = true → entry ∈ pruneCodexLogsBySize entries maxBytes := by
  have hperm := List.mergeSort_perm entries fun left right => decide (left.key ≤ right.key)
  have hnodup : (entries.mergeSort fun left right => decide (left.key ≤ right.key)).Nodup :=
    hperm.nodup_iff.2 (List.Nodup.of_map _ h)
  have htotal : (totalLen entries).toNat = weight LogFile.size entries := by
    rw [toNat_totalLen]
    omega
  rw [pruneCodexLogsBySize]
  by_cases hle : totalLen entries ≤ maxBytes
  · rw [if_pos hle]
    rw [UInt64.le_iff_toNat_le, htotal] at hle
    exact Or.inl (by simpa using hle)
  · rw [if_neg hle, removeLogs_eq_evict, htotal]
    refine (evict_fits _ _).imp (fun hfits => ?_) fun hall entry hentry hfree =>
      hall entry (List.mem_mergeSort.2 hentry) hfree
    have hdropped : (evict LogFile.size LogFile.isFree maxBytes.toNat (weight LogFile.size entries)
        (entries.mergeSort fun left right => decide (left.key ≤ right.key))).Sublist
          (entries.mergeSort fun left right => decide (left.key ≤ right.key)) :=
      evict_sublist _ _
    have hleft : weight LogFile.size _ + weight LogFile.size _ = weight LogFile.size _ :=
      weight_left hdropped hnodup
    have hsame : ∀ p : LogFile → Bool, weight LogFile.size ((entries.mergeSort fun left right =>
        decide (left.key ≤ right.key)).filter p) = weight LogFile.size (entries.filter p) := fun p =>
      ((hperm.filter p).map LogFile.size).sum_nat
    have hwhole : weight LogFile.size (entries.mergeSort fun left right => decide (left.key ≤ right.key)) =
        weight LogFile.size entries := (hperm.map LogFile.size).sum_nat
    rw [hsame, hwhole] at hleft
    omega

end Fkst.Codex
