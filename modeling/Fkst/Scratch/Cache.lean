import Mathlib.Algebra.Order.Floor.Semiring
import Mathlib.Data.Rat.Floor
import Fkst.RatePool
import Fkst.Scratch.Layout

/-!
# The scratch cache

`sdk_cache.rs`: a value is kept in a file of its key, after a line that says when it expires.  What
is read back from a file that was written is what was written (`decodeEntry_encodeEntry`).

The operations of the file system succeed here; a file is the list of its bytes.
-/

set_option autoImplicit false

namespace Fkst.Scratch

open Router (validateRuntimeKey FkstError)
open RatePool (u128SaturatingAdd)

/-- The bytes of a file. -/
abbrev Bytes := List UInt8

/-- The files of the file system. -/
abbrev Files := Path → Option Bytes

/-- `std::fs::write`. -/
def Files.write (files : Files) (path : Path) (bytes : Bytes) : Files :=
  Function.update files path (some bytes)

/-- `std::fs::remove_file`, of a file that may be missing. -/
def Files.remove (files : Files) (path : Path) : Files := Function.update files path none

/-- `std::fs::rename`. -/
def Files.rename (files : Files) (path target : Path) : Files :=
  Function.update (Function.update files target (files path)) path none

/-- The errors a script sees. -/
inductive LuaError where
  | schema (error : FkstError)
  | message (text : String)
deriving DecidableEq

/-- `validate_runtime_key(&key).map_err(mlua::Error::external)`. -/
def checkKey (key : String) : Except LuaError String :=
  match validateRuntimeKey key with
  | .error e => .error (.schema e)
  | .ok key => .ok key

theorem checkKey_eq_ok {key key' : String} :
    checkKey key = .ok key' ↔ validateRuntimeKey key = .ok key' := by
  rw [checkKey]
  split
  · rename_i e he
    rw [he]
    simp
  · rename_i k hk
    rw [hk]
    simp

/-! ## Entries -/

/-- `HEADER_PREFIX`. -/
def headerStart : String := "fkst-cache-v1 expires_at="

/-- `HEADER_NEVER`. -/
def headerNever : String := "never"

/-- `encode_entry`. -/
def encodeEntry (value : Bytes) (expiresAt : Option ℕ) : Bytes :=
  let expires := match expiresAt with
    | some nanos => nanos.repr
    | none => headerNever
  strBytes (headerStart ++ expires ++ "\n") ++ value

/-- `std::str::from_utf8`. -/
def fromUtf8 (bytes : Bytes) : Option String := String.fromUTF8? bytes.toByteArray

/-- `str::strip_prefix`. -/
def stripStart (start text : String) : Option (List Char) :=
  if start.toList.isPrefixOf text.toList then some (text.toList.drop start.toList.length) else none

/-- `decode_entry`. -/
def decodeEntry (raw : Bytes) : Option (Option ℕ × Bytes) := do
  let newline ← raw.findIdx? (· == 10)
  let header ← fromUtf8 (raw.take newline)
  let value := raw.drop (newline + 1)
  let expires ← stripStart headerStart header
  if expires = headerNever.toList then return (none, value)
  let nanos ← parseU128 expires
  return (some nanos, value)

theorem fromUtf8_strBytes (text : String) : fromUtf8 (strBytes text) = some text := by
  have hbytes : (strBytes text).toByteArray = text.toByteArray :=
    ByteArray.ext (by rw [List.data_toByteArray, strBytes, Array.toArray_toList])
  rw [fromUtf8, hbytes, String.fromUTF8?, dif_pos text.isValidUTF8]
  rfl

theorem stripStart_append (start text : String) :
    stripStart start (start ++ text) = some text.toList := by
  rw [stripStart, String.toList_append, if_pos (List.isPrefixOf_iff_prefix.2 (List.prefix_append _ _)),
    List.drop_left]

/-- The line before a value ends where the line feed is. -/
theorem decodeEntry_line {header : String} (hline : '\n' ∉ header.toList) (value : Bytes) :
    decodeEntry (strBytes (header ++ "\n") ++ value) =
      (stripStart headerStart header).bind fun expires =>
        if expires = headerNever.toList then some (none, value)
        else (parseU128 expires).bind fun nanos => some (some nanos, value) := by
  have hraw : strBytes (header ++ "\n") ++ value = strBytes header ++ 10 :: value := by
    rw [strBytes_eq, strBytes_eq, String.toList_append, Lib.Utf8.encode_append, List.append_assoc]
    rfl
  have hnewline : ∀ b ∈ strBytes header, (b == 10) = false := by
    intro b hb
    rw [beq_eq_false_iff_ne]
    rintro rfl
    rw [strBytes_eq, Lib.Utf8.mem_encode (a := '\n') (by decide)] at hb
    exact hline hb
  have hfind : (strBytes header ++ 10 :: value).findIdx? (· == 10) = some (strBytes header).length := by
    rw [List.findIdx?_append, List.findIdx?_eq_none_iff.2 hnewline, List.findIdx?_cons]
    simp
  rw [hraw, decodeEntry, hfind]
  simp only [Option.bind_eq_bind, Option.bind_some, List.take_left, fromUtf8_strBytes]
  have hvalue : (strBytes header ++ 10 :: value).drop ((strBytes header).length + 1) = value := by
    rw [List.drop_append, List.drop_eq_nil_of_le (Nat.le_succ _)]
    simp
  rw [hvalue]
  rfl

/-- **What was written is read back.** -/
theorem decodeEntry_encodeEntry (value : Bytes) {expires : Option ℕ}
    (hexpires : ∀ nanos ∈ expires, nanos < 2 ^ 128) :
    decodeEntry (encodeEntry value expires) = some (expires, value) := by
  have hstart : '\n' ∉ headerStart.toList := by decide
  cases expires with
  | none =>
    have hline : '\n' ∉ (headerStart ++ headerNever).toList := by decide
    rw [encodeEntry, decodeEntry_line hline, stripStart_append, Option.bind_some, if_pos rfl]
  | some nanos =>
    have hdigit : ∀ c ∈ nanos.repr.toList, c.isDigit = true := by
      intro c hc
      rw [Nat.toList_repr] at hc
      exact Nat.isDigit_of_mem_toDigits (by decide) (by decide) hc
    have hline : '\n' ∉ (headerStart ++ nanos.repr).toList := by
      rw [String.toList_append, List.mem_append]
      rintro (h | h)
      · exact hstart h
      · exact absurd (hdigit _ h) (by decide)
    have hnever : nanos.repr.toList ≠ headerNever.toList := by
      intro h
      have hn : 'n' ∈ nanos.repr.toList := h ▸ (by decide)
      exact absurd (hdigit _ hn) (by decide)
    rw [encodeEntry, decodeEntry_line hline, stripStart_append, Option.bind_some, if_neg hnever,
      parseU128_repr (hexpires nanos rfl), Option.bind_some]

/-! ## Operations -/

/-- `ttl_seconds_to_nanos`.  The product in `f64` is a number or infinite. -/
def ttlSecondsToNanos (product : ℚ → Option ℚ) (seconds : ℚ) : Except LuaError ℕ :=
  match product seconds with
  | none => .error (.message "cache ttl_seconds is too large")
  | some nanos =>
    if 2 ^ 64 < nanos then .error (.message "cache ttl_seconds is too large")
    else .ok (min ⌈nanos⌉₊ (2 ^ 64 - 1))

/-- `parse_ttl`.  An `f64` is finite and then a rational number, or it is not. -/
def parseTtl (product : ℚ → Option ℚ) : Option (Option ℚ) → Except LuaError (Option ℕ)
  | none => .ok none
  | some none => .error (.message "cache ttl_seconds must be a positive finite number")
  | some (some seconds) =>
    if 0 < seconds then do
      let nanos ← ttlSecondsToNanos product seconds
      return some nanos
    else .error (.message "cache ttl_seconds must be a positive finite number")

/-- `expires_at`. -/
def expiresAt (ttlNanos : Option ℕ) (now : ℕ) : Option ℕ := ttlNanos.map (u128SaturatingAdd now)

/-- What an invocation does not choose: where its files are, what multiplying by a billion gives in
`f64`, and the process id and number in the names of temporary files. -/
structure Host where
  layout : RuntimeLayout
  product : ℚ → Option ℚ
  temp : ℕ → String

/-- `cache_set`, at a time. -/
def cacheSet (host : Host) (number now : ℕ) (files : Files) (key : String) (value : Bytes)
    (ttlSeconds : Option (Option ℚ)) : Except LuaError Files := do
  let key ← checkKey key
  let ttl ← parseTtl host.product ttlSeconds
  let temp := tempFile host.layout key (host.temp number)
  return (files.write temp (encodeEntry value (expiresAt ttl now))).rename temp
    (valueFile host.layout key)

/-- `cache_get`, at a time. -/
def cacheGet (host : Host) (now : ℕ) (files : Files) (key : String) :
    Except LuaError (Files × Option Bytes) := do
  let key ← checkKey key
  match files (valueFile host.layout key) with
  | none => return (files, none)
  | some raw =>
    match decodeEntry raw with
    | some (some expires, value) =>
      if expires ≤ now then return (files.remove (valueFile host.layout key), none)
      else return (files, some value)
    | some (none, value) => return (files, some value)
    | none => return (files, none)

/-- `cache_expire`. -/
def cacheExpire (host : Host) (files : Files) (key : String) : Except LuaError Files := do
  let key ← checkKey key
  return files.remove (valueFile host.layout key)

/-! ## What the operations do -/

section Operations

variable {host : Host} {number now : ℕ} {files files' : Files} {key : String} {value : Bytes}
  {ttlSeconds : Option (Option ℚ)}

theorem expiresAt_lt {ttl : Option ℕ} (now : ℕ) :
    ∀ nanos ∈ expiresAt ttl now, nanos < 2 ^ 128 := by
  intro nanos h
  obtain ⟨t, _, rfl⟩ := Option.map_eq_some_iff.1 h
  exact Nat.lt_of_le_of_lt (Nat.min_le_right _ _) (by decide)

theorem checkKey_self {key key' : String} (h : checkKey key = .ok key') : key' = key :=
  (validateRuntimeKey_eq_ok (checkKey_eq_ok.1 h)).1

/-- `cache_set` writes the file of its key; it writes and removes a temporary one. -/
theorem cacheSet_eq_ok
    (h : cacheSet host number now files key value ttlSeconds = .ok files') :
    checkKey key = .ok key ∧ ∃ ttl, parseTtl host.product ttlSeconds = .ok ttl ∧
      files' = Function.update
        (Function.update files (valueFile host.layout key)
          (some (encodeEntry value (expiresAt ttl now))))
        (tempFile host.layout key (host.temp number)) none := by
  obtain ⟨key', hkey, hrest⟩ := Lib.Checks.bind_eq_ok.1 h
  obtain rfl := checkKey_self hkey
  obtain ⟨ttl, httl, hfiles⟩ := Lib.Checks.bind_eq_ok.1 hrest
  refine ⟨hkey, ttl, httl, ?_⟩
  rw [← Except.ok.inj hfiles, Files.rename, Files.write, Function.update_self,
    Function.update_comm tempFile_ne_valueFile, Function.update_idem]

/-- `cache_expire` removes the file of its key. -/
theorem cacheExpire_eq_ok (h : cacheExpire host files key = .ok files') :
    checkKey key = .ok key ∧ files' = files.remove (valueFile host.layout key) := by
  obtain ⟨key', hkey, hfiles⟩ := Lib.Checks.bind_eq_ok.1 h
  obtain rfl := checkKey_self hkey
  exact ⟨hkey, (Except.ok.inj hfiles).symm⟩

theorem cacheGet_of_none (hkey : checkKey key = .ok key)
    (hfile : files (valueFile host.layout key) = none) :
    cacheGet host now files key = .ok (files, none) := by
  refine Lib.Checks.bind_eq_ok.2 ⟨key, hkey, ?_⟩
  rw [hfile]
  rfl

/-- `cache_get` removes the file of a value that it finds expired. -/
theorem cacheGet_of_decodeEntry (hkey : checkKey key = .ok key) {raw : Bytes}
    (hfile : files (valueFile host.layout key) = some raw) {expires : Option ℕ}
    (hdecode : decodeEntry raw = some (expires, value)) :
    cacheGet host now files key = .ok (if ∃ nanos ∈ expires, nanos ≤ now
      then (files.remove (valueFile host.layout key), none) else (files, some value)) := by
  refine Lib.Checks.bind_eq_ok.2 ⟨key, hkey, ?_⟩
  rw [hfile]
  simp only [hdecode]
  cases expires with
  | none => simp [pure, Except.pure]
  | some nanos =>
    by_cases h : nanos ≤ now
    · simp [h, pure, Except.pure]
    · simp [h, pure, Except.pure]

end Operations

end Fkst.Scratch
