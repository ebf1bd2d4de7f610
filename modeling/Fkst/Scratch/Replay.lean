import Mathlib.Data.Finset.Basic
import Fkst.Scratch.Cache

/-!
# Replayed invocations

A script that is run again for a delivery must not see what it left in the cache and the marks the
first time.  `sdk_cache.rs` and `sdk_mark.rs` leave the files where they are and remember in two sets
which keys this invocation has written and which callbacks it has run: a key that is not in its set is
treated as if there were no file.

A script is a tree: what it does next depends on what its last call returned.  A run logs the calls
with what they returned, the latest first, and everything they return is determined by the log
(`Expected`): so two runs of a script return the same, whatever was in the files.
-/

set_option autoImplicit false

namespace Fkst.Scratch

/-! ## Scripts and runs -/

/-- A script, with the callbacks it passes to `once`. -/
inductive Script where
  | done (outcome : Except LuaError Unit)
  | cacheSet (key : String) (value : Bytes) (ttlSeconds : Option (Option ℚ))
      (next : Except LuaError Unit → Script)
  | cacheGet (key : String) (next : Except LuaError (Option Bytes) → Script)
  | cacheExpire (key : String) (next : Except LuaError Unit → Script)
  | once (key : String) (callback : Script) (next : Except LuaError Bool → Script)

/-- What a script did.  The calls that read the clock have the time with them. -/
inductive Event where
  | cacheSet (now : ℕ) (key : String) (value : Bytes) (ttlSeconds : Option (Option ℚ))
      (reply : Except LuaError Unit)
  | cacheGet (now : ℕ) (key : String) (reply : Except LuaError (Option Bytes))
  | cacheExpire (key : String) (reply : Except LuaError Unit)
  /-- `once` calls back. -/
  | started (key : String)
  /-- `once` returns; it called back or it did not. -/
  | once (key : String) (ran : Bool) (reply : Except LuaError Bool)
deriving DecidableEq

/-- What the functions are registered with.  The clock and the time in markers are those of the call
with a number. -/
structure Registration where
  host : Host
  clock : ℕ → ℕ
  markedAt : ℕ → String
  sagaRecovery : Bool
  cacheReplayBypass : Bool
  onceReplayBypass : Bool

/-- An invocation: the files it finds, and what the functions remember. -/
structure Invocation where
  files : Files
  invocationWrites : Finset String := ∅
  invocationMarks : Finset String := ∅
  calls : ℕ := 0
  log : List Event := []

namespace Invocation

variable (env : Registration)

/-- Log an event. -/
def record (s : Invocation) (event : Event) : Invocation :=
  { s with calls := s.calls + 1, log := event :: s.log }

@[simp] theorem record_files (s : Invocation) (event : Event) : (s.record event).files = s.files := rfl

@[simp] theorem record_writes (s : Invocation) (event : Event) :
    (s.record event).invocationWrites = s.invocationWrites := rfl

@[simp] theorem record_marks (s : Invocation) (event : Event) :
    (s.record event).invocationMarks = s.invocationMarks := rfl

@[simp] theorem record_calls (s : Invocation) (event : Event) :
    (s.record event).calls = s.calls + 1 := rfl

@[simp] theorem record_log (s : Invocation) (event : Event) :
    (s.record event).log = event :: s.log := rfl

/-- `cache_set`, as it is registered. -/
def cacheSet (s : Invocation) (key : String) (value : Bytes) (ttlSeconds : Option (Option ℚ)) :
    Invocation × Except LuaError Unit :=
  let now := env.clock s.calls
  match Scratch.cacheSet env.host s.calls now s.files key value ttlSeconds with
  | .error e => (s.record (.cacheSet now key value ttlSeconds (.error e)), .error e)
  | .ok files =>
    let writes := if env.cacheReplayBypass then insert key s.invocationWrites else s.invocationWrites
    ({ s with files := files, invocationWrites := writes }.record
      (.cacheSet now key value ttlSeconds (.ok ())), .ok ())

/-- What `cache_get` looks up, as it is registered. -/
def lookup (s : Invocation) (key : String) : Except LuaError (Files × Option Bytes) :=
  if env.cacheReplayBypass then
    match checkKey key with
    | .error e => .error e
    | .ok _ =>
      if key ∉ s.invocationWrites then .ok (s.files, none)
      else Scratch.cacheGet env.host (env.clock s.calls) s.files key
  else Scratch.cacheGet env.host (env.clock s.calls) s.files key

/-- `cache_get`, as it is registered. -/
def cacheGet (s : Invocation) (key : String) : Invocation × Except LuaError (Option Bytes) :=
  let now := env.clock s.calls
  match s.lookup env key with
  | .error e => (s.record (.cacheGet now key (.error e)), .error e)
  | .ok (files, value) => ({ s with files := files }.record (.cacheGet now key (.ok value)), .ok value)

/-- `cache_expire`, as it is registered. -/
def cacheExpire (s : Invocation) (key : String) : Invocation × Except LuaError Unit :=
  match Scratch.cacheExpire env.host s.files key with
  | .error e => (s.record (.cacheExpire key (.error e)), .error e)
  | .ok files =>
    let writes :=
      if env.cacheReplayBypass then s.invocationWrites.erase key else s.invocationWrites
    ({ s with files := files, invocationWrites := writes }.record (.cacheExpire key (.ok ())), .ok ())

/-- What `once` finds before it calls back. -/
inductive Entry where
  | refused (error : LuaError)
  /-- The lock is held by this very invocation, which will never let go of it. -/
  | blocked
  | skipped
  /-- It calls back, and the marker was or was not there. -/
  | entered (markerPreexisting : Bool)

/-- The first half of `once`, with the keys whose callbacks are running. -/
def enterOnce (s : Invocation) (locks : List String) (key : String) : Entry :=
  let bypassMarker := env.onceReplayBypass && decide (key ∉ s.invocationMarks)
  if !env.sagaRecovery then .refused (.message "once requires saga_recovery capability")
  else
    match checkKey key with
    | .error e => .refused e
    | .ok key =>
      if key ∈ locks then .blocked
      else
        let markerPreexisting := (s.files (markFile env.host.layout key)).isSome
        if markerPreexisting && !bypassMarker then .skipped else .entered markerPreexisting

/-- The second half of `once`, after the callback has returned. -/
def finishOnce (s : Invocation) (key : String) (markerPreexisting : Bool) : Invocation :=
  let temp := tempMarkFile env.host.layout key
  let text := "key=" ++ key ++ "\nmarked_at=" ++ env.markedAt s.calls ++ "\n"
  let files :=
    if markerPreexisting then s.files
    else (s.files.write temp (strBytes text)).rename temp (markFile env.host.layout key)
  let marks := if env.onceReplayBypass then insert key s.invocationMarks else s.invocationMarks
  { s with files := files, invocationMarks := marks }

end Invocation

theorem Invocation.finishOnce_log (env : Registration) (s : Invocation) (key : String)
    (markerPreexisting : Bool) : (s.finishOnce env key markerPreexisting).log = s.log := rfl

/-- Run a script, with the keys whose callbacks are running.  It returns, or it waits for a lock of
its own. -/
def Script.run (env : Registration) :
    Script → List String → Invocation → Invocation × Option (Except LuaError Unit)
  | .done outcome, _, s => (s, some outcome)
  | .cacheSet key value ttlSeconds next, locks, s =>
    (next (s.cacheSet env key value ttlSeconds).2).run env locks (s.cacheSet env key value ttlSeconds).1
  | .cacheGet key next, locks, s =>
    (next (s.cacheGet env key).2).run env locks (s.cacheGet env key).1
  | .cacheExpire key next, locks, s =>
    (next (s.cacheExpire env key).2).run env locks (s.cacheExpire env key).1
  | .once key callback next, locks, s =>
    match s.enterOnce env locks key with
    | .refused e => (next (.error e)).run env locks (s.record (.once key false (.error e)))
    | .blocked => (s, none)
    | .skipped => (next (.ok false)).run env locks (s.record (.once key false (.ok false)))
    | .entered markerPreexisting =>
      match callback.run env (key :: locks) (s.record (.started key)) with
      | (s', none) => (s', none)
      | (s', some (.error e)) =>
        (next (.error e)).run env locks (s'.record (.once key true (.error e)))
      | (s', some (.ok ())) =>
        (next (.ok true)).run env locks
          ((s'.finishOnce env key markerPreexisting).record (.once key true (.ok true)))

/-! ## What calls should return -/

section Expected

variable (product : ℚ → Option ℚ) (key : String)

/-- A value with the time it expires. -/
abbrev Held := Bytes × Option ℕ

/-- A value, unless it has expired. -/
def Held.unexpired (now : ℕ) (held : Held) : Option Bytes :=
  match held.2 with
  | some expires => if expires ≤ now then none else some held.1
  | none => some held.1

/-- What a `cache_set` gives. -/
def heldOf (now : ℕ) (value : Bytes) (ttlSeconds : Option (Option ℚ)) : Option Held :=
  match parseTtl product ttlSeconds with
  | .ok ttl => some (value, expiresAt ttl now)
  | .error _ => none

/-- The value of the latest `cache_set` that is not followed by a `cache_expire`. -/
def latest : List Event → Option Held
  | [] => none
  | .cacheSet now k value ttlSeconds (.ok ()) :: before =>
    if k = key then heldOf product now value ttlSeconds else latest before
  | .cacheExpire k (.ok ()) :: before => if k = key then none else latest before
  | _ :: before => latest before

/-- The value of the latest `cache_set` that is not followed by a `cache_expire` or by a `cache_get`
that found it expired. -/
def remaining : List Event → Option Held
  | [] => none
  | .cacheSet now k value ttlSeconds (.ok ()) :: before =>
    if k = key then heldOf product now value ttlSeconds else remaining before
  | .cacheExpire k (.ok ()) :: before => if k = key then none else remaining before
  | .cacheGet now k (.ok _) :: before =>
    if k = key then (remaining before).filter fun held => (held.unexpired now).isSome
    else remaining before
  | _ :: before => remaining before

/-- A callback for the key has succeeded. -/
def Succeeded (log : List Event) : Prop := .once key true (.ok true) ∈ log

/-- The time that a call saw. -/
def Event.now? : Event → Option ℕ
  | .cacheSet now _ _ _ _ => some now
  | .cacheGet now _ _ => some now
  | _ => none

variable {product key}

section Equations

variable {k : String} {now : ℕ} {value : Bytes} {ttlSeconds : Option (Option ℚ)} {before : List Event}

theorem remaining_cacheSet : remaining product key (.cacheSet now k value ttlSeconds (.ok ()) :: before) =
    if k = key then heldOf product now value ttlSeconds else remaining product key before := rfl

theorem remaining_cacheGet {reply : Option Bytes} :
    remaining product key (.cacheGet now k (.ok reply) :: before) =
      if k = key then
        (remaining product key before).filter fun held => (held.unexpired now).isSome
      else remaining product key before := rfl

theorem remaining_cacheExpire : remaining product key (.cacheExpire k (.ok ()) :: before) =
    if k = key then none else remaining product key before := rfl

end Equations

theorem Held.unexpired_of_expired {now : ℕ} {held : Held} (h : ∃ nanos ∈ held.2, nanos ≤ now) :
    held.unexpired now = none := by
  obtain ⟨nanos, hnanos, hle⟩ := h
  rw [Held.unexpired, Option.mem_def.1 hnanos]
  exact if_pos hle

theorem Held.unexpired_of_not_expired {now : ℕ} {held : Held} (h : ¬ ∃ nanos ∈ held.2, nanos ≤ now) :
    held.unexpired now = some held.1 := by
  obtain ⟨value, expires⟩ := held
  cases expires with
  | none => rfl
  | some nanos => exact if_neg fun hle => h ⟨nanos, rfl, hle⟩

theorem Held.unexpired_eq_none {now t : ℕ} {held : Held} (ht : t ≤ now)
    (h : held.unexpired t = none) : held.unexpired now = none := by
  by_contra hsome
  have hexpired : ¬ ∃ nanos ∈ held.2, nanos ≤ t := by
    rintro ⟨nanos, hnanos, hle⟩
    exact hsome (Held.unexpired_of_expired ⟨nanos, hnanos, hle.trans ht⟩)
  rw [Held.unexpired_of_not_expired hexpired] at h
  cases h

/-- A clock that does not go back finds no value again that it found expired. -/
theorem remaining_bind_unexpired {now : ℕ} (log : List Event)
    (hclock : ∀ event ∈ log, ∀ t ∈ event.now?, t ≤ now) :
    (remaining product key log).bind (Held.unexpired now) =
      (latest product key log).bind (Held.unexpired now) := by
  induction log with
  | nil => rfl
  | cons event before ih =>
    have ih := ih fun e he => hclock e (List.mem_cons_of_mem _ he)
    cases event with
    | cacheSet t k value ttlSeconds reply =>
      cases reply with
      | error e => exact ih
      | ok u =>
        rw [remaining, latest]
        split
        · rfl
        · exact ih
    | cacheGet t k reply =>
      cases reply with
      | error e => exact ih
      | ok reply =>
        have ht : t ≤ now := hclock _ List.mem_cons_self t rfl
        have hlatest : latest product key (.cacheGet t k (.ok reply) :: before) =
            latest product key before := rfl
        rw [hlatest, remaining_cacheGet, ← ih]
        split
        · cases remaining product key before with
          | none => rfl
          | some held =>
            rw [Option.filter_some]
            split
            · rfl
            · rename_i hexpired
              rw [Option.not_isSome_iff_eq_none] at hexpired
              exact (Held.unexpired_eq_none ht hexpired).symm
        · rfl
    | cacheExpire k reply =>
      cases reply with
      | error e => exact ih
      | ok u =>
        rw [remaining, latest]
        split
        · rfl
        · exact ih
    | started k => exact ih
    | once k ran reply => exact ih

/-- **What a call should return**, after what the script has done before.

* `cache_get` returns the value that remains, if it has not expired; with a clock that has not gone
  back this is the unexpired value of the latest `cache_set` that no `cache_expire` follows.
* `once` does not call back for a key whose callback has succeeded.
* Where it may be used, `once` calls back if and only if no callback for the key has succeeded. -/
def Expected (env : Registration) (before : List Event) : Event → Prop
  | .cacheGet now key reply =>
    reply = (checkKey key).map (fun _ =>
        (remaining env.host.product key before).bind (Held.unexpired now)) ∧
      ((∀ event ∈ before, ∀ t ∈ event.now?, t ≤ now) →
        reply = (checkKey key).map fun _ =>
          (latest env.host.product key before).bind (Held.unexpired now))
  | .started key => ¬ Succeeded key before
  | .once key ran reply => env.sagaRecovery = true → checkKey key = .ok key →
    (ran = true ↔ ¬ Succeeded key before) ∧ (ran = false → reply = .ok false) ∧
      (ran = true → reply ≠ .ok false)
  | _ => True

/-- Every call of a log returned what it should. -/
def Coherent (env : Registration) : List Event → Prop
  | [] => True
  | event :: before => Expected env before event ∧ Coherent env before

theorem Coherent.expected {env : Registration} {log after before : List Event} {event : Event}
    (h : Coherent env log) (hlog : log = after ++ event :: before) : Expected env before event := by
  induction after generalizing log with
  | nil =>
    subst hlog
    exact h.1
  | cons e after ih =>
    subst hlog
    exact ih h.2 rfl

end Expected

/-! ## The sets and the files -/

section Invariant

variable {env : Registration} {s s' : Invocation} {key : String}

/-- The bytes of a value. -/
def Held.encode (held : Held) : Bytes := encodeEntry held.1 held.2

/-- **What the sets say about the files.**  A key that was written in this invocation has in its file
what remains of it, and a key whose callback has succeeded has a marker. -/
structure Shadowed (env : Registration) (s : Invocation) : Prop where
  written : ∀ key ∈ s.invocationWrites, s.files (valueFile env.host.layout key) =
    (remaining env.host.product key s.log).map Held.encode
  unwritten : ∀ key ∉ s.invocationWrites, remaining env.host.product key s.log = none
  succeeded : ∀ key, key ∈ s.invocationMarks ↔ Succeeded key s.log
  marked : ∀ key ∈ s.invocationMarks, (s.files (markFile env.host.layout key)).isSome = true

section Remaining

variable {product : ℚ → Option ℚ}

/-- What remains was set. -/
theorem exists_heldOf_of_remaining {held : Held} (log : List Event)
    (h : remaining product key log = some held) :
    ∃ now value ttlSeconds, heldOf product now value ttlSeconds = some held := by
  induction log with
  | nil => cases h
  | cons event before ih =>
    cases event with
    | cacheSet now k value ttlSeconds reply =>
      cases reply with
      | error e => exact ih h
      | ok u =>
        rw [remaining_cacheSet] at h
        split at h
        · exact ⟨now, value, ttlSeconds, h⟩
        · exact ih h
    | cacheGet now k reply =>
      cases reply with
      | error e => exact ih h
      | ok reply =>
        rw [remaining_cacheGet] at h
        split at h
        · exact ih (Option.filter_eq_some_iff.1 h).1
        · exact ih h
    | cacheExpire k reply =>
      cases reply with
      | error e => exact ih h
      | ok u =>
        rw [remaining_cacheExpire] at h
        split at h
        · cases h
        · exact ih h
    | started k => exact ih h
    | once k ran reply => exact ih h

/-- What remains can be read back. -/
theorem decodeEntry_remaining {held : Held} {log : List Event}
    (h : remaining product key log = some held) : decodeEntry held.encode = some (held.2, held.1) := by
  obtain ⟨now, value, ttlSeconds, hheld⟩ := exists_heldOf_of_remaining log h
  rw [heldOf] at hheld
  split at hheld
  · obtain rfl := Option.some.inj hheld
    exact decodeEntry_encodeEntry _ (expiresAt_lt now)
  · cases hheld

end Remaining

/-- Logging what is not a success. -/
theorem succeeded_cons {event : Event} {log : List Event}
    (h : ∀ key, event ≠ .once key true (.ok true)) : Succeeded key (event :: log) ↔ Succeeded key log := by
  constructor
  · intro hmem
    rcases List.mem_cons.1 hmem with heq | hmem
    · exact absurd heq.symm (h key)
    · exact hmem
  · exact List.mem_cons_of_mem event

/-- An event that changes nothing that is kept. -/
theorem Shadowed.record (h : Shadowed env s) (event : Event)
    (hremaining : ∀ key, remaining env.host.product key (event :: s.log) =
      remaining env.host.product key s.log)
    (hsucceeded : ∀ key, event ≠ .once key true (.ok true)) : Shadowed env (s.record event) where
  written key hkey := (h.written key hkey).trans (congrArg _ (hremaining key).symm)
  unwritten key hkey := (hremaining key).trans (h.unwritten key hkey)
  succeeded key := (h.succeeded key).trans (succeeded_cons hsucceeded).symm
  marked := h.marked

/-- The cache leaves the markers alone. -/
theorem cacheSet_markFile (key k : String) (value : Bytes) (ttlSeconds : Option (Option ℚ)) :
    (s.cacheSet env key value ttlSeconds).1.files (markFile env.host.layout k) =
      s.files (markFile env.host.layout k) := by
  rw [Invocation.cacheSet]
  cases hset : Scratch.cacheSet env.host s.calls (env.clock s.calls) s.files key value ttlSeconds with
  | error e => rfl
  | ok files =>
    obtain ⟨_, ttl, _, hfiles⟩ := cacheSet_eq_ok hset
    simp only [Invocation.record_files]
    rw [hfiles, Function.update_of_ne (Ne.symm tempFile_ne_markFile),
      Function.update_of_ne markFile_ne_valueFile]

theorem cacheExpire_markFile (key k : String) :
    (s.cacheExpire env key).1.files (markFile env.host.layout k) =
      s.files (markFile env.host.layout k) := by
  rw [Invocation.cacheExpire]
  cases hexpire : Scratch.cacheExpire env.host s.files key with
  | error e => rfl
  | ok files =>
    obtain ⟨_, hfiles⟩ := cacheExpire_eq_ok hexpire
    simp only [Invocation.record_files]
    rw [hfiles, Files.remove, Function.update_of_ne markFile_ne_valueFile]

theorem Shadowed.cacheSet (hbypass : env.cacheReplayBypass = true) (h : Shadowed env s)
    (key : String) (value : Bytes) (ttlSeconds : Option (Option ℚ)) :
    Shadowed env (s.cacheSet env key value ttlSeconds).1 := by
  rw [Invocation.cacheSet]
  cases hset : Scratch.cacheSet env.host s.calls (env.clock s.calls) s.files key value ttlSeconds with
  | error e => exact h.record _ (fun _ => rfl) nofun
  | ok files =>
    obtain ⟨_, ttl, httl, hfiles⟩ := cacheSet_eq_ok hset
    have hheld : heldOf env.host.product (env.clock s.calls) value ttlSeconds =
        some (value, expiresAt ttl (env.clock s.calls)) := by rw [heldOf, httl]
    simp only [hbypass, if_true]
    refine ⟨fun k hk => ?_, fun k hk => ?_, fun k => ?_, fun k hk => ?_⟩
    · simp only [Invocation.record_files, Invocation.record_log]
      rw [hfiles, remaining_cacheSet, Function.update_of_ne (Ne.symm tempFile_ne_valueFile)]
      by_cases hkey : key = k
      · rw [if_pos hkey, hheld, hkey, Function.update_self]
        rfl
      · rw [if_neg hkey, Function.update_of_ne (valueFile_ne (Ne.symm hkey))]
        exact h.written k ((Finset.mem_insert.1 hk).resolve_left (Ne.symm hkey))
    · simp only [Invocation.record_writes, Finset.mem_insert, not_or] at hk
      rw [Invocation.record_log, remaining_cacheSet, if_neg (Ne.symm hk.1)]
      exact h.unwritten k hk.2
    · exact (h.succeeded k).trans (succeeded_cons fun _ => Event.noConfusion).symm
    · simp only [Invocation.record_files]
      rw [hfiles, Function.update_of_ne (Ne.symm tempFile_ne_markFile),
        Function.update_of_ne markFile_ne_valueFile]
      exact h.marked k hk

theorem Shadowed.cacheExpire (hbypass : env.cacheReplayBypass = true) (h : Shadowed env s)
    (key : String) : Shadowed env (s.cacheExpire env key).1 := by
  rw [Invocation.cacheExpire]
  cases hexpire : Scratch.cacheExpire env.host s.files key with
  | error e => exact h.record _ (fun _ => rfl) nofun
  | ok files =>
    obtain ⟨_, hfiles⟩ := cacheExpire_eq_ok hexpire
    simp only [hbypass, if_true]
    refine ⟨fun k hk => ?_, fun k hk => ?_, fun k => ?_, fun k hk => ?_⟩
    · obtain ⟨hne, hk⟩ := Finset.mem_erase.1 hk
      simp only [Invocation.record_files, Invocation.record_log]
      rw [hfiles, Files.remove, remaining_cacheExpire, if_neg (Ne.symm hne), Function.update_of_ne (valueFile_ne hne)]
      exact h.written k hk
    · simp only [Invocation.record_writes, Finset.mem_erase, not_and] at hk
      rw [Invocation.record_log, remaining_cacheExpire]
      split
      · rfl
      · rename_i hne
        exact h.unwritten k (hk (Ne.symm hne))
    · exact (h.succeeded k).trans (succeeded_cons fun _ => Event.noConfusion).symm
    · simp only [Invocation.record_files]
      rw [hfiles, Files.remove, Function.update_of_ne markFile_ne_valueFile]
      exact h.marked k hk

theorem lookup_error (hbypass : env.cacheReplayBypass = true) {e : LuaError}
    (hcheck : checkKey key = .error e) : s.lookup env key = .error e := by
  rw [Invocation.lookup, if_pos hbypass, hcheck]

/-- What `cache_get` finds is what remains, and what it found expired it removes. -/
theorem Shadowed.lookup (hbypass : env.cacheReplayBypass = true) (h : Shadowed env s)
    (hcheck : checkKey key = .ok key) :
    ∃ files, s.lookup env key = .ok (files,
        (remaining env.host.product key s.log).bind (Held.unexpired (env.clock s.calls))) ∧
      (key ∈ s.invocationWrites → files (valueFile env.host.layout key) =
        ((remaining env.host.product key s.log).filter fun held =>
          (held.unexpired (env.clock s.calls)).isSome).map Held.encode) ∧
      ∀ path ≠ valueFile env.host.layout key, files path = s.files path := by
  rw [Invocation.lookup, if_pos hbypass, hcheck]
  by_cases hkey : key ∈ s.invocationWrites
  · have hfile := h.written key hkey
    simp only [hkey, not_true, if_false]
    cases hremaining : remaining env.host.product key s.log with
    | none =>
      rw [hremaining] at hfile
      exact ⟨s.files, cacheGet_of_none hcheck hfile, fun _ => hfile, fun _ _ => rfl⟩
    | some held =>
      rw [hremaining, Option.map_some] at hfile
      rw [cacheGet_of_decodeEntry hcheck hfile (decodeEntry_remaining hremaining), Option.bind_some,
        Option.filter_some]
      split
      · rename_i hexpired
        rw [Held.unexpired_of_expired hexpired]
        exact ⟨_, rfl, fun _ => Function.update_self _ _ _,
          fun path hpath => Function.update_of_ne hpath _ _⟩
      · rename_i hunexpired
        rw [Held.unexpired_of_not_expired hunexpired]
        exact ⟨s.files, rfl, fun _ => hfile, fun _ _ => rfl⟩
  · simp only [hkey, not_false_iff, if_true, h.unwritten key hkey]
    exact ⟨s.files, rfl, fun hmem => hmem.elim, fun _ _ => rfl⟩

theorem Shadowed.cacheGet (hbypass : env.cacheReplayBypass = true) (h : Shadowed env s) (key : String) :
    Shadowed env (s.cacheGet env key).1 := by
  rw [Invocation.cacheGet]
  cases hcheck : checkKey key with
  | error e =>
    rw [lookup_error hbypass hcheck]
    exact h.record _ (fun _ => rfl) fun _ => Event.noConfusion
  | ok key' =>
    obtain rfl := checkKey_self hcheck
    obtain ⟨files, hlookup, hvalue, hother⟩ := h.lookup hbypass hcheck
    rw [hlookup]
    refine ⟨fun k hk => ?_, fun k hk => ?_, fun k => ?_, fun k hk => ?_⟩
    · simp only [Invocation.record_files, Invocation.record_log]
      rw [remaining_cacheGet]
      by_cases hkey : key' = k
      · subst hkey
        rw [if_pos rfl]
        exact hvalue hk
      · rw [if_neg hkey, hother _ (valueFile_ne (Ne.symm hkey))]
        exact h.written k hk
    · rw [Invocation.record_log, remaining_cacheGet]
      split
      · rename_i heq
        rw [h.unwritten k hk, Option.filter_none]
      · exact h.unwritten k hk
    · exact (h.succeeded k).trans (succeeded_cons fun _ => Event.noConfusion).symm
    · simp only [Invocation.record_files]
      rw [hother _ markFile_ne_valueFile]
      exact h.marked k hk

theorem Shadowed.cacheGet_markFile (hbypass : env.cacheReplayBypass = true) (h : Shadowed env s)
    (key k : String) : (s.cacheGet env key).1.files (markFile env.host.layout k) =
      s.files (markFile env.host.layout k) := by
  rw [Invocation.cacheGet]
  cases hcheck : checkKey key with
  | error e =>
    rw [lookup_error hbypass hcheck]
    rfl
  | ok key' =>
    obtain rfl := checkKey_self hcheck
    obtain ⟨files, hlookup, _, hother⟩ := h.lookup hbypass hcheck
    rw [hlookup]
    exact hother _ markFile_ne_valueFile

/-- The end of `once` leaves a marker of its key and all others. -/
theorem finishOnce_markFile {markerPreexisting : Bool}
    (hmarker : markerPreexisting = true → (s.files (markFile env.host.layout key)).isSome = true)
    {k : String} (hk : k = key ∨ (s.files (markFile env.host.layout k)).isSome = true) :
    ((s.finishOnce env key markerPreexisting).files (markFile env.host.layout k)).isSome = true := by
  simp only [Invocation.finishOnce]
  split
  · rename_i hmarked
    rcases hk with rfl | hk
    · exact hmarker hmarked
    · exact hk
  · rw [Files.rename, Files.write, Function.update_of_ne (Ne.symm tempMarkFile_ne_markFile)]
    by_cases hkey : k = key
    · rw [hkey, Function.update_self, Function.update_self]
      rfl
    · rw [Function.update_of_ne (markFile_ne hkey),
        Function.update_of_ne (Ne.symm tempMarkFile_ne_markFile)]
      exact hk.resolve_left hkey

/-- A key whose callback has succeeded is marked, in the set and by a file. -/
theorem Shadowed.finishOnce (hbypass : env.onceReplayBypass = true) (h : Shadowed env s) (key : String)
    {markerPreexisting : Bool}
    (hmarker : markerPreexisting = true → (s.files (markFile env.host.layout key)).isSome = true) :
    Shadowed env ((s.finishOnce env key markerPreexisting).record (.once key true (.ok true))) := by
  have hvalue : ∀ k, (s.finishOnce env key markerPreexisting).files (valueFile env.host.layout k) =
      s.files (valueFile env.host.layout k) := by
    intro k
    simp only [Invocation.finishOnce]
    split
    · rfl
    · rw [Files.rename, Files.write, Function.update_of_ne (Ne.symm tempMarkFile_ne_valueFile),
        Function.update_of_ne (Ne.symm markFile_ne_valueFile),
        Function.update_of_ne (Ne.symm tempMarkFile_ne_valueFile)]
  have hmarks : (s.finishOnce env key markerPreexisting).invocationMarks =
      insert key s.invocationMarks := if_pos hbypass
  refine ⟨fun k hk => ?_, fun k hk => h.unwritten k hk, fun k => ?_, fun k hk => ?_⟩
  · exact (hvalue k).trans (h.written k hk)
  · rw [Invocation.record_marks, hmarks, Finset.mem_insert, h.succeeded, Succeeded, Succeeded,
      Invocation.record_log, List.mem_cons, Event.once.injEq]
    simp [Invocation.finishOnce]
  · rw [Invocation.record_marks, hmarks, Finset.mem_insert] at hk
    exact finishOnce_markFile hmarker (hk.imp_right (h.marked k))

/-- `once` calls back unless a callback for the key has succeeded. -/
theorem Shadowed.enterOnce (hbypass : env.onceReplayBypass = true) (h : Shadowed env s)
    (locks : List String) (key : String) :
    s.enterOnce env locks key =
      if env.sagaRecovery = false then .refused (.message "once requires saga_recovery capability")
      else match checkKey key with
        | .error e => .refused e
        | .ok key =>
          if key ∈ locks then .blocked
          else if key ∈ s.invocationMarks then .skipped
          else .entered (s.files (markFile env.host.layout key)).isSome := by
  rw [Invocation.enterOnce]
  cases hsaga : env.sagaRecovery with
  | false => rfl
  | true =>
    cases hcheck : checkKey key with
    | error e => rfl
    | ok key' =>
      obtain rfl := checkKey_self hcheck
      simp only [Bool.not_true, Bool.false_eq_true, if_false, reduceCtorEq, hbypass, Bool.true_and]
      split
      · rfl
      · by_cases hmark : key' ∈ s.invocationMarks
        · simp [hmark, h.marked key' hmark]
        · simp [hmark]

/-! ## Runs -/

/-- Both functions know that the invocation is a replay. -/
structure Registration.Replayed (env : Registration) : Prop where
  cache : env.cacheReplayBypass = true
  once : env.onceReplayBypass = true

/-- **What a run preserves**: the files are as the sets say, all calls returned what they should, no
marker is gone, and no callback has succeeded for a key whose lock was held. -/
structure RunOk (env : Registration) (locks : List String) (s r : Invocation) : Prop where
  shadowed : Shadowed env r
  coherent : Coherent env r.log
  markers : ∀ key, (s.files (markFile env.host.layout key)).isSome = true →
    (r.files (markFile env.host.layout key)).isSome = true
  locked : ∀ key ∈ locks, Succeeded key r.log → Succeeded key s.log

theorem RunOk.trans {locks : List String} {t r : Invocation} (h : RunOk env locks s t)
    (h' : RunOk env locks t r) : RunOk env locks s r where
  shadowed := h'.shadowed
  coherent := h'.coherent
  markers key hkey := h'.markers key (h.markers key hkey)
  locked key hkey hsucceeded := h.locked key hkey (h'.locked key hkey hsucceeded)

theorem RunOk.refl (locks : List String) (h : Shadowed env s) (hc : Coherent env s.log) :
    RunOk env locks s s := ⟨h, hc, fun _ hkey => hkey, fun _ _ hsucceeded => hsucceeded⟩

/-- Logging something that is not a success. -/
theorem RunOk.record {locks : List String} (h : Shadowed env s) (hc : Coherent env s.log) {event : Event}
    (hremaining : ∀ key, remaining env.host.product key (event :: s.log) =
      remaining env.host.product key s.log)
    (hsucceeded : ∀ key, event ≠ .once key true (.ok true)) (hexpected : Expected env s.log event) :
    RunOk env locks s (s.record event) where
  shadowed := h.record event hremaining hsucceeded
  coherent := ⟨hexpected, hc⟩
  markers _ hkey := hkey
  locked _ _ hkey := (succeeded_cons hsucceeded).1 hkey

/-- What `cache_set` returns and logs. -/
theorem cacheSet_eq (env : Registration) (s : Invocation) (key : String) (value : Bytes)
    (ttlSeconds : Option (Option ℚ)) :
    (s.cacheSet env key value ttlSeconds).2 =
        ((checkKey key).bind fun _ => (parseTtl env.host.product ttlSeconds).map fun _ => ()) ∧
      (s.cacheSet env key value ttlSeconds).1.calls = s.calls + 1 ∧
      (s.cacheSet env key value ttlSeconds).1.log =
        .cacheSet (env.clock s.calls) key value ttlSeconds (s.cacheSet env key value ttlSeconds).2 ::
          s.log := by
  rw [Invocation.cacheSet, Scratch.cacheSet]
  cases checkKey key with
  | error e => exact ⟨rfl, rfl, rfl⟩
  | ok key' =>
    cases parseTtl env.host.product ttlSeconds with
    | error e => exact ⟨rfl, rfl, rfl⟩
    | ok ttl => exact ⟨rfl, rfl, rfl⟩

/-- What `cache_expire` returns and logs. -/
theorem cacheExpire_eq (env : Registration) (s : Invocation) (key : String) :
    (s.cacheExpire env key).2 = (checkKey key).map (fun _ => ()) ∧
      (s.cacheExpire env key).1.calls = s.calls + 1 ∧
      (s.cacheExpire env key).1.log = .cacheExpire key (s.cacheExpire env key).2 :: s.log := by
  rw [Invocation.cacheExpire, Scratch.cacheExpire]
  cases checkKey key with
  | error e => exact ⟨rfl, rfl, rfl⟩
  | ok key' => exact ⟨rfl, rfl, rfl⟩

theorem RunOk.cacheSet (henv : env.Replayed) {locks : List String} (h : Shadowed env s)
    (hc : Coherent env s.log) (key : String) (value : Bytes) (ttlSeconds : Option (Option ℚ)) :
    RunOk env locks s (s.cacheSet env key value ttlSeconds).1 := by
  obtain ⟨_, _, hlog⟩ := cacheSet_eq env s key value ttlSeconds
  refine ⟨h.cacheSet henv.cache key value ttlSeconds, ?_, fun k hk => ?_, fun k _ hk => ?_⟩
  · rw [hlog]
    exact ⟨trivial, hc⟩
  · rwa [cacheSet_markFile]
  · rw [hlog] at hk
    exact (succeeded_cons fun _ => Event.noConfusion).1 hk

theorem RunOk.cacheExpire (henv : env.Replayed) {locks : List String} (h : Shadowed env s)
    (hc : Coherent env s.log) (key : String) : RunOk env locks s (s.cacheExpire env key).1 := by
  obtain ⟨_, _, hlog⟩ := cacheExpire_eq env s key
  refine ⟨h.cacheExpire henv.cache key, ?_, fun k hk => ?_, fun k _ hk => ?_⟩
  · rw [hlog]
    exact ⟨trivial, hc⟩
  · rwa [cacheExpire_markFile]
  · rw [hlog] at hk
    exact (succeeded_cons fun _ => Event.noConfusion).1 hk

/-- What `cache_get` returns and logs. -/
theorem Shadowed.cacheGet_eq (henv : env.Replayed) (h : Shadowed env s) (key : String) :
    (s.cacheGet env key).2 = (checkKey key).map (fun _ =>
        (remaining env.host.product key s.log).bind (Held.unexpired (env.clock s.calls))) ∧
      (s.cacheGet env key).1.calls = s.calls + 1 ∧
      (s.cacheGet env key).1.log =
        .cacheGet (env.clock s.calls) key (s.cacheGet env key).2 :: s.log := by
  rw [Invocation.cacheGet]
  cases hcheck : checkKey key with
  | error e =>
    rw [lookup_error henv.cache hcheck]
    exact ⟨rfl, rfl, rfl⟩
  | ok key' =>
    obtain rfl := checkKey_self hcheck
    obtain ⟨files, hlookup, _, _⟩ := h.lookup henv.cache hcheck
    rw [hlookup]
    exact ⟨rfl, rfl, rfl⟩

theorem RunOk.cacheGet (henv : env.Replayed) {locks : List String} (h : Shadowed env s)
    (hc : Coherent env s.log) (key : String) : RunOk env locks s (s.cacheGet env key).1 := by
  obtain ⟨hreply, _, hlog⟩ := h.cacheGet_eq henv key
  refine ⟨h.cacheGet henv.cache key, ?_, fun k hk => ?_, fun k _ hk => ?_⟩
  · rw [hlog, hreply]
    refine ⟨⟨rfl, fun hclock => ?_⟩, hc⟩
    rw [remaining_bind_unexpired s.log hclock]
  · rwa [h.cacheGet_markFile henv.cache]
  · rw [hlog] at hk
    exact (succeeded_cons fun _ => Event.noConfusion).1 hk

/-- What `once` finds, in four cases. -/
theorem Shadowed.enterOnce_cases (henv : env.Replayed) (h : Shadowed env s) (locks : List String)
    (key : String) :
    (∃ e, s.enterOnce env locks key = .refused e ∧
      ¬ (env.sagaRecovery = true ∧ checkKey key = .ok key)) ∨
    s.enterOnce env locks key = .blocked ∨
    (s.enterOnce env locks key = .skipped ∧ Succeeded key s.log) ∨
    (s.enterOnce env locks key = .entered (s.files (markFile env.host.layout key)).isSome ∧
      key ∉ locks ∧ ¬ Succeeded key s.log) := by
  rw [h.enterOnce henv.once, ← h.succeeded]
  cases hsaga : env.sagaRecovery with
  | false => exact Or.inl ⟨_, rfl, nofun⟩
  | true =>
    cases hcheck : checkKey key with
    | error e => exact Or.inl ⟨e, rfl, nofun⟩
    | ok key' =>
      obtain rfl := checkKey_self hcheck
      by_cases hlocks : key' ∈ locks
      · simp [hlocks]
      · by_cases hmark : key' ∈ s.invocationMarks
        · simp [hlocks, hmark]
        · simp [hlocks, hmark]

section Callback

variable {locks : List String} {t : Invocation}

/-- What a callback has done, to those outside. -/
theorem RunOk.outer (h : RunOk env (key :: locks) (s.record (.started key)) t) :
    RunOk env locks s t where
  shadowed := h.shadowed
  coherent := h.coherent
  markers := h.markers
  locked k hk hsucceeded := (succeeded_cons fun _ => Event.noConfusion).1
    (h.locked k (List.mem_cons_of_mem key hk) hsucceeded)

/-- No other callback for a key succeeds while one is running. -/
theorem RunOk.not_succeeded (h : RunOk env (key :: locks) (s.record (.started key)) t)
    (hnot : ¬ Succeeded key s.log) : ¬ Succeeded key t.log := by
  intro hsucceeded
  have hstarted := h.locked key List.mem_cons_self hsucceeded
  exact hnot ((succeeded_cons fun _ => Event.noConfusion).1 hstarted)

/-- A callback has failed. -/
theorem RunOk.fail (h : RunOk env (key :: locks) (s.record (.started key)) t)
    (hnot : ¬ Succeeded key s.log) (e : LuaError) :
    RunOk env locks s (t.record (.once key true (.error e))) := by
  have hexpected : Expected env t.log (.once key true (.error e)) :=
    fun _ _ => ⟨by simpa using h.not_succeeded hnot, nofun, nofun⟩
  exact h.outer.trans (.record h.shadowed h.coherent (fun _ => rfl) nofun hexpected)

/-- A callback has succeeded, and `once` marks its key. -/
theorem RunOk.finish (henv : env.Replayed)
    (h : RunOk env (key :: locks) (s.record (.started key)) t) (hnot : ¬ Succeeded key s.log)
    (hkey : key ∉ locks) :
    RunOk env locks s ((t.finishOnce env key (s.files (markFile env.host.layout key)).isSome).record
      (.once key true (.ok true))) := by
  have hmarker := h.markers key
  have hexpected : Expected env t.log (.once key true (.ok true)) :=
    fun _ _ => ⟨by simpa using h.not_succeeded hnot, nofun, nofun⟩
  refine h.outer.trans ⟨h.shadowed.finishOnce henv.once key hmarker, ⟨hexpected, h.coherent⟩,
    fun k hk => finishOnce_markFile hmarker (Or.inr hk), fun k hk hsucceeded => ?_⟩
  rcases List.mem_cons.1 hsucceeded with heq | hmem
  · cases heq
    exact absurd hk hkey
  · exact hmem

end Callback

/-- **Every run of a script keeps the sets and the files together.** -/
theorem Script.run_ok (henv : env.Replayed) (script : Script) (locks : List String) (s : Invocation)
    (h : Shadowed env s) (hc : Coherent env s.log) : RunOk env locks s (script.run env locks s).1 := by
  induction script generalizing locks s with
  | done outcome => exact .refl locks h hc
  | cacheSet key value ttlSeconds next ih =>
    have hstep : RunOk env locks s _ := RunOk.cacheSet henv h hc key value ttlSeconds
    exact hstep.trans (ih _ locks _ hstep.shadowed hstep.coherent)
  | cacheGet key next ih =>
    have hstep : RunOk env locks s _ := RunOk.cacheGet henv h hc key
    exact hstep.trans (ih _ locks _ hstep.shadowed hstep.coherent)
  | cacheExpire key next ih =>
    have hstep : RunOk env locks s _ := RunOk.cacheExpire henv h hc key
    exact hstep.trans (ih _ locks _ hstep.shadowed hstep.coherent)
  | once key callback next ihcallback ihnext =>
    rw [Script.run]
    rcases h.enterOnce_cases henv locks key with
      ⟨e, hentry, hrefused⟩ | hentry | ⟨hentry, hsucceeded⟩ | ⟨hentry, hlocks, hnot⟩
    · rw [hentry]
      have hstep : RunOk env locks s (s.record (.once key false (.error e))) :=
        .record h hc (fun _ => rfl) nofun fun hsaga hkey => absurd ⟨hsaga, hkey⟩ hrefused
      exact hstep.trans (ihnext _ locks _ hstep.shadowed hstep.coherent)
    · rw [hentry]
      exact .refl locks h hc
    · rw [hentry]
      have hstep : RunOk env locks s (s.record (.once key false (.ok false))) :=
        .record h hc (fun _ => rfl) nofun fun _ _ => ⟨by simpa using hsucceeded, fun _ => rfl, nofun⟩
      exact hstep.trans (ihnext _ locks _ hstep.shadowed hstep.coherent)
    · rw [hentry]
      have hstart : RunOk env (key :: locks) s (s.record (.started key)) :=
        .record h hc (fun _ => rfl) nofun hnot
      have hcallback := ihcallback (key :: locks) _ hstart.shadowed hstart.coherent
      simp only
      cases hrun : callback.run env (key :: locks) (s.record (.started key)) with
      | mk t outcome =>
        rw [hrun] at hcallback
        match outcome with
        | none => exact hcallback.outer
        | some (.error e) =>
          have hstep := hcallback.fail hnot e
          exact hstep.trans (ihnext _ locks _ hstep.shadowed hstep.coherent)
        | some (.ok ()) =>
          have hstep := hcallback.finish henv hnot hlocks
          exact hstep.trans (ihnext _ locks _ hstep.shadowed hstep.coherent)

/-! ## Two runs -/

/-- Two invocations that have done the same, whatever is in their files. -/
structure Twins (env : Registration) (s s' : Invocation) : Prop where
  left : Shadowed env s
  right : Shadowed env s'
  coherent : Coherent env s.log
  log : s.log = s'.log
  calls : s.calls = s'.calls

theorem Twins.marks (h : Twins env s s') : s.invocationMarks = s'.invocationMarks := by
  ext key
  rw [h.left.succeeded, h.right.succeeded, h.log]

/-- Two results that nobody can tell apart. -/
structure Same (env : Registration) {α : Type} (r r' : Invocation × α) : Prop where
  twins : Twins env r.1 r'.1
  reply : r.2 = r'.2

/-- Twins that log the same are twins. -/
theorem Twins.record (h : Twins env s s') {r r' : Invocation} (hleft : RunOk env [] s r)
    (hright : Shadowed env r') {event : Event} (hlog : r.log = event :: s.log)
    (hlog' : r'.log = event :: s'.log) (hcalls : r.calls = s.calls + 1)
    (hcalls' : r'.calls = s'.calls + 1) : Twins env r r' where
  left := hleft.shadowed
  right := hright
  coherent := hleft.coherent
  log := by rw [hlog, hlog', h.log]
  calls := by rw [hcalls, hcalls', h.calls]

theorem Twins.cacheGet (henv : env.Replayed) (h : Twins env s s') (key : String) :
    Same env (s.cacheGet env key) (s'.cacheGet env key) := by
  obtain ⟨hreply, hcalls, hlog⟩ := h.left.cacheGet_eq henv key
  obtain ⟨hreply', hcalls', hlog'⟩ := h.right.cacheGet_eq henv key
  have hsame : (s.cacheGet env key).2 = (s'.cacheGet env key).2 := by
    rw [hreply, hreply', h.log, h.calls]
  rw [← hsame, ← h.calls] at hlog'
  exact ⟨h.record (.cacheGet henv h.left h.coherent key) (h.right.cacheGet henv.cache key) hlog hlog'
    hcalls hcalls', hsame⟩

theorem Twins.cacheSet (henv : env.Replayed) (h : Twins env s s') (key : String) (value : Bytes)
    (ttlSeconds : Option (Option ℚ)) :
    Same env (s.cacheSet env key value ttlSeconds) (s'.cacheSet env key value ttlSeconds) := by
  obtain ⟨hreply, hcalls, hlog⟩ := cacheSet_eq env s key value ttlSeconds
  obtain ⟨hreply', hcalls', hlog'⟩ := cacheSet_eq env s' key value ttlSeconds
  have hsame := hreply.trans hreply'.symm
  rw [← hsame, ← h.calls] at hlog'
  exact ⟨h.record (.cacheSet henv h.left h.coherent key value ttlSeconds)
    (h.right.cacheSet henv.cache key value ttlSeconds) hlog hlog' hcalls hcalls', hsame⟩

theorem Twins.cacheExpire (henv : env.Replayed) (h : Twins env s s') (key : String) :
    Same env (s.cacheExpire env key) (s'.cacheExpire env key) := by
  obtain ⟨hreply, hcalls, hlog⟩ := cacheExpire_eq env s key
  obtain ⟨hreply', hcalls', hlog'⟩ := cacheExpire_eq env s' key
  have hsame := hreply.trans hreply'.symm
  rw [← hsame] at hlog'
  exact ⟨h.record (.cacheExpire henv h.left h.coherent key) (h.right.cacheExpire henv.cache key) hlog
    hlog' hcalls hcalls', hsame⟩

/-- Twins log something that is not a success. -/
theorem Twins.logged (h : Twins env s s') {event : Event}
    (hremaining : ∀ key log, remaining env.host.product key (event :: log) =
      remaining env.host.product key log)
    (hsucceeded : ∀ key, event ≠ .once key true (.ok true)) (hexpected : Expected env s.log event) :
    Twins env (s.record event) (s'.record event) :=
  h.record (.record h.left h.coherent (fun key => hremaining key s.log) hsucceeded hexpected)
    (h.right.record event (fun key => hremaining key s'.log) hsucceeded) rfl rfl rfl rfl

/-- Twins find the same before `once` calls back, but for the marker. -/
theorem Twins.enterOnce (henv : env.Replayed) (h : Twins env s s') (locks : List String)
    (key : String) : s'.enterOnce env locks key = match s.enterOnce env locks key with
      | .entered _ => .entered (s'.files (markFile env.host.layout key)).isSome
      | entry => entry := by
  rw [h.left.enterOnce henv.once, h.right.enterOnce henv.once, h.marks]
  cases hsaga : env.sagaRecovery with
  | false => rfl
  | true =>
    cases hcheck : checkKey key with
    | error e => rfl
    | ok key' =>
      obtain rfl := checkKey_self hcheck
      by_cases hlocks : key' ∈ locks
      · simp [hlocks]
      · by_cases hmark : key' ∈ s'.invocationMarks
        · simp [hlocks, hmark]
        · simp [hlocks, hmark]

/-- **Two runs of a script cannot be told apart.** -/
theorem Twins.run (henv : env.Replayed) (script : Script) (locks : List String) {s s' : Invocation}
    (h : Twins env s s') : Same env (script.run env locks s) (script.run env locks s') := by
  induction script generalizing locks s s' with
  | done outcome => exact ⟨h, rfl⟩
  | cacheSet key value ttlSeconds next ih =>
    have hstep := h.cacheSet henv key value ttlSeconds
    rw [Script.run, Script.run, ← hstep.reply]
    exact ih _ locks hstep.twins
  | cacheGet key next ih =>
    have hstep := h.cacheGet henv key
    rw [Script.run, Script.run, ← hstep.reply]
    exact ih _ locks hstep.twins
  | cacheExpire key next ih =>
    have hstep := h.cacheExpire henv key
    rw [Script.run, Script.run, ← hstep.reply]
    exact ih _ locks hstep.twins
  | once key callback next ihcallback ihnext =>
    rw [Script.run, Script.run, h.enterOnce henv]
    rcases h.left.enterOnce_cases henv locks key with
      ⟨e, hentry, hrefused⟩ | hentry | ⟨hentry, hsucceeded⟩ | ⟨hentry, hlocks, hnot⟩
    · rw [hentry]
      refine ihnext _ locks (h.logged (fun _ _ => rfl) nofun fun hsaga hkey => ?_)
      exact absurd ⟨hsaga, hkey⟩ hrefused
    · rw [hentry]
      exact ⟨h, rfl⟩
    · rw [hentry]
      refine ihnext _ locks (h.logged (fun _ _ => rfl) nofun fun _ _ => ?_)
      exact ⟨by simpa using hsucceeded, fun _ => rfl, nofun⟩
    · have hstart : Twins env (s.record (.started key)) (s'.record (.started key)) :=
        h.logged (fun _ _ => rfl) nofun hnot
      have hnot' : ¬ Succeeded key s'.log := h.log ▸ hnot
      have hrun := callback.run_ok henv (key :: locks) _ hstart.left hstart.coherent
      have hrun' := callback.run_ok henv (key :: locks) _ hstart.right (hstart.log ▸ hstart.coherent)
      have hsame := ihcallback (key :: locks) hstart
      rw [hentry]
      simp only
      revert hrun hrun' hsame
      generalize callback.run env (key :: locks) (s.record (.started key)) = r
      generalize callback.run env (key :: locks) (s'.record (.started key)) = r'
      obtain ⟨t, outcome⟩ := r
      obtain ⟨t', outcome'⟩ := r'
      rintro hrun hrun' ⟨htwins, rfl⟩
      match outcome with
      | none => exact ⟨htwins, rfl⟩
      | some (.error e) =>
        have hfail := hrun.fail hnot e
        have hfail' := hrun'.fail hnot' e
        exact ihnext _ locks ⟨hfail.shadowed, hfail'.shadowed, hfail.coherent,
          congrArg (List.cons _) htwins.log, congrArg Nat.succ htwins.calls⟩
      | some (.ok ()) =>
        have hfinish := hrun.finish henv hnot hlocks
        have hfinish' := hrun'.finish henv hnot' hlocks
        exact ihnext _ locks ⟨hfinish.shadowed, hfinish'.shadowed, hfinish.coherent,
          congrArg (List.cons _) htwins.log, congrArg Nat.succ htwins.calls⟩

end Invariant

theorem shadowed_init (env : Registration) (files : Files) : Shadowed env { files := files } where
  written _ hkey := absurd hkey (Finset.notMem_empty _)
  unwritten _ _ := rfl
  succeeded _ := by simp [Succeeded]
  marked _ hkey := absurd hkey (Finset.notMem_empty _)

/-- **A replayed invocation does not see what was in the files.**  With any two contents of the files,
the same clock and the same script: all calls return the same, both runs return the same or both wait
for a lock of their own, and every call returns what it should after the calls before it. -/
theorem replay_isolated {env : Registration} (henv : env.Replayed) (script : Script)
    (files files' : Files) :
    (script.run env [] { files := files }).2 = (script.run env [] { files := files' }).2 ∧
      (script.run env [] { files := files }).1.log = (script.run env [] { files := files' }).1.log ∧
      ∀ after event before, (script.run env [] { files := files }).1.log = after ++ event :: before →
        Expected env before event := by
  have htwins : Twins env { files := files } { files := files' } :=
    ⟨shadowed_init env files, shadowed_init env files', trivial, rfl, rfl⟩
  have hsame := htwins.run henv script []
  refine ⟨hsame.reply, hsame.twins.log, fun after event before hlog => ?_⟩
  exact hsame.twins.coherent.expected hlog

/-! ## What is not so -/

theorem parent_notMem_sampleRoot : ".." ∉ ["repo", ".fkst"] := by decide

/-- A host. -/
def sampleHost : Host :=
  ⟨⟨["repo", ".fkst"], parent_notMem_sampleRoot⟩, fun seconds => some (seconds * 10 ^ 9), fun n => n.repr⟩

/-- The clock goes back between the second call and the third. -/
def sampleEnv : Registration where
  host := sampleHost
  clock n := if n = 1 then 10 else if n = 2 then 3 else 0
  markedAt _ := "1970-01-01T00:00:00Z"
  sagaRecovery := true
  cacheReplayBypass := true
  onceReplayBypass := true

/-- Set a value for five nanoseconds and look twice; then try twice to run a callback that fails and
one that does not. -/
def sampleScript : Script :=
  .cacheSet "a" [1] (some (some (5 / 10 ^ 9))) fun _ =>
    .cacheGet "a" fun _ => .cacheGet "a" fun _ =>
      .once "k" (.done (.error (.message "no"))) fun _ =>
        .once "k" (.done (.ok ())) fun _ => .once "k" (.done (.ok ())) fun _ => .done (.ok ())

/-- A file system that has something in every file. -/
def staleFiles : Files := fun _ => some (encodeEntry [9] none)

theorem replay_isolated_stale :
    (sampleScript.run sampleEnv [] { files := fun _ => none }).2 =
        (sampleScript.run sampleEnv [] { files := staleFiles }).2 ∧
      (sampleScript.run sampleEnv [] { files := fun _ => none }).1.log =
        (sampleScript.run sampleEnv [] { files := staleFiles }).1.log ∧
      ∀ after event before,
        (sampleScript.run sampleEnv [] { files := fun _ => none }).1.log = after ++ event :: before →
          Expected sampleEnv before event :=
  replay_isolated ⟨rfl, rfl⟩ sampleScript (fun _ => none) staleFiles

theorem log_sampleScript : (sampleScript.run sampleEnv [] { files := fun _ => none }).1.log =
    [.once "k" false (.ok false), .once "k" true (.ok true), .started "k",
      .once "k" true (.error (.message "no")), .started "k", .cacheGet 3 "a" (.ok none),
      .cacheGet 10 "a" (.ok none), .cacheSet 0 "a" [1] (some (some (5 / 10 ^ 9))) (.ok ())] := by
  decide +kernel

/-- The value that was set at 0 for five nanoseconds is gone at 3, because the clock said 10 in
between and the value was removed then. -/
theorem replay_clock_back :
    ¬ ∀ after now key reply before,
      (sampleScript.run sampleEnv [] { files := fun _ => none }).1.log =
        after ++ .cacheGet now key reply :: before →
      reply = (checkKey key).map fun _ =>
        (latest sampleEnv.host.product key before).bind (Held.unexpired now) := by
  intro h
  have hreply := h [.once "k" false (.ok false), .once "k" true (.ok true), .started "k",
    .once "k" true (.error (.message "no")), .started "k"] 3 "a" (.ok none) _ log_sampleScript
  exact absurd hreply (by decide +kernel)

end Fkst.Scratch
