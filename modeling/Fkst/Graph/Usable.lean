import Fkst.Graph.Validation

/-!
# The durations of an accepted graph

Validation looks at the last character of a stall window, computes the durations of a retry table and
does not look at the interval of a cron raiser at all; what starts the consumers and the raisers reads
all of them with `parse_duration` and expects no failure.

`usable_iff` says of which graphs that is true: each duration has to be written as a positive number
of seconds, minutes or hours that fits into 64 bits.
-/

set_option autoImplicit false

namespace Fkst.Graph

open Lib
open Delivery (RetryPolicy)

/-! ## Texts -/

/-- A number, and the seconds that its unit stands for; blanks around them do not count. -/
def Written (raw : String) (n : UInt64) (seconds : ℕ) : Prop :=
  ∃ digits unit, trim raw.toList = digits ++ [unit] ∧ parseU64 digits = some n ∧
    unitSeconds unit = some seconds

/-- What is written is a positive duration of 64 bits. -/
def Fits (raw : String) : Prop :=
  ∃ n seconds, Written raw n seconds ∧ 0 < n ∧ n.toNat * seconds < 2 ^ 64

/-- The duration is the one that is written, to the nanosecond. -/
def Exact (raw : String) (d : Duration) : Prop :=
  ∃ n seconds, Written raw n seconds ∧ d.asNanos = n.toNat * seconds * 1000000000

/-- `parse_duration` gives the duration that is written, or an error. -/
def ParsesWell (overflowChecks : Bool) (raw : String) : Prop :=
  match parseDuration overflowChecks raw with
  | .ok d => Exact raw d
  | .error e => e ≠ .panicked

/-- The last character is a byte, and a duration that is written there fits. -/
structure Readable (raw : String) : Prop where
  lastByte : ∀ c, (trim raw.toList).getLast? = some c → c.utf8Size = 1
  fits : ∀ n seconds, Written raw n seconds → n.toNat * seconds < 2 ^ 64

section Texts

variable {overflowChecks : Bool} {raw : String}

theorem Written.unique {n n' : UInt64} {seconds seconds' : ℕ} (h : Written raw n seconds)
    (h' : Written raw n' seconds') : n = n' ∧ seconds = seconds' := by
  obtain ⟨digits, unit, htrim, hn, hunit⟩ := h
  obtain ⟨digits', unit', htrim', hn', hunit'⟩ := h'
  obtain ⟨rfl, hlast⟩ := List.append_inj' (htrim.symm.trans htrim') rfl
  obtain rfl := List.singleton_inj.1 hlast
  exact ⟨Option.some.inj (hn.symm.trans hn'), Option.some.inj (hunit.symm.trans hunit')⟩

/-- A text that does not end within a character is a number and a unit to `parse_duration`. -/
theorem parseDuration_of_concat {digits : List Char} {unit : Char}
    (htrim : trim raw.toList = digits ++ [unit]) (hsize : unit.utf8Size = 1) :
    parseDuration overflowChecks raw =
      match parseU64 digits with
      | none => .error (.message ("not a number: '" ++ String.ofList digits ++ "'"))
      | some n => (secondsOf overflowChecks n unit).map Duration.fromSecs := by
  rw [parseDuration, htrim]
  simp only [List.getLast?_append, List.getLast?_singleton, Option.some_or, List.dropLast_concat]
  exact if_neg (not_not.2 hsize)

theorem secondsOf_of_none {unit : Char} (h : unitSeconds unit = none) (n : UInt64) :
    ∃ text, secondsOf overflowChecks n unit = .error (.message text) := by
  simp only [unitSeconds] at h
  split at h
  · cases h
  · cases h
  · cases h
  · rw [secondsOf]
    · exact ⟨_, rfl⟩
    all_goals assumption

theorem mulU64_error {a b : UInt64} {e : DurationError} (h : mulU64 overflowChecks a b = .error e) :
    e = .panicked := by
  rw [mulU64] at h
  split at h
  · exact (Except.error.inj h).symm
  · cases h

/-- With a known unit nothing but a panic goes wrong. -/
theorem secondsOf_error {unit : Char} {seconds : ℕ} (hunit : unitSeconds unit = some seconds)
    {n : UInt64} {e : DurationError} (h : secondsOf overflowChecks n unit = .error e) :
    e = .panicked := by
  rcases unitSeconds_eq_some hunit with ⟨rfl, rfl⟩ | ⟨rfl, rfl⟩ | ⟨rfl, rfl⟩
  · cases h
  · exact mulU64_error h
  · exact mulU64_error h

/-- What is written and fits is read. -/
theorem parseDuration_of_fits {n : UInt64} {seconds : ℕ} (h : Written raw n seconds)
    (hfits : n.toNat * seconds < 2 ^ 64) : ∃ d, parseDuration overflowChecks raw = .ok d ∧
      d.asNanos = n.toNat * seconds * 1000000000 := by
  obtain ⟨digits, unit, htrim, hn, hunit⟩ := h
  refine ⟨Duration.fromSecs (UInt64.ofNat (n.toNat * seconds)), ?_, ?_⟩
  · rw [parseDuration_of_concat htrim (unit_of_unitSeconds hunit).1, hn]
    simp only [secondsOf_of_unitSeconds hunit hfits, Except.map]
  · rw [Duration.asNanos_fromSecs, UInt64.toNat_ofNat_of_lt' hfits]

/-- A duration that is exact fits: `parse_duration` has no more than 64 bits for the seconds. -/
theorem lt_of_exact {d : Duration} {n : UInt64} {seconds : ℕ} (hwritten : Written raw n seconds)
    (hd : parseDuration overflowChecks raw = .ok d) (hexact : Exact raw d) :
    n.toNat * seconds < 2 ^ 64 := by
  obtain ⟨n', seconds', hwritten', hd'⟩ := hexact
  obtain ⟨rfl, rfl⟩ := hwritten.unique hwritten'
  obtain ⟨m, hm⟩ := asMillis_of_parseDuration hd
  rw [Duration.asMillis_eq, hd'] at hm
  have := m.toNat_lt
  omega

/-- Where a number and a known unit stand, `parse_duration` does well if and only if they fit. -/
theorem parsesWell_of_written {n : UInt64} {seconds : ℕ} (h : Written raw n seconds) :
    ParsesWell overflowChecks raw ↔ n.toNat * seconds < 2 ^ 64 := by
  constructor
  · intro hwell
    cases hparse : parseDuration overflowChecks raw with
    | ok d =>
      rw [ParsesWell, hparse] at hwell
      exact lt_of_exact h hparse hwell
    | error e =>
      rw [ParsesWell, hparse] at hwell
      obtain ⟨digits, unit, htrim, hn, hunit⟩ := h
      rw [parseDuration_of_concat htrim (unit_of_unitSeconds hunit).1, hn] at hparse
      cases hseconds : secondsOf overflowChecks n unit with
      | ok k =>
        simp only [hseconds, Except.map] at hparse
        cases hparse
      | error e' =>
        simp only [hseconds, Except.map] at hparse
        obtain rfl := Except.error.inj hparse
        exact absurd (secondsOf_error hunit hseconds) hwell
  · intro hfits
    obtain ⟨d, hd, hnanos⟩ : ∃ d, parseDuration overflowChecks raw = .ok d ∧ _ :=
      parseDuration_of_fits h hfits
    rw [ParsesWell, hd]
    exact ⟨n, seconds, h, hnanos⟩

/-- Where they do not, it gives an error, or panics if it would cut a character in two. -/
theorem parsesWell_of_not_written (h : ∀ n seconds, ¬ Written raw n seconds) :
    ParsesWell overflowChecks raw ↔ ∀ c, (trim raw.toList).getLast? = some c → c.utf8Size = 1 := by
  rcases List.eq_nil_or_concat (trim raw.toList) with hnil | ⟨digits, unit, htrim⟩
  · have hparse : parseDuration overflowChecks raw = .error (.message "empty duration") := by
      rw [parseDuration, hnil]
      rfl
    rw [ParsesWell, hparse, hnil]
    simp
  · rw [List.concat_eq_append] at htrim
    have hlast : (trim raw.toList).getLast? = some unit := by rw [htrim]; simp
    have hbyte : (∀ c, (trim raw.toList).getLast? = some c → c.utf8Size = 1) ↔ unit.utf8Size = 1 := by
      rw [hlast]
      simp
    rw [hbyte]
    by_cases hsize : unit.utf8Size = 1
    · refine iff_of_true ?_ hsize
      rw [ParsesWell, parseDuration_of_concat htrim hsize]
      cases hn : parseU64 digits with
      | none => simp
      | some n =>
        cases hunit : unitSeconds unit with
        | none =>
          obtain ⟨text, htext⟩ : ∃ text, secondsOf overflowChecks n unit = .error (.message text) :=
            secondsOf_of_none hunit n
          simp [htext, Except.map]
        | some seconds => exact absurd ⟨digits, unit, htrim, hn, hunit⟩ (h n seconds)
    · have hparse : parseDuration overflowChecks raw = .error .panicked := by
        rw [parseDuration, htrim]
        simp [hsize]
      rw [ParsesWell, hparse]
      exact iff_of_false (fun hwell => hwell rfl) hsize

/-- **When `parse_duration` does well.** -/
theorem parsesWell_iff : ParsesWell overflowChecks raw ↔ Readable raw := by
  by_cases h : ∃ n seconds, Written raw n seconds
  · obtain ⟨n, seconds, h⟩ := h
    rw [parsesWell_of_written h]
    constructor
    · refine fun hfits => ⟨fun c hc => ?_, fun n' seconds' h' => ?_⟩
      · obtain ⟨digits, unit, htrim, hn, hunit⟩ := h
        rw [htrim, List.getLast?_concat] at hc
        obtain rfl := Option.some.inj hc
        exact (unit_of_unitSeconds hunit).1
      · obtain ⟨rfl, rfl⟩ := h.unique h'
        exact hfits
    · exact fun hreadable => hreadable.fits n seconds h
  · have h : ∀ n seconds, ¬ Written raw n seconds := fun n seconds hw => h ⟨n, seconds, hw⟩
    rw [parsesWell_of_not_written h]
    exact ⟨fun hbyte => ⟨hbyte, fun n seconds hw => absurd hw (h n seconds)⟩, Readable.lastByte⟩

end Texts

/-! ## Configurations -/

/-- A positive duration is read, and it is the one that is written. -/
def Usable (overflowChecks : Bool) (raw : String) (d : Duration) : Prop :=
  parseDuration overflowChecks raw = .ok d ∧ 0 < d.asNanos ∧ Exact raw d

/-- Both durations that the task of `spawn_consumer` expects to be readable. -/
def consumerDurations (overflowChecks : Bool) (dept : DepartmentDecl) :
    Except DurationError (Duration × Option RetryPolicy) := do
  let stallWindow ← parseDuration overflowChecks dept.stallWindow
  match dept.retry with
  | none => return (stallWindow, none)
  | some decl =>
    let policy ← policyFromDecl overflowChecks decl
    return (stallWindow, some policy)

/-- The durations that a configuration declares. -/
inductive Config.Declares (cfg : Config) : String → Prop where
  | stallWindow {name : String} {dept : DepartmentDecl} (hdept : cfg.department[name]? = some dept) :
      Declares cfg dept.stallWindow
  | base {name : String} {dept : DepartmentDecl} {decl : RetryDecl}
      (hdept : cfg.department[name]? = some dept) (hdecl : dept.retry = some decl) :
      Declares cfg decl.base
  | cap {name : String} {dept : DepartmentDecl} {decl : RetryDecl}
      (hdept : cfg.department[name]? = some dept) (hdecl : dept.retry = some decl) :
      Declares cfg decl.cap
  | interval {name interval produces : String}
      (hraiser : cfg.raiser[name]? = some (.cron interval produces)) : Declares cfg interval

/-- **The durations of a configuration are usable.** -/
structure Config.DurationsUsable (overflowChecks : Bool) (cfg : Config) : Prop where
  declared : ∀ raw, cfg.Declares raw → ∃ d, Usable overflowChecks raw d
  /-- What the validator computed is what is read. -/
  computed : ∀ (name : String) (dept : DepartmentDecl) (decl : RetryDecl),
    cfg.department[name]? = some dept → dept.retry = some decl → ∀ raw ∈ [decl.base, decl.cap],
      ∃ d, parseDuration overflowChecks raw = .ok d ∧ parseDurationMillis raw = some d.asMillis
  expected : ∀ (name : String) (dept : DepartmentDecl), cfg.department[name]? = some dept →
    ∃ durations, consumerDurations overflowChecks dept = .ok durations

section Configurations

variable {overflowChecks : Bool} {raw : String}

theorem usable_iff_fits : (∃ d, Usable overflowChecks raw d) ↔ Fits raw := by
  constructor
  · rintro ⟨d, hd, hpos, hexact⟩
    obtain ⟨n, seconds, hwritten, hnanos⟩ := id hexact
    refine ⟨n, seconds, hwritten, UInt64.pos_iff_ne_zero.2 ?_, lt_of_exact hwritten hd hexact⟩
    rintro rfl
    simp [hnanos] at hpos
  · rintro ⟨n, seconds, hwritten, hpos, hfits⟩
    obtain ⟨d, hd, hnanos⟩ : ∃ d, parseDuration overflowChecks raw = .ok d ∧ _ :=
      parseDuration_of_fits hwritten hfits
    refine ⟨d, hd, ?_, n, seconds, hwritten, hnanos⟩
    obtain ⟨_, _, _, _, hunit⟩ := hwritten
    have := Nat.mul_pos (UInt64.lt_iff_toNat_lt.1 hpos) (unit_of_unitSeconds hunit).2.2
    omega

/-- What the validator computed is what is written, in milliseconds. -/
theorem millis_lt_of_fits {millis : ℕ} (hmillis : parseDurationMillis raw = some millis)
    (h : Fits raw) : millis < 2 ^ 64 * 1000 := by
  obtain ⟨digits, unit, n, seconds, hraw, hn, _, hunit, rfl⟩ := parseDurationMillis_eq_some hmillis
  obtain ⟨n', seconds', hwritten, _, hfits⟩ := h
  have htrim := trim_of_parts hraw hn hunit
  obtain ⟨digits', unit', htrim', hn', hunit'⟩ := hwritten
  obtain ⟨rfl, hsame⟩ := List.append_inj' (htrim.symm.trans htrim') rfl
  obtain rfl := List.singleton_inj.1 hsame
  obtain rfl := Option.some.inj (hunit.symm.trans hunit')
  rw [(parseU128_eq_some hn).2] at hn'
  split at hn'
  · rename_i hn64
    rw [← Option.some.inj hn', UInt64.toNat_ofNat_of_lt' hn64] at hfits
    rw [u128SaturatingMul, ← Nat.mul_assoc]
    omega
  · cases hn'

/-- A duration of an accepted retry table that fits is read as the validator computed it. -/
theorem computed_of_fits {name : String} {decl : RetryDecl} (haccepted : validateRetryDecl name decl = .ok ())
    (hraw : raw ∈ [decl.base, decl.cap]) (h : Fits raw) :
    ∃ d, parseDuration overflowChecks raw = .ok d ∧ parseDurationMillis raw = some d.asMillis := by
  obtain ⟨base, cap, hbase, hcap, _⟩ := millis_of_validateRetryDecl haccepted
  obtain ⟨millis, hmillis⟩ : ∃ millis, parseDurationMillis raw = some millis := by
    simp only [List.mem_cons, List.not_mem_nil, or_false] at hraw
    rcases hraw with rfl | rfl
    · exact ⟨base, hbase⟩
    · exact ⟨cap, hcap⟩
  obtain ⟨d, hd, rfl⟩ : ∃ d, parseDuration overflowChecks raw = .ok d ∧ d.asMillis = millis :=
    (parseDuration_of_millis hmillis).2 (millis_lt_of_fits hmillis h)
  exact ⟨d, hd, hmillis⟩

/-- Where all durations of a department are read, nothing unexpected happens to its consumer. -/
theorem consumerDurations_of_declared {cfg : Config} {name : String} {dept : DepartmentDecl}
    (hdept : cfg.department[name]? = some dept)
    (h : ∀ raw, cfg.Declares raw → ∃ d, parseDuration overflowChecks raw = .ok d) :
    ∃ durations, consumerDurations overflowChecks dept = .ok durations := by
  obtain ⟨stallWindow, hstall⟩ := h _ (.stallWindow hdept)
  rw [consumerDurations, hstall]
  cases hdecl : dept.retry with
  | none => exact ⟨_, rfl⟩
  | some decl =>
    obtain ⟨base, hbase⟩ := h _ (.base hdept hdecl)
    obtain ⟨cap, hcap⟩ := h _ (.cap hdept hdecl)
    simp only [policyFromDecl, hbase, hcap]
    exact ⟨_, rfl⟩

/-- **Which accepted configurations have usable durations**, and of which texts `parse_duration`
makes what is written there. -/
theorem durationsUsable_iff {isFile : String → Bool} {cfg : Config} {projectRoot : String}
    {scope : ValidationScope} {warnings : List String} (overflowChecks : Bool)
    (h : validateWithScope isFile cfg projectRoot scope = .ok warnings) :
    (cfg.DurationsUsable overflowChecks ↔ ∀ raw, cfg.Declares raw → Fits raw) ∧
      ∀ raw, ParsesWell overflowChecks raw ↔ Readable raw := by
  refine ⟨⟨fun husable raw hraw => usable_iff_fits.1 (husable.declared raw hraw), fun hfits => ?_⟩,
    fun raw => parsesWell_iff⟩
  have husable : ∀ raw, cfg.Declares raw → ∃ d, Usable overflowChecks raw d :=
    fun raw hraw => usable_iff_fits.2 (hfits raw hraw)
  refine ⟨husable, fun name dept decl hdept hdecl raw hraw => ?_, fun name dept hdept => ?_⟩
  · have hdeclared : cfg.Declares raw := by
      simp only [List.mem_cons, List.not_mem_nil, or_false] at hraw
      rcases hraw with rfl | rfl
      · exact .base hdept hdecl
      · exact .cap hdept hdecl
    exact computed_of_fits (((accepted_of_ok h).department name dept hdept).retry decl hdecl) hraw
      (hfits raw hdeclared)
  · refine consumerDurations_of_declared hdept fun raw hraw => ?_
    obtain ⟨d, hd, _⟩ := husable raw hraw
    exact ⟨d, hd⟩

/-- One department that drains the queue of one raiser. -/
def oneDepartment (interval stallWindow : String) (retry : Option RetryDecl) : Config where
  queue := (∅ : Table String QueueDecl).insert "tick" ⟨64, false⟩
  raiser := (∅ : Table String RaiserDecl).insert "clock" (.cron interval "tick")
  department := (∅ : Table String DepartmentDecl).insert "jobs"
    ⟨"/repo/departments/jobs/main.lua", "/repo", "", ["tick"], [], [], [], stallWindow, false, retry⟩
  limits := ⟨1⟩

theorem declares_oneDepartment {interval stallWindow : String} {retry : Option RetryDecl}
    (h : (oneDepartment interval stallWindow retry).Declares raw) : raw = interval ∨ raw = stallWindow ∨
      ∃ decl, retry = some decl ∧ (raw = decl.base ∨ raw = decl.cap) := by
  have hdepartment : ∀ {name : String} {dept : DepartmentDecl},
      (oneDepartment interval stallWindow retry).department[name]? = some dept →
        dept.stallWindow = stallWindow ∧ dept.retry = retry := by
    intro name dept hdept
    rw [oneDepartment, Table.get_insert] at hdept
    split at hdept
    · obtain rfl := Option.some.inj hdept
      exact ⟨rfl, rfl⟩
    · simp at hdept
  cases h with
  | stallWindow hdept => exact Or.inr (Or.inl (hdepartment hdept).1)
  | base hdept hdecl => exact Or.inr (Or.inr ⟨_, (hdepartment hdept).2 ▸ hdecl, Or.inl rfl⟩)
  | cap hdept hdecl => exact Or.inr (Or.inr ⟨_, (hdepartment hdept).2 ▸ hdecl, Or.inr rfl⟩)
  | interval hraiser =>
    rw [oneDepartment, Table.get_insert] at hraiser
    split at hraiser
    · exact Or.inl (RaiserDecl.cron.inj (Option.some.inj hraiser)).1.symm
    · simp at hraiser

/-- A department with a retry table, and a raiser that fires every five minutes. -/
theorem durationsUsable_iff_steady :
    (oneDepartment "5m" " 30s" (some ⟨3, "1s", "2h"⟩)).DurationsUsable true := by
  have haccepted : validate (fun _ => true) (oneDepartment "5m" " 30s" (some ⟨3, "1s", "2h"⟩)) "/repo" =
      .ok [] := by decide +kernel
  have h5m : Written "5m" 5 60 := ⟨['5'], 'm', by decide +kernel, rfl, rfl⟩
  have h30s : Written " 30s" 30 1 := ⟨['3', '0'], 's', by decide +kernel, rfl, rfl⟩
  have h1s : Written "1s" 1 1 := ⟨['1'], 's', by decide +kernel, rfl, rfl⟩
  have h2h : Written "2h" 2 3600 := ⟨['2'], 'h', by decide +kernel, rfl, rfl⟩
  refine (durationsUsable_iff true haccepted).1.2 fun raw hraw => ?_
  rcases declares_oneDepartment hraw with rfl | rfl | ⟨decl, hdecl, hraw⟩
  · exact ⟨5, 60, h5m, by decide, by decide⟩
  · exact ⟨30, 1, h30s, by decide, by decide⟩
  · obtain rfl := Option.some.inj hdecl
    rcases hraw with rfl | rfl
    · exact ⟨1, 1, h1s, by decide, by decide⟩
    · exact ⟨2, 3600, h2h, by decide, by decide⟩

/-- A stall window has only to end like a duration, an interval not even that; and a text that ends
within a character makes `parse_duration` panic. -/
theorem not_durationsUsable_soons :
    validate (fun _ => true) (oneDepartment "0s" "soons" none) "/repo" = .ok [] ∧
      ∀ overflowChecks, ¬ (oneDepartment "0s" "soons" none).DurationsUsable overflowChecks ∧
        ¬ ParsesWell overflowChecks "5µ" := by
  refine ⟨by decide +kernel, fun overflowChecks => ⟨fun h => ?_, fun h => ?_⟩⟩
  · have hdept : (oneDepartment "0s" "soons" none).department["jobs"]? = some ⟨"/repo/departments/jobs/main.lua",
        "/repo", "", ["tick"], [], [], [], "soons", false, none⟩ := by
      rw [oneDepartment, Table.get_insert, if_pos rfl]
    obtain ⟨d, hd, _⟩ := h.declared _ (.stallWindow hdept)
    have hsoons : parseDuration overflowChecks "soons" = .error (.message "not a number: 'soon'") := by
      cases overflowChecks <;> decide +kernel
    rw [hsoons] at hd
    cases hd
  · have hpanic : parseDuration overflowChecks "5µ" = .error .panicked := by
      cases overflowChecks <;> decide +kernel
    rw [ParsesWell, hpanic] at h
    exact h rfl

end Configurations

end Fkst.Graph
