import Fkst.Consumer.Loop
import Fkst.Delivery.Indexes

/-!
# Admission and ownership

What a reliable consumer takes on, it can hold, and what it holds, it brings to an end: the map of
running deliveries never outgrows its bound, no delivery is executed twice at the same time, nothing
that was leased is forgotten, and an execution that comes back is settled under the lease it was
started with.

An *execution* is a handle and the record that was moved into its task.  `Loop.Ok` says which
executions there are and where they come from, `Keeps` what a function of the loop leaves alone.
-/

set_option autoImplicit false

namespace Fkst.Consumer

open Lib
open Delivery

/-! ## Own events -/

namespace Event

/-- Is this something the loop itself does? -/
def isOwn : Event → Bool
  | .happens _ _ => false
  | _ => true

/-- The records a lease has granted. -/
def grants : Event → List DeliveryRecord
  | .granted records => records
  | _ => []

/-- The execution that starts. -/
def starts : Event → Option (ℕ × DeliveryRecord)
  | .started _ handle record => some (handle, record)
  | _ => none

/-- The record that is handed to `retry_record`. -/
def hands : Event → Option DeliveryRecord
  | .handed record => some record
  | _ => none

/-- The execution that has come back. -/
def receives : Event → Option (ℕ × CompletedDelivery)
  | .received handle done => some (handle, done)
  | _ => none

/-- The operation that is called. -/
def calls : Event → Option Call
  | .call _ c => some c
  | _ => none

end Event

/-- The execution an entry of the map is for. -/
def RunningDelivery.execution (d : RunningDelivery) : ℕ × DeliveryRecord := (d.handle, d.ran)

namespace Loop

/-- What the loop itself has done in a step. -/
def own (s : Loop) : List Event := (s.moments.map Moment.event).filter Event.isOwn

/-- The execution that is in the map under an id. -/
def execution (s : Loop) (id : String) : Option (ℕ × DeliveryRecord) :=
  s.running[id]?.map RunningDelivery.execution

end Loop

namespace LoopStep

/-- What `lease_for_dept_excluding` has granted in a step. -/
def granted (e : LoopStep) : List DeliveryRecord := e.after.own.flatMap Event.grants

/-- The executions that were started in a step. -/
def started (e : LoopStep) : List (ℕ × DeliveryRecord) := e.after.own.filterMap Event.starts

/-- What was handed to `retry_record` in a step. -/
def handed (e : LoopStep) : List DeliveryRecord := e.after.own.filterMap Event.hands

/-- The executions that came back in a step. -/
def received (e : LoopStep) : List (ℕ × CompletedDelivery) := e.after.own.filterMap Event.receives

/-- The operations of the store that were called in a step. -/
def calls (e : LoopStep) : List Call := e.after.own.filterMap Event.calls

end LoopStep

/-! ## What is left alone -/

/-- The executions stay as they are, and `es` is what the loop does. -/
structure Keeps (es : List Event) (s s' : Loop) : Prop where
  execution : ∀ id, s'.execution id = s.execution id
  nextHandle : s'.nextHandle = s.nextHandle
  own : s'.own = s.own ++ es

namespace Keeps

variable {es es' : List Event} {s s' s'' : Loop}

theorem refl (s : Loop) : Keeps [] s s := ⟨fun _ => rfl, rfl, by simp⟩

theorem trans (h : Keeps es s s') (h' : Keeps es' s' s'') : Keeps (es ++ es') s s'' :=
  ⟨fun id => (h'.execution id).trans (h.execution id), h'.nextHandle.trans h.nextHandle, by
    rw [h'.own, h.own, List.append_assoc]⟩

theorem mem_running (h : Keeps es s s') (id : String) : id ∈ s'.running ↔ id ∈ s.running := by
  have hid := congrArg Option.isSome (h.execution id)
  simp only [Loop.execution, Option.isSome_map] at hid
  rw [← Std.ExtTreeMap.isSome_getElem?_iff_mem, ← Std.ExtTreeMap.isSome_getElem?_iff_mem, hid]

theorem size (h : Keeps es s s') : s'.running.size = s.running.size :=
  Table.size_eq_of_mem_iff h.mem_running

end Keeps

/-! ## The invariant -/

/-- An execution starts only when there is none of its delivery. -/
def Moment.StartsFresh (m : Moment) : Prop :=
  ∀ nowMs handle record, m.event = .started nowMs handle record → record.deliveryId ∉ m.running

namespace Loop

/-- The channel holds one message of each execution that has reported back and is still in the
map. -/
structure Wired (s : Loop) : Prop where
  world : s.world.Inv
  sent : ∀ m ∈ s.inbox, ∃ d, s.running[m.2.record.deliveryId]? = some d ∧ d.task ≠ .running ∧
    d.execution = (m.1, m.2.record)
  nodup : (s.inbox.map fun m => m.2.record.deliveryId).Nodup
  entry : ∀ (id : String) (d : RunningDelivery), s.running[id]? = some d → d.ran.deliveryId = id

/-- Every execution in the map was started once, with a record that was granted in the same step.
`log` is what the loop did in the steps before. -/
structure Booked (log : List (List Event)) (s : Loop) : Prop where
  backed : ∀ id x, s.execution id = some x → ∃ es ∈ log ++ [s.own],
    x ∈ es.filterMap Event.starts ∧ x.2 ∈ es.flatMap Event.grants
  handle : ∀ es ∈ log ++ [s.own], ∀ x ∈ es.filterMap Event.starts, x.1 < s.nextHandle ∧
    ∀ id y, s.execution id = some y → y.1 = x.1 → y = x

/-- The invariant of the loop. -/
structure Ok (cfg : Settings) (log : List (List Event)) (s : Loop) : Prop where
  wired : s.Wired
  booked : s.Booked log
  size : s.running.size ≤ cfg.maxInFlight
  fresh : ∀ m ∈ s.moments, m.StartsFresh

variable {cfg : Settings} {env : Env} {log : List (List Event)} {s s' : Loop} {es : List Event}

theorem Booked.keeps (h : s.Booked log) (hk : Keeps es s s') (hes : es.filterMap Event.starts = []) :
    s'.Booked log := by
  have hstarts : s'.own.filterMap Event.starts = s.own.filterMap Event.starts := by
    rw [hk.own, List.filterMap_append, hes, List.append_nil]
  refine ⟨fun id x hx => ?_, fun es' hes' x hx => ?_⟩
  · rw [hk.execution] at hx
    obtain ⟨es', hmem, hstart, hgrant⟩ := h.backed id x hx
    rcases List.mem_append.1 hmem with hlog | hown
    · exact ⟨es', List.mem_append_left _ hlog, hstart, hgrant⟩
    · obtain rfl := List.mem_singleton.1 hown
      refine ⟨s'.own, by simp, hstarts ▸ hstart, ?_⟩
      rw [hk.own, List.flatMap_append]
      exact List.mem_append_left _ hgrant
  · have hold : ∃ es'' ∈ log ++ [s.own], x ∈ es''.filterMap Event.starts := by
      rcases List.mem_append.1 hes' with hlog | hown
      · exact ⟨es', List.mem_append_left _ hlog, hx⟩
      · obtain rfl := List.mem_singleton.1 hown
        exact ⟨s.own, by simp, hstarts ▸ hx⟩
    obtain ⟨es'', hmem, hx⟩ := hold
    obtain ⟨hlt, hsame⟩ := h.handle es'' hmem x hx
    refine ⟨hk.nextHandle ▸ hlt, fun id y hy => hsame id y ?_⟩
    rw [← hk.execution, hy]

/-! ## Happenings -/

@[simp] theorem note_world (s : Loop) (e : Event) : (s.note e).world = s.world := rfl
@[simp] theorem note_running (s : Loop) (e : Event) : (s.note e).running = s.running := rfl
@[simp] theorem note_inbox (s : Loop) (e : Event) : (s.note e).inbox = s.inbox := rfl
@[simp] theorem note_nextHandle (s : Loop) (e : Event) : (s.note e).nextHandle = s.nextHandle := rfl

theorem note_moments (s : Loop) (e : Event) :
    (s.note e).moments = s.moments ++ [⟨e, s.world, s.running⟩] := rfl

theorem own_note (s : Loop) (e : Event) :
    (s.note e).own = s.own ++ if e.isOwn then [e] else [] := by
  rw [own, note_moments, List.map_append, List.filter_append, own]
  cases h : e.isOwn <;> simp [h]

theorem keeps_note (s : Loop) {e : Event} (he : e.isOwn = true) : Keeps [e] s (s.note e) :=
  ⟨fun _ => rfl, rfl, by rw [own_note, if_pos he]⟩

/-- Writing an event down that is no start. -/
theorem Ok.note (h : s.Ok cfg log) {e : Event} (he : e.starts = none) : (s.note e).Ok cfg log := by
  have hkeeps : Keeps (if e.isOwn then [e] else []) s (s.note e) :=
    ⟨fun _ => rfl, rfl, own_note s e⟩
  refine ⟨⟨h.wired.world, h.wired.sent, h.wired.nodup, h.wired.entry⟩,
    h.booked.keeps hkeeps (by cases e.isOwn <;> simp [he]), h.size, fun m hm => ?_⟩
  rw [note_moments] at hm
  rcases List.mem_append.1 hm with hm | hm
  · exact h.fresh m hm
  · obtain rfl := List.mem_singleton.1 hm
    intro nowMs handle record heq
    rw [show e = _ from heq] at he
    cases he

/-- The map in which an entry is replaced by one of the same execution. -/
theorem execution_insert {d d' : RunningDelivery} {id : String} (hd : s.running[id]? = some d)
    (hsame : d'.execution = d.execution) (id' : String) :
    (s.running.insert id d')[id']?.map RunningDelivery.execution = s.execution id' := by
  rw [Table.get_insert]
  split
  · subst id'
    rw [execution, hd, Option.map_some, Option.map_some, hsame]
  · rfl

theorem Wired.sends (hs : s.Wired) {id : String} {d : RunningDelivery} (hd : s.running[id]? = some d)
    (hrunning : d.task = .running) (failure : Option DeliveryFailure) (lockBusy : Option LockBusy) :
    Wired { s with
      running := s.running.insert id { d with task := .sent }
      inbox := s.inbox ++ [(d.handle, ⟨d.ran, failure, lockBusy⟩)] } := by
  have hid := hs.entry id d hd
  have hother : ∀ m ∈ s.inbox, m.2.record.deliveryId ≠ id := by
    intro m hm heq
    obtain ⟨d', hd', htask, _⟩ := hs.sent m hm
    rw [heq, hd] at hd'
    obtain rfl := Option.some.inj hd'
    exact htask hrunning
  refine ⟨hs.world, fun m hm => ?_, ?_, fun id' d' hd' => ?_⟩
  · rcases List.mem_append.1 hm with hm | hm
    · dsimp only
      rw [Table.get_insert, if_neg (hother m hm)]
      exact hs.sent m hm
    · obtain rfl := List.mem_singleton.1 hm
      refine ⟨{ d with task := .sent }, ?_, by simp, rfl⟩
      dsimp only
      rw [hid, Table.get_insert, if_pos rfl]
  · rw [List.map_append, List.nodup_append]
    refine ⟨hs.nodup, by simp, ?_⟩
    rintro a ha b hb rfl
    obtain ⟨m, hm, rfl⟩ := List.mem_map.1 ha
    exact hother m hm ((List.mem_singleton.1 hb).trans hid)
  · dsimp only at hd'
    rw [Table.get_insert] at hd'
    split at hd'
    · subst id'
      obtain rfl := Option.some.inj hd'
      exact hid
    · exact hs.entry id' d' hd'

theorem Wired.ends (hs : s.Wired) {id : String} {d : RunningDelivery}
    (hd : s.running[id]? = some d) :
    Wired { s with running := s.running.insert id { d with task := .finished } } := by
  refine ⟨hs.world, fun m hm => ?_, hs.nodup, fun id' d' hd' => ?_⟩
  · obtain ⟨d', hd', htask, hexec⟩ := hs.sent m hm
    dsimp only
    rw [Table.get_insert]
    split
    · rename_i heq
      rw [heq, hd] at hd'
      obtain rfl := Option.some.inj hd'
      exact ⟨{ d with task := .finished }, rfl, by simp, hexec⟩
    · exact ⟨d', hd', htask, hexec⟩
  · dsimp only at hd'
    rw [Table.get_insert] at hd'
    split at hd'
    · subst id'
      obtain rfl := Option.some.inj hd'
      exact hs.entry id d hd
    · exact hs.entry id' d' hd'

/-- What happens elsewhere leaves the executions alone. -/
theorem Wired.happen (hs : s.Wired) (cfg : Settings) (env : Env) (what : Happening) :
    (s.happen cfg env what).Wired ∧ Keeps [] s (s.happen cfg env what) ∧
      (s.happen cfg env what).moments = s.moments := by
  cases what with
  | act a =>
    exact ⟨⟨(World.step_cases env hs.world a).1, hs.sent, hs.nodup, hs.entry⟩,
      ⟨fun _ => rfl, rfl, by simp [Loop.happen, own]⟩, rfl⟩
  | sends id failure lockBusy =>
    simp only [Loop.happen]
    split
    · rename_i d hd
      split
      · rename_i h
        exact ⟨hs.sends hd h.1 failure lockBusy,
          ⟨execution_insert hd rfl, rfl, by simp [own]⟩, rfl⟩
      · exact ⟨hs, Keeps.refl s, rfl⟩
    · exact ⟨hs, Keeps.refl s, rfl⟩
  | ends id =>
    simp only [Loop.happen]
    split
    · rename_i d hd
      exact ⟨hs.ends hd, ⟨execution_insert hd rfl, rfl, by simp [own]⟩, rfl⟩
    · exact ⟨hs, Keeps.refl s, rfl⟩

theorem Ok.happens (h : s.Ok cfg log) (env : Env) (x : Stamped) :
    ((s.note (.happens x.atMs x.what)).happen cfg env x.what).Ok cfg log ∧
      Keeps [] s ((s.note (.happens x.atMs x.what)).happen cfg env x.what) := by
  have hnote := h.note (e := .happens x.atMs x.what) rfl
  obtain ⟨hwired, hkeeps, hmoments⟩ := hnote.wired.happen cfg env x.what
  have hfirst : Keeps [] s (s.note (.happens x.atMs x.what)) :=
    ⟨fun _ => rfl, rfl, own_note s _⟩
  refine ⟨⟨hwired, hnote.booked.keeps hkeeps rfl, hkeeps.size ▸ hnote.size, ?_⟩,
    hfirst.trans hkeeps⟩
  rw [hmoments]
  exact hnote.fresh

/-- **What happens elsewhere keeps the invariant and the executions.** -/
theorem Ok.elsewhere (h : s.Ok cfg log) (env : Env) (happenings : List Stamped) :
    (s.elsewhere cfg env happenings).Ok cfg log ∧ Keeps [] s (s.elsewhere cfg env happenings) := by
  induction happenings generalizing s with
  | nil => exact ⟨h, Keeps.refl s⟩
  | cons x rest ih =>
    obtain ⟨hok, hkeeps⟩ := h.happens env x
    obtain ⟨hok', hkeeps'⟩ := ih hok
    exact ⟨hok', hkeeps.trans hkeeps'⟩

/-! ## Calls -/

/-- What a call comes to: it writes its transaction, or it does not get that far. -/
theorem call_cases (cfg : Settings) (env : Env) (s : Loop) (turn : Turn) (c : Call) :
    ∃ s₁ s₂, s₁ = (s.elsewhere cfg env turn.before).note (.call turn.nowMs c) ∧
      s₂ = s₁.elsewhere cfg env turn.between ∧
      ((s.call cfg env turn c = (s₂, none) ∧ ∀ txn, s₁.world.store.plan c = .ok (some txn) →
          turn.fails = false → ∃ error, s₂.world.store.commit env txn = .error error) ∨
        ∃ txn store reply, s₁.world.store.plan c = .ok (some txn) ∧
          s₂.world.store.commit env txn = .ok (store, reply) ∧
          s.call cfg env turn c =
            ({ s₂ with world := { s₂.world with store := store } }, some reply)) := by
  refine ⟨_, _, rfl, rfl, ?_⟩
  simp only [Loop.call]
  split
  · rename_i txn hplan
    split
    · rename_i hfails
      exact Or.inl ⟨rfl, fun _ _ hnot => absurd hfails (by simp [hnot])⟩
    · split
      · rename_i store reply hcommit
        exact Or.inr ⟨txn, store, reply, hplan, hcommit, rfl⟩
      · rename_i error hcommit
        refine Or.inl ⟨rfl, fun txn' hplan' _ => ⟨error, ?_⟩⟩
        rw [hplan] at hplan'
        obtain rfl := Option.some.inj (Except.ok.inj hplan')
        exact hcommit
  · rename_i hnone
    exact Or.inl ⟨rfl, fun txn hplan => absurd hplan (hnone txn)⟩

/-- **A call keeps the executions, and its reply is that of a committed transaction.** -/
theorem Ok.call (h : s.Ok cfg log) (env : Env) (turn : Turn) (c : Call) :
    (s.call cfg env turn c).1.Ok cfg log ∧
      Keeps [.call turn.nowMs c] s (s.call cfg env turn c).1 ∧
      ∀ reply, (s.call cfg env turn c).2 = some reply → ∃ e : Entry, e.Committed env ∧
        e.reply = reply ∧ e.after = (s.call cfg env turn c).1.world.store ∧
        ∃ earlier : Store, earlier.plan c = .ok (some e.txn) := by
  obtain ⟨s₁, s₂, hs₁, hs₂, hcases⟩ := call_cases cfg env s turn c
  obtain ⟨hok, hkeeps⟩ := h.elsewhere env turn.before
  have hok₁ : s₁.Ok cfg log := hs₁ ▸ hok.note rfl
  have hkeeps₁ : Keeps [.call turn.nowMs c] s s₁ := hs₁ ▸ hkeeps.trans (keeps_note _ rfl)
  obtain ⟨hok₂, hkeeps₂⟩ := hok₁.elsewhere env turn.between
  rw [← hs₂] at hok₂ hkeeps₂
  have hkeeps := hkeeps₁.trans hkeeps₂
  rcases hcases with ⟨hcall, _⟩ | ⟨txn, store, reply, hplan, hcommit, hcall⟩
  · rw [hcall]
    exact ⟨hok₂, hkeeps, by simp⟩
  · have hplanned := (Store.plan_eq_ok hok₁.wired.world.store hplan).1
    have he : Entry.Committed env ⟨_, txn, reply, store⟩ :=
      ⟨hok₂.wired.world.store, hplanned, hcommit⟩
    rw [hcall]
    refine ⟨⟨⟨⟨he.effect.inv, hok₂.wired.world.planned⟩, hok₂.wired.sent, hok₂.wired.nodup,
      hok₂.wired.entry⟩, ⟨hok₂.booked.backed, hok₂.booked.handle⟩, hok₂.size, hok₂.fresh⟩,
      ⟨hkeeps.execution, hkeeps.nextHandle, hkeeps.own⟩, ?_⟩
    rintro _ ⟨⟩
    exact ⟨_, he, rfl, rfl, _, hplan⟩

/-! ## Renewals -/

theorem renewEntry_execution (nextRenew : UInt64) (renewed : Table String DeliveryRecord)
    (running : Table String RunningDelivery) (renewal : String × UInt64) (id : String) :
    (renewEntry nextRenew renewed running renewal)[id]?.map
        (fun d => (d.execution, d.task)) = running[id]?.map fun d => (d.execution, d.task) := by
  simp only [renewEntry]
  split
  · rename_i d record hd hrecord
    split
    · rfl
    · rw [Table.get_insert]
      split
      · subst id
        rw [hd]
        rfl
      · rfl
  · rfl

theorem renewEntries_execution (nextRenew : UInt64) (renewed : Table String DeliveryRecord)
    (id : String) : ∀ (renewals : List (String × UInt64)) (running : Table String RunningDelivery),
      (renewals.foldl (renewEntry nextRenew renewed) running)[id]?.map
        (fun d => (d.execution, d.task)) = running[id]?.map fun d => (d.execution, d.task)
  | [], _ => rfl
  | renewal :: renewals, running => by
    rw [List.foldl_cons, renewEntries_execution, renewEntry_execution]

/-- A map with the same executions, as far along as before. -/
theorem Wired.of_running (hs : s.Wired) {running : Table String RunningDelivery}
    (h : ∀ id : String, running[id]?.map (fun d => (d.execution, d.task)) =
      s.running[id]?.map fun d => (d.execution, d.task)) : Wired { s with running := running } := by
  refine ⟨hs.world, fun m hm => ?_, hs.nodup, fun id d hd => ?_⟩
  · obtain ⟨d, hd, htask, hexec⟩ := hs.sent m hm
    have hid := h m.2.record.deliveryId
    rw [hd, Option.map_some, Option.map_eq_some_iff] at hid
    obtain ⟨d', hd', heq⟩ := hid
    obtain ⟨hexec', htask'⟩ := Prod.mk.inj heq
    exact ⟨d', hd', htask' ▸ htask, hexec'.trans hexec⟩
  · have hid := h id
    rw [show running[id]? = some d from hd, Option.map_some, eq_comm, Option.map_eq_some_iff] at hid
    obtain ⟨d', hd', heq⟩ := hid
    have hran : d'.ran = d.ran := congrArg (fun p => p.1.2) heq
    exact hran ▸ hs.entry id d' hd'

theorem Ok.of_running (hs : s.Ok cfg log) {running : Table String RunningDelivery}
    (h : ∀ id : String, running[id]?.map (fun d => (d.execution, d.task)) =
      s.running[id]?.map fun d => (d.execution, d.task)) :
    Ok cfg log { s with running := running } ∧ Keeps [] s { s with running := running } := by
  have hkeeps : Keeps [] s { s with running := running } := by
    refine ⟨fun id => ?_, rfl, by simp [own]⟩
    have hid := congrArg (Option.map Prod.fst) (h id)
    rw [Option.map_map, Option.map_map] at hid
    exact hid
  exact ⟨⟨hs.wired.of_running h, hs.booked.keeps hkeeps rfl, hkeeps.size ▸ hs.size, hs.fresh⟩,
    hkeeps⟩

theorem Ok.renewRunning (h : s.Ok cfg log) (env : Env) (turn : Turn) :
    (s.renewRunning cfg env turn).Ok cfg log ∧
      ∃ es, Keeps es s (s.renewRunning cfg env turn) ∧ es.flatMap Event.grants = [] ∧
        es.filterMap Event.starts = [] ∧ es.filterMap Event.receives = [] := by
  obtain ⟨hok₁, hkeeps₁⟩ := h.elsewhere env turn.before
  have hok₂ := hok₁.note (e := .tick turn.nowMs) rfl
  have hkeeps₂ := hkeeps₁.trans (keeps_note (e := .tick turn.nowMs) _ rfl)
  simp only [Loop.renewRunning]
  split
  · obtain ⟨hok₃, hkeeps₃⟩ := hok₂.elsewhere env turn.between
    exact ⟨hok₃, _, hkeeps₂.trans hkeeps₃, rfl, rfl, rfl⟩
  · generalize hc : Call.renew _ _ = c
    obtain ⟨hok₃, hkeeps₃, _⟩ := hok₂.call env { turn with before := [] } c
    have hkeeps := hkeeps₂.trans hkeeps₃
    split
    · rename_i s' renewed heq
      rw [heq] at hok₃ hkeeps
      obtain ⟨hok₄, hkeeps₄⟩ := hok₃.of_running fun id =>
        renewEntries_execution (nextRenewAtMs turn.nowMs cfg.stallWindow) renewed id
          (dueRenewals ((s.elsewhere cfg env turn.before).note (.tick turn.nowMs)).running
            turn.nowMs) s'.running
      exact ⟨hok₄, _, hkeeps.trans hkeeps₄, rfl, rfl, rfl⟩
    · rename_i s' _ _ heq
      rw [heq] at hok₃ hkeeps
      exact ⟨hok₃, _, hkeeps, rfl, rfl, rfl⟩

/-! ## Settling -/

/-- Operations that settle a delivery under the lease of a record. -/
def Settles (record : DeliveryRecord) : Call → Prop
  | .ack id leaseGeneration => id = record.deliveryId ∧ leaseGeneration = record.leaseGeneration
  | .retry id leaseGeneration _ _ _ =>
    id = record.deliveryId ∧ leaseGeneration = record.leaseGeneration
  | .deferLockBusy id leaseGeneration _ _ _ =>
    id = record.deliveryId ∧ leaseGeneration = record.leaseGeneration
  | _ => False

theorem Ok.retryRecord (h : s.Ok cfg log) (env : Env) (turn : Turn) (record : DeliveryRecord)
    (failure : DeliveryFailure) :
    (s.retryRecord cfg env turn record failure).Ok cfg log ∧ ∃ c,
      Keeps [.handed record, .call turn.nowMs c] s (s.retryRecord cfg env turn record failure) ∧
      Settles record c := by
  have hok₁ := h.note (e := .handed record) rfl
  have hkeeps₁ := keeps_note (e := .handed record) s rfl
  simp only [Loop.retryRecord]
  split
  · obtain ⟨hok, hkeeps, _⟩ := hok₁.call env turn
      (.ack record.deliveryId record.leaseGeneration)
    exact ⟨hok, _, hkeeps₁.trans hkeeps, rfl, rfl⟩
  · rename_i policy hpolicy
    obtain ⟨hok, hkeeps, _⟩ := hok₁.call env turn (.retry record.deliveryId
      record.leaseGeneration ⟨failure.message, failure.replayable⟩ policy turn.nowMs)
    exact ⟨hok, _, hkeeps₁.trans hkeeps, rfl, rfl⟩

/-- **A completed delivery is settled once.** -/
theorem Ok.finishDurableRecord (h : s.Ok cfg log) (env : Env) (turn : Turn) (done : CompletedDelivery) :
    (s.finishDurableRecord cfg env turn done).Ok cfg log ∧
      ∃ es c, Keeps es s (s.finishDurableRecord cfg env turn done) ∧
        es.filterMap Event.calls = [c] ∧ Settles done.record c ∧ es.flatMap Event.grants = [] ∧
        es.filterMap Event.starts = [] ∧ es.filterMap Event.receives = [] := by
  simp only [Loop.finishDurableRecord]
  split
  · rename_i lockBusy _
    obtain ⟨hok, hkeeps, _⟩ := h.call env turn (.deferLockBusy done.record.deliveryId
      done.record.leaseGeneration (lockBusy.lock.getD "unknown") cfg.lockBusyBackoff turn.nowMs)
    exact ⟨hok, _, _, hkeeps, rfl, ⟨rfl, rfl⟩, rfl, rfl, rfl⟩
  · rename_i error _ _
    obtain ⟨hok, c, hkeeps, hc⟩ := h.retryRecord env turn done.record error
    exact ⟨hok, _, c, hkeeps, rfl, hc, rfl, rfl, rfl⟩
  · obtain ⟨hok, hkeeps, _⟩ := h.call env turn
      (.ack done.record.deliveryId done.record.leaseGeneration)
    exact ⟨hok, _, _, hkeeps, rfl, ⟨rfl, rfl⟩, rfl, rfl, rfl⟩

/-! ## Admission -/

/-- An execution enters the map. -/
theorem Ok.enter (h : s.Ok cfg log) (nowMs : UInt64) {d : RunningDelivery}
    (hnew : d.record.deliveryId ∉ s.running) (hgranted : d.record ∈ s.own.flatMap Event.grants)
    (hroom : s.running.size < cfg.maxInFlight) (hd : d.execution = (s.nextHandle, d.record)) :
    ((s.note (.started nowMs s.nextHandle d.record)).enter d).Ok cfg log := by
  have hran : d.ran = d.record := congrArg Prod.snd hd
  have hne : ∀ {id : String} {d' : RunningDelivery}, s.running[id]? = some d' →
      id ≠ d.record.deliveryId := by
    rintro id d' hd' rfl
    rw [← Std.ExtTreeMap.isSome_getElem?_iff_mem, hd'] at hnew
    exact hnew rfl
  have hrunning : ((s.note (.started nowMs s.nextHandle d.record)).enter d).running =
    s.running.insert d.record.deliveryId d := rfl
  have hold : ∀ id x, ((s.note (.started nowMs s.nextHandle d.record)).enter d).execution id =
      some x → x = (s.nextHandle, d.record) ∨ s.execution id = some x := by
    intro id x hx
    rw [execution, hrunning, Table.get_insert] at hx
    split at hx
    · rw [Option.map_some, hd] at hx
      exact Or.inl (Option.some.inj hx).symm
    · exact Or.inr hx
  have hown : ((s.note (.started nowMs s.nextHandle d.record)).enter d).own =
      s.own ++ [.started nowMs s.nextHandle d.record] := own_note s _
  refine ⟨⟨h.wired.world, fun m hm => ?_, h.wired.nodup, fun id d' hd' => ?_⟩,
    ⟨fun id x hx => ?_, fun es hes x hx => ?_⟩, ?_, fun m hm => ?_⟩
  · obtain ⟨d', hd', hrest⟩ := h.wired.sent m hm
    refine ⟨d', ?_, hrest⟩
    rw [hrunning, Table.get_insert, if_neg (hne hd'), hd']
  · rw [hrunning, Table.get_insert] at hd'
    split at hd'
    · obtain rfl := Option.some.inj hd'
      rw [hran]
      symm
      assumption
    · exact h.wired.entry id d' hd'
  · rw [hown]
    rcases hold id x hx with rfl | hx
    · exact ⟨_, List.mem_append_right _ (List.mem_singleton_self _), by simp [Event.starts],
        by simpa [Event.grants] using hgranted⟩
    · obtain ⟨es, hes, hstart, hgrant⟩ := h.booked.backed id x hx
      rcases List.mem_append.1 hes with hes | hes
      · exact ⟨es, List.mem_append_left _ hes, hstart, hgrant⟩
      · obtain rfl := List.mem_singleton.1 hes
        refine ⟨_, List.mem_append_right _ (List.mem_singleton_self _), ?_, ?_⟩
        · rw [List.filterMap_append]
          exact List.mem_append_left _ hstart
        · rw [List.flatMap_append]
          exact List.mem_append_left _ hgrant
  · -- A start in the log is that of the new execution, whose handle is new, or an earlier one.
    have hcases : x = (s.nextHandle, d.record) ∨
        ∃ es' ∈ log ++ [s.own], x ∈ es'.filterMap Event.starts := by
      rcases List.mem_append.1 hes with hes | hes
      · exact Or.inr ⟨es, List.mem_append_left _ hes, hx⟩
      · rw [List.mem_singleton.1 hes, hown, List.filterMap_append] at hx
        rcases List.mem_append.1 hx with hx | hx
        · exact Or.inr ⟨_, List.mem_append_right _ (List.mem_singleton_self _), hx⟩
        · exact Or.inl (List.mem_singleton.1 hx)
    rcases hcases with rfl | ⟨es', hes', hx⟩
    · refine ⟨Nat.lt_succ_self _, fun id y hy hsame => ?_⟩
      rcases hold id y hy with rfl | hy
      · rfl
      · obtain ⟨es', hes', hstart, _⟩ := h.booked.backed id y hy
        have := (h.booked.handle es' hes' y hstart).1
        dsimp only at hsame
        omega
    · obtain ⟨hlt, hsame⟩ := h.booked.handle es' hes' x hx
      refine ⟨Nat.lt_succ_of_lt hlt, fun id y hy heq => ?_⟩
      rcases hold id y hy with rfl | hy
      · dsimp only at heq
        omega
      · exact hsame id y hy heq
  · rw [hrunning]
    have := Std.ExtTreeMap.size_insert_le (t := s.running) (k := d.record.deliveryId) (v := d)
    omega
  · rcases List.mem_append.1 hm with hm | hm
    · exact h.fresh m hm
    · obtain rfl := List.mem_singleton.1 hm
      rintro _ _ _ ⟨⟩
      exact hnew

/-- What becomes of a leased record: it is running, or it was handed to `retry_record`.  All other
executions are left alone. -/
structure Admitted (record : DeliveryRecord) (es : List Event) (s s' : Loop) : Prop where
  own : s'.own = s.own ++ es
  others : ∀ id, id ≠ record.deliveryId → s'.execution id = s.execution id
  size : s'.running.size ≤ s.running.size + 1
  kept : (∃ x, s'.execution record.deliveryId = some x ∧ x.2 = record) ∨
    record ∈ es.filterMap Event.hands
  started : ((es.filterMap Event.starts).map Prod.snd).Sublist [record]
  granted : es.flatMap Event.grants = []
  received : es.filterMap Event.receives = []

/-- **The admission of one leased record.** -/
theorem Ok.takeIn (h : s.Ok cfg log) (env : Env) (a : Admission) {record : DeliveryRecord}
    (hnew : record.deliveryId ∉ s.running) (hgranted : record ∈ s.own.flatMap Event.grants)
    (hroom : s.running.size < cfg.maxInFlight) :
    (s.takeIn cfg env a record).Ok cfg log ∧
      ∃ es, Admitted record es s (s.takeIn cfg env a record) := by
  simp only [Loop.takeIn, if_neg hnew]
  split
  · rename_i error _
    obtain ⟨hok, c, hkeeps, _⟩ := h.retryRecord env a.turn record
      (DeliveryFailure.permanent ("build spawn args: " ++ error))
    exact ⟨hok, _, hkeeps.own, fun id _ => hkeeps.execution id, by rw [hkeeps.size]; omega,
      Or.inr (by simp [Event.hands]), by simp [Event.starts], rfl, rfl⟩
  · obtain ⟨hok₁, hkeeps₁⟩ := h.elsewhere env a.turn.before
    have hok₂ := hok₁.enter a.turn.nowMs
      (d := ⟨nextRenewAtMs a.turn.nowMs cfg.stallWindow, record,
        (s.elsewhere cfg env a.turn.before).nextHandle, record, .running⟩)
      (fun hmem => hnew ((hkeeps₁.mem_running _).1 hmem))
      (by rw [hkeeps₁.own, List.append_nil]; exact hgranted) (by rw [hkeeps₁.size]; exact hroom) rfl
    obtain ⟨hok₃, hkeeps₃⟩ := hok₂.elsewhere env a.turn.between
    rw [note_nextHandle, ← hkeeps₁.nextHandle]
    refine ⟨hok₃, [.started a.turn.nowMs (s.elsewhere cfg env a.turn.before).nextHandle record],
      ?_, fun id hid => ?_, ?_,
      Or.inl ⟨((s.elsewhere cfg env a.turn.before).nextHandle, record), ?_, rfl⟩,
      by simp [Event.starts], rfl, rfl⟩
    · rw [hkeeps₃.own, List.append_nil, ← List.append_nil s.own, ← hkeeps₁.own]
      exact own_note _ _
    · rw [hkeeps₃.execution, ← hkeeps₁.execution]
      exact congrArg (Option.map _) ((Table.get_insert _ _ _ _).trans (if_neg hid))
    · rw [hkeeps₃.size, ← hkeeps₁.size]
      exact Std.ExtTreeMap.size_insert_le
    · rw [hkeeps₃.execution]
      exact congrArg (Option.map _) ((Table.get_insert _ _ _ _).trans (if_pos rfl))

/-- The other records wait on. -/
theorem Admitted.waiting {record r : DeliveryRecord} (h : Admitted record es s s')
    (hne : r.deliveryId ≠ record.deliveryId) (hnew : r.deliveryId ∉ s.running)
    (hgranted : r ∈ s.own.flatMap Event.grants) :
    r.deliveryId ∉ s'.running ∧ r ∈ s'.own.flatMap Event.grants := by
  refine ⟨?_, ?_⟩
  · have hsame := congrArg Option.isSome (h.others _ hne)
    simp only [execution, Option.isSome_map] at hsame
    rwa [← Std.ExtTreeMap.isSome_getElem?_iff_mem, hsame, Std.ExtTreeMap.isSome_getElem?_iff_mem]
  · rw [h.own, List.flatMap_append]
    exact List.mem_append_left _ hgranted

/-- **The admission of all leased records**, none of which is running. -/
theorem Ok.admitAll (env : Env) (admission : DeliveryRecord → Admission) :
    ∀ {leased : List DeliveryRecord} {s : Loop}, s.Ok cfg log →
      (leased.map DeliveryRecord.deliveryId).Nodup →
      (∀ r ∈ leased, r.deliveryId ∉ s.running ∧ r ∈ s.own.flatMap Event.grants) →
      s.running.size + leased.length ≤ cfg.maxInFlight →
      ∃ s', leased.foldl (fun s r => s.takeIn cfg env (admission r) r) s = s' ∧ s'.Ok cfg log ∧
        ∃ es, s'.own = s.own ++ es ∧
          (∀ id, (∀ r ∈ leased, id ≠ r.deliveryId) → s'.execution id = s.execution id) ∧
          (∀ r ∈ leased, (∃ x, s'.execution r.deliveryId = some x ∧ x.2 = r) ∨
            r ∈ es.filterMap Event.hands) ∧
          ((es.filterMap Event.starts).map Prod.snd).Sublist leased ∧
          es.flatMap Event.grants = [] ∧ es.filterMap Event.receives = []
  | [], s, h, _, _, _ => ⟨s, rfl, h, [], by simp, by simp, by simp, by simp, rfl, rfl⟩
  | record :: leased, s, h, hnodup, hnew, hroom => by
    rw [List.map_cons, List.nodup_cons] at hnodup
    obtain ⟨hfirst, hgranted⟩ := hnew record (by simp)
    rw [List.length_cons] at hroom
    obtain ⟨hok, es, hadm⟩ := h.takeIn env (admission record) hfirst hgranted (by omega)
    have hother : ∀ r ∈ leased, r.deliveryId ≠ record.deliveryId := by
      intro r hr heq
      exact hnodup.1 (heq ▸ List.mem_map_of_mem hr)
    have hrest := fun r hr => hadm.waiting (hother r hr) (hnew r (by simp [hr])).1
      (hnew r (by simp [hr])).2
    obtain ⟨s', hs', hok', es', hown, hothers, hkept, hstarted, hgrants, hreceived⟩ :=
      Ok.admitAll env admission hok hnodup.2 hrest (by have := hadm.size; omega)
    refine ⟨s', by rw [List.foldl_cons, hs'], hok', es ++ es', ?_, fun id hid => ?_,
      fun r hr => ?_, ?_, ?_, ?_⟩
    · rw [hown, hadm.own, List.append_assoc]
    · rw [hothers id fun r hr => hid r (by simp [hr]), hadm.others id (hid record (by simp))]
    · rw [List.filterMap_append]
      rcases List.mem_cons.1 hr with rfl | hr
      · rcases hadm.kept with ⟨x, hx, hrecord⟩ | hhanded
        · refine Or.inl ⟨x, ?_, hrecord⟩
          rw [hothers _ fun r' hr' => (hother r' hr').symm, hx]
        · exact Or.inr (List.mem_append_left _ hhanded)
      · exact (hkept r hr).imp_right (List.mem_append_right _)
    · rw [List.filterMap_append, List.map_append]
      exact hadm.started.append hstarted
    · rw [List.flatMap_append, hadm.granted, hgrants, List.append_nil]
    · rw [List.filterMap_append, hadm.received, hreceived, List.append_nil]

/-- What one dispatch does: it takes on no more than there is room for, and forgets nothing it has
taken on. -/
structure Dispatched (cfg : Settings) (es : List Event) (s s' : Loop) : Prop where
  own : s'.own = s.own ++ es
  bound : (es.flatMap Event.grants).length ≤
    durableDispatchCapacity s.running.size cfg.maxInFlight cfg.admissionBurst
  started : ((es.filterMap Event.starts).map Prod.snd).Sublist (es.flatMap Event.grants)
  kept : ∀ r ∈ es.flatMap Event.grants, (∃ x, s'.execution r.deliveryId = some x ∧ x.2 = r) ∨
    r ∈ es.filterMap Event.hands
  received : es.filterMap Event.receives = []

/-- A dispatch that was granted nothing. -/
theorem Dispatched.of_keeps (h : Keeps es s s') (hgrants : es.flatMap Event.grants = [])
    (hstarts : es.filterMap Event.starts = []) (hreceives : es.filterMap Event.receives = []) :
    Dispatched cfg es s s' :=
  ⟨h.own, by simp [hgrants], by simp [hstarts], by simp [hgrants], hreceives⟩

/-- What `dispatch_due` asks for. -/
def leaseCall (cfg : Settings) (s : Loop) (nowMs : UInt64) : Call :=
  .lease nowMs (durableDispatchCapacity s.running.size cfg.maxInFlight cfg.admissionBurst)
    (retryLease cfg.stallWindow) (some cfg.name) (Std.ExtTreeSet.ofList s.running.keys)

/-- What it gets fits, and is new. -/
theorem Ok.leased (h : s.Ok cfg log) {turn : Turn} {s₁ : Loop} {leased : List DeliveryRecord}
    (hcall : s.call cfg env turn (leaseCall cfg s turn.nowMs) = (s₁, some (.lease leased))) :
    leased.length ≤ durableDispatchCapacity s.running.size cfg.maxInFlight cfg.admissionBurst ∧
      s₁.running.size + leased.length ≤ cfg.maxInFlight ∧
      (leased.map DeliveryRecord.deliveryId).Nodup ∧
      ∀ r ∈ leased, r.deliveryId ∉ s₁.running ∧
        r ∈ (s₁.note (.granted leased)).own.flatMap Event.grants := by
  obtain ⟨_, hkeeps, hreply⟩ := h.call env turn (leaseCall cfg s turn.nowMs)
  rw [hcall] at hkeeps
  obtain ⟨e, he, hleased, _, earlier, hplan⟩ := hreply (.lease leased) (by rw [hcall])
  -- The transaction is the one that was planned, so what it may grant is what was asked for.
  obtain ⟨expired, ready, htxn⟩ := Store.plan_lease hplan
  have hgrant := he.grantsSafely
  rw [Entry.GrantsSafely, htxn, hleased] at hgrant
  obtain ⟨hlength, hnodup, hrows⟩ := hgrant
  refine ⟨hlength, ?_, hnodup, fun r hr => ⟨fun hmem => ?_, ?_⟩⟩
  · have hsize := hkeeps.size
    have hmax := h.size
    rw [durableDispatchCapacity] at hlength
    dsimp only at hsize
    omega
  · obtain ⟨_, _, _, _, hexcluded, _⟩ := hrows r hr
    refine hexcluded ?_
    rw [Std.ExtTreeSet.mem_ofList, List.contains_iff_mem, Std.ExtTreeMap.mem_keys]
    exact (hkeeps.mem_running _).1 hmem
  · rw [(keeps_note (e := .granted leased) s₁ rfl).own]
    simp [Event.grants, hr]

/-- **One dispatch.** -/
theorem Ok.dispatchDue (h : s.Ok cfg log) (env : Env) (dispatch : Dispatch) :
    (s.dispatchDue cfg env dispatch).Ok cfg log ∧
      ∃ es, Dispatched cfg es s (s.dispatchDue cfg env dispatch) := by
  simp only [Loop.dispatchDue]
  split
  · exact ⟨h, [], Dispatched.of_keeps (Keeps.refl s) rfl rfl rfl⟩
  obtain ⟨hok, hkeeps, _⟩ := h.call env dispatch.lease (leaseCall cfg s dispatch.lease.nowMs)
  split
  · rename_i s₁ leased hcall
    obtain ⟨hlength, hroom, hnodup, hnew⟩ := h.leased hcall
    rw [leaseCall, hcall] at hok hkeeps
    obtain ⟨s', hs', hok', es, hes, hothers, hkept, hstarted, hgrants, hreceived⟩ :=
      Ok.admitAll env dispatch.admission (hok.note (e := .granted leased) rfl) hnodup hnew hroom
    have hown := (keeps_note (e := .granted leased) s₁ rfl).own
    rw [hs']
    refine ⟨hok', [.call dispatch.lease.nowMs (leaseCall cfg s dispatch.lease.nowMs),
      .granted leased] ++ es, ?_, ?_, ?_, ?_, ?_⟩
    · rw [hes, hown, hkeeps.own, List.append_assoc, List.append_assoc]
      rfl
    · simpa [Event.grants, hgrants] using hlength
    · simpa [Event.grants, Event.starts, List.filterMap_cons, hgrants] using hstarted
    · simpa [Event.grants, Event.hands, List.filterMap_cons, hgrants] using hkept
    · simpa [Event.receives, List.filterMap_cons] using hreceived
  · rename_i s₁ _ _ hcall
    rw [leaseCall, hcall] at hok hkeeps
    exact ⟨hok, _, Dispatched.of_keeps hkeeps rfl rfl rfl⟩

/-! ## Completion -/

/-- The oldest message is taken from the channel, and its entry from the map. -/
theorem Ok.receive (h : s.Ok cfg log) {handle : ℕ} {done : CompletedDelivery}
    {rest : List (ℕ × CompletedDelivery)} (hinbox : s.inbox = (handle, done) :: rest) :
    ((s.note (.received handle done)).remove done rest).Ok cfg log := by
  have hnote := h.note (e := .received handle done) rfl
  have hnodup := h.wired.nodup
  rw [hinbox, List.map_cons, List.nodup_cons] at hnodup
  have hget : ∀ {id : String} {d : RunningDelivery},
      (s.running.erase done.record.deliveryId)[id]? = some d →
      id ≠ done.record.deliveryId ∧ s.running[id]? = some d := by
    intro id d hd
    rw [Table.get_erase] at hd
    split at hd
    · cases hd
    · rename_i hne
      exact ⟨hne, hd⟩
  have hexec : ∀ {id : String} {x : ℕ × DeliveryRecord},
      (s.running.erase done.record.deliveryId)[id]?.map RunningDelivery.execution = some x →
      s.execution id = some x := by
    intro id x hx
    obtain ⟨d, hd, rfl⟩ := Option.map_eq_some_iff.1 hx
    rw [execution, (hget hd).2, Option.map_some]
  refine ⟨⟨h.wired.world, fun m hm => ?_, hnodup.2, fun id d hd => h.wired.entry id d (hget hd).2⟩,
    ⟨fun id x hx => hnote.booked.backed id x (hexec hx), fun es hes x hx => ?_⟩, ?_, hnote.fresh⟩
  · obtain ⟨d, hd, hd'⟩ := h.wired.sent m (by rw [hinbox]; simp [show m ∈ rest from hm])
    refine ⟨d, ?_, hd'⟩
    rw [remove, Table.get_erase, if_neg, note_running, hd]
    intro heq
    exact hnodup.1 (heq ▸ List.mem_map_of_mem hm)
  · obtain ⟨hlt, hsame⟩ := hnote.booked.handle es hes x hx
    exact ⟨hlt, fun id y hy => hsame id y (hexec hy)⟩
  · exact (Std.ExtTreeMap.size_erase_le (t := s.running)).trans h.size

/-- What the reception of a completed delivery comes to: its own entry is taken from the map, and it
is settled once. -/
structure Completed (handle : ℕ) (done : CompletedDelivery) (es : List Event) (s s' : Loop) :
    Prop where
  received : es.filterMap Event.receives = [(handle, done)]
  running : s.execution done.record.deliveryId = some (handle, done.record)
  removed : ∀ id, s'.execution id =
    if id = done.record.deliveryId then none else s.execution id
  settled : ∃ c, es.filterMap Event.calls = [c] ∧ Settles done.record c

/-- **The completion arm.** -/
theorem Ok.complete (h : s.Ok cfg log) (env : Env) (turn : Turn) :
    (s.complete cfg env turn).Ok cfg log ∧ ∃ es, (s.complete cfg env turn).own = s.own ++ es ∧
      es.flatMap Event.grants = [] ∧ es.filterMap Event.starts = [] ∧
      ∀ handle done, (handle, done) ∈ es.filterMap Event.receives →
        Completed handle done es s (s.complete cfg env turn) := by
  simp only [Loop.complete]
  split
  · exact ⟨h, [], by simp, rfl, rfl, by simp⟩
  split
  · exact ⟨h, [], by simp, rfl, rfl, by simp⟩
  · rename_i handle done rest hinbox
    obtain ⟨hok, es, c, hkeeps, hcalls, hsettles, hgrants, hstarts, hreceives⟩ :=
      (h.receive hinbox).finishDurableRecord env turn done
    obtain ⟨d, hd, _, hexec⟩ := h.wired.sent (handle, done) (by rw [hinbox]; simp)
    refine ⟨hok, .received handle done :: es, ?_, by simpa [Event.grants] using hgrants,
      by simpa [Event.starts] using hstarts, fun handle' done' hmem => ?_⟩
    · rw [hkeeps.own]
      have hown : ((s.note (.received handle done)).remove done rest).own =
        s.own ++ [.received handle done] := (keeps_note (e := .received handle done) s rfl).own
      rw [hown, List.append_assoc, List.singleton_append]
    · simp only [List.filterMap_cons, Event.receives, hreceives, List.mem_singleton,
        Prod.mk.injEq] at hmem
      obtain ⟨rfl, rfl⟩ := hmem
      refine ⟨by simp [Event.receives, hreceives], ?_, fun id => ?_, c,
        by simpa [Event.calls, List.filterMap_cons] using hcalls, hsettles⟩
      · rw [execution, hd, Option.map_some, hexec]
      · rw [hkeeps.execution]
        refine (congrArg (Option.map _) (Table.get_erase _ _ _)).trans ?_
        split
        · rfl
        · rfl

/-! ## Steps and runs -/

/-- What a step of the loop comes to. -/
structure Performed (cfg : Settings) (es : List Event) (s s' : Loop) : Prop where
  own : s'.own = s.own ++ es
  bound : (es.flatMap Event.grants).length ≤
    durableDispatchCapacity s.running.size cfg.maxInFlight cfg.admissionBurst
  started : ((es.filterMap Event.starts).map Prod.snd).Sublist (es.flatMap Event.grants)
  kept : ∀ r ∈ es.flatMap Event.grants, (∃ x, s'.execution r.deliveryId = some x ∧ x.2 = r) ∨
    r ∈ es.filterMap Event.hands
  completed : ∀ handle done, (handle, done) ∈ es.filterMap Event.receives →
    Completed handle done es s s'

/-- A step that does nothing but keep the executions, and then a dispatch. -/
theorem Performed.of_dispatched {s₁ : Loop} {es₁ es₂ : List Event} (h₁ : Keeps es₁ s s₁)
    (hgrants : es₁.flatMap Event.grants = []) (hstarts : es₁.filterMap Event.starts = [])
    (hreceives : es₁.filterMap Event.receives = []) (h₂ : Dispatched cfg es₂ s₁ s') :
    Performed cfg (es₁ ++ es₂) s s' := by
  refine ⟨by rw [h₂.own, h₁.own, List.append_assoc], ?_, ?_, ?_, ?_⟩
  · rw [List.flatMap_append, hgrants, List.nil_append, ← h₁.size]
    exact h₂.bound
  · rw [List.flatMap_append, hgrants, List.filterMap_append, hstarts]
    exact h₂.started
  · rw [List.flatMap_append, hgrants, List.filterMap_append]
    exact fun r hr => (h₂.kept r hr).imp_right (List.mem_append_right _)
  · rw [List.filterMap_append, hreceives, h₂.received]
    simp

/-- **One arm of the `select!`.** -/
theorem Ok.perform (h : s.Ok cfg log) (env : Env) (input : Input) :
    (s.perform cfg env input).Ok cfg log ∧
      ∃ es, Performed cfg es s (s.perform cfg env input) := by
  cases input with
  | wake dispatch =>
    obtain ⟨hok, es, hes⟩ := h.dispatchDue env dispatch
    exact ⟨hok, _, Performed.of_dispatched (Keeps.refl s) rfl rfl rfl hes⟩
  | tick renew currentDeptByQueue redrive dispatch =>
    obtain ⟨hok₁, es₁, hkeeps₁, hgrants, hstarts, hreceives⟩ := h.renewRunning env renew
    obtain ⟨hok₂, hkeeps₂, _⟩ := hok₁.call env redrive
      (.redrive ⟨redriveMax, redriveCooldown⟩ (some currentDeptByQueue) redrive.nowMs dispatchBatch)
    obtain ⟨hok₃, es₃, hes₃⟩ := hok₂.dispatchDue env dispatch
    exact ⟨hok₃, _, Performed.of_dispatched (hkeeps₁.trans hkeeps₂)
      (by simp [hgrants, Event.grants]) (by simp [hstarts, Event.starts])
      (by simp [hreceives, Event.receives]) hes₃⟩
  | completion turn =>
    obtain ⟨hok, es, hown, hgrants, hstarts, hcompleted⟩ := h.complete env turn
    exact ⟨hok, es, hown, by simp [hgrants], by simp [hstarts], by simp [hgrants], hcompleted⟩
  | idle happenings =>
    obtain ⟨hok, hkeeps⟩ := h.elsewhere env happenings
    exact ⟨hok, [], hkeeps.own, by simp, by simp, by simp, by simp⟩

/-- Between two steps. -/
theorem Ok.next (h : s.Ok cfg log) : Ok cfg (log ++ [s.own]) { s with moments := [] } := by
  refine ⟨⟨h.wired.world, h.wired.sent, h.wired.nodup, h.wired.entry⟩,
    ⟨fun id x hx => ?_, fun es hes x hx => ?_⟩, h.size, by simp⟩
  · obtain ⟨es, hes, hx⟩ := h.booked.backed id x hx
    exact ⟨es, List.mem_append_left _ hes, hx⟩
  · rcases List.mem_append.1 hes with hes | hes
    · exact h.booked.handle es hes x hx
    · rw [List.mem_singleton.1 hes] at hx
      simp [own] at hx

theorem ok_start {w : World} (hw : w.Inv) : (start w).Ok cfg [] := by
  refine ⟨⟨hw, by simp [start], by simp [start], by simp [start]⟩,
    ⟨by simp [start, execution], by simp [start, own]⟩, by simp [start], by simp [start]⟩

end Loop

namespace LoopStep

/-- One dispatch admits no more than the burst, than a batch, and than there is room for. -/
def Admits (cfg : Settings) (e : LoopStep) : Prop :=
  e.granted.length ≤ min cfg.admissionBurst (min 16 (cfg.maxInFlight - e.before.running.size)) ∧
    (e.started.map Prod.snd).Sublist e.granted

/-- No execution starts while there is one of the same delivery. -/
def StartsFresh (e : LoopStep) : Prop := ∀ m ∈ e.after.moments, m.StartsFresh

/-- Whatever was granted is running under that grant, or was handed to `retry_record`. -/
def KeepsGrants (e : LoopStep) : Prop :=
  ∀ r ∈ e.granted, (∃ d, e.after.running[r.deliveryId]? = some d ∧ d.ran = r) ∨ r ∈ e.handed

/-- Every completion takes its own entry from the map and nothing else, and calls one of `ack`,
`retry` and `defer_lock_busy`, once, under the generation of the grant with which the execution was
started. -/
def Completes (log : List LoopStep) (e : LoopStep) : Prop :=
  ∀ handle done, (handle, done) ∈ e.received →
    e.received = [(handle, done)] ∧
    e.before.execution done.record.deliveryId = some (handle, done.record) ∧
    (∀ id, e.after.execution id =
      if id = done.record.deliveryId then none else e.before.execution id) ∧
    (∃ c, e.calls = [c] ∧ Loop.Settles done.record c) ∧
    (∃ e' ∈ log, (handle, done.record) ∈ e'.started ∧ done.record ∈ e'.granted) ∧
    ∀ e' ∈ log, ∀ r, (handle, r) ∈ e'.started → r = done.record

/-- What was shown of the functions of the loop, said of a step. -/
theorem of_performed {cfg : Settings} {log : List LoopStep} {s s' : Loop} {es : List Event}
    (h : Loop.Ok cfg (log.map fun e => e.after.own) { s with moments := [] })
    (h' : Loop.Ok cfg (log.map fun e => e.after.own) s')
    (hes : Loop.Performed cfg es { s with moments := [] } s') :
    Admits cfg ⟨s, s'⟩ ∧ StartsFresh ⟨s, s'⟩ ∧ KeepsGrants ⟨s, s'⟩ ∧ Completes log ⟨s, s'⟩ := by
  have hown : s'.own = es := by simpa [Loop.own] using hes.own
  have hbound := hes.bound
  rw [durableDispatchCapacity, dispatchBatch] at hbound
  refine ⟨⟨?_, ?_⟩, h'.fresh, fun r hr => ?_, fun handle done hmem => ?_⟩
  · rw [granted, hown]
    dsimp only at hbound ⊢
    omega
  · rw [started, granted, hown]
    exact hes.started
  · rw [granted, hown] at hr
    rw [handed, hown]
    refine (hes.kept r hr).imp_left ?_
    rintro ⟨x, hx, rfl⟩
    obtain ⟨d, hd, rfl⟩ := Option.map_eq_some_iff.1 hx
    exact ⟨d, hd, rfl⟩
  · rw [received, hown] at hmem
    obtain ⟨hreceived, hrunning, hremoved, hsettled⟩ := hes.completed handle done hmem
    refine ⟨by rw [received, hown, hreceived], hrunning, hremoved, by rwa [calls, hown], ?_,
      fun e' he' r hr => ?_⟩
    · -- The step has only begun, so the execution was started in one of the steps before.
      obtain ⟨es', hes', hstart, hgrant⟩ := h.booked.backed _ _ hrunning
      rcases List.mem_append.1 hes' with hes' | hes'
      · obtain ⟨e', he', rfl⟩ := List.mem_map.1 hes'
        exact ⟨e', he', hstart, hgrant⟩
      · rw [List.mem_singleton.1 hes'] at hstart
        simp [Loop.own] at hstart
    · have hsame := (h.booked.handle _ (List.mem_append_left _ (List.mem_map_of_mem he'))
        (handle, r) hr).2 _ _ hrunning rfl
      exact (congrArg Prod.snd hsame).symm

end LoopStep

/-- **Admission and ownership.**  However the arms of the `select!` follow one another, and whatever
other parties do to the store in the meantime: no more deliveries are running than may be, a dispatch
admits no more than it may, no delivery is started while it is running, no grant is forgotten, and
an execution that comes back is settled once, under its own grant. -/
theorem consumer_owns (cfg : Settings) (env : Env) (acts : List Act) (inputs : List Input) :
    let run := (Loop.start (World.init.run env acts).1).run cfg env inputs
    run.1.running.size ≤ cfg.maxInFlight ∧
      ∀ log e rest, run.2 = log ++ e :: rest →
        e.Admits cfg ∧ e.StartsFresh ∧ e.KeepsGrants ∧ e.Completes log := by
  have hrun := @Machine.run_induction _ _ _ (Loop.step cfg env)
    (fun s log => Loop.Ok cfg (log.map fun e => e.after.own) { s with moments := [] } ∧
      ∀ log' e rest, log = log' ++ e :: rest →
        e.Admits cfg ∧ e.StartsFresh ∧ e.KeepsGrants ∧ e.Completes log') ?_
    (Loop.start (World.init.run env acts).1) [] inputs ⟨Loop.ok_start (World.run_inv env acts), by simp⟩
  · rw [List.nil_append] at hrun
    exact ⟨hrun.1.size, hrun.2⟩
  · rintro s log input ⟨hok, hlog⟩
    obtain ⟨hok', es, hes⟩ := hok.perform env input
    refine ⟨by simpa [Loop.step] using hok'.next, fun log' e rest heq => ?_⟩
    rcases split_concat heq with ⟨rfl, rfl, _⟩ | ⟨h₃, _, hold⟩
    · exact LoopStep.of_performed hok hok' hes
    · exact hlog log' e h₃ hold

end Fkst.Consumer
