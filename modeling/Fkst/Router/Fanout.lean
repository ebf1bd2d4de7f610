import Fkst.Lib.Mailbox
import Fkst.Lib.Table
import Fkst.Router.QueueStarvation

/-!
# The fanout

`event_fanout.rs`: whoever consumes a queue ephemerally subscribes to it and has a mailbox of its own.  An
event goes to all mailboxes of its queue, and to none of another; where a mailbox is full it is dropped,
for that subscriber alone (`channels_send`).
-/

set_option autoImplicit false

namespace Fkst.Router

open Lib

/-- `Fanout`.  A channel is given by its number. -/
structure Fanout where
  senders : Table String (List ℕ)
  channels : List (Mailbox Event)
  nodup : ∀ (queue : String) (ids : List ℕ), senders[queue]? = some ids → ids.Nodup
  bounded : ∀ (queue : String) (ids : List ℕ), senders[queue]? = some ids →
    ∀ id ∈ ids, id < channels.length
  apart : ∀ (queue queue' : String) (ids ids' : List ℕ), senders[queue]? = some ids →
    senders[queue']? = some ids' → ∀ id ∈ ids, id ∈ ids' → queue = queue'

namespace Fanout

/-- `Fanout::new`. -/
def new : Fanout where
  senders := ∅
  channels := []
  nodup := by simp
  bounded := by simp
  apart := by simp

/-- The channel is subscribed to the queue. -/
def Feeds (f : Fanout) (queue : String) (id : ℕ) : Prop := ∃ ids, f.senders[queue]? = some ids ∧ id ∈ ids

theorem Feeds.lt {f : Fanout} {queue : String} {id : ℕ} (h : f.Feeds queue id) : id < f.channels.length := by
  obtain ⟨ids, hids, hid⟩ := h
  exact f.bounded queue ids hids id hid

theorem Feeds.eq {f : Fanout} {queue queue' : String} {id : ℕ} (h : f.Feeds queue id)
    (h' : f.Feeds queue' id) : queue = queue' := by
  obtain ⟨ids, hids, hid⟩ := h
  obtain ⟨ids', hids', hid'⟩ := h'
  exact f.apart queue queue' ids ids' hids hids' id hid hid'

/-- The map once one more channel is subscribed. -/
def sendersWith (senders : Table String (List ℕ)) (queue : String) (id : ℕ) : Table String (List ℕ) :=
  senders.insert queue ((senders[queue]?).getD [] ++ [id])

theorem get_sendersWith {senders : Table String (List ℕ)} {queue queue' : String} {id : ℕ} {ids : List ℕ}
    (h : (sendersWith senders queue id)[queue']? = some ids) :
    (queue' = queue ∧ ids = (senders[queue]?).getD [] ++ [id]) ∨ senders[queue']? = some ids := by
  rw [sendersWith, Table.get_insert] at h
  split at h
  · rename_i heq
    exact Or.inl ⟨heq, (Option.some.inj h).symm⟩
  · exact Or.inr h

/-- `Fanout::subscribe`.  The number of the channel is how many there were. -/
def subscribe (f : Fanout) (queue : String) (capacity : ℕ) : Fanout where
  senders := sendersWith f.senders queue f.channels.length
  channels := f.channels ++ [.empty capacity]
  nodup := by
    intro queue' ids h
    rcases get_sendersWith h with ⟨_, rfl⟩ | h
    · cases hids : f.senders[queue]? with
      | none => simp
      | some ids =>
        rw [Option.getD_some, List.nodup_append]
        refine ⟨f.nodup _ _ hids, by simp, ?_⟩
        rintro id hid _ hlast rfl
        exact absurd (f.bounded _ _ hids _ hid) (by simp at hlast; omega)
    · exact f.nodup _ _ h
  bounded := by
    intro queue' ids h id hid
    rw [List.length_append, List.length_singleton]
    rcases get_sendersWith h with ⟨_, rfl⟩ | h
    · rcases List.mem_append.1 hid with hid | hid
      · cases hids : f.senders[queue]? with
        | none => simp [hids] at hid
        | some ids =>
          rw [hids, Option.getD_some] at hid
          exact Nat.lt_succ_of_lt (f.bounded _ _ hids _ hid)
      · rw [List.mem_singleton.1 hid]
        exact Nat.lt_succ_self _
    · exact Nat.lt_succ_of_lt (f.bounded _ _ h _ hid)
  apart := by
    intro q q' ids ids' h h' id hid hid'
    -- a channel of a list is the new one, or was in the list before
    have hcases : ∀ {q : String} {ids : List ℕ},
        (sendersWith f.senders queue f.channels.length)[q]? = some ids → id ∈ ids →
        (q = queue ∧ id = f.channels.length) ∨ f.Feeds q id := by
      intro q ids h hid
      rcases get_sendersWith h with ⟨rfl, rfl⟩ | h
      · rcases List.mem_append.1 hid with hid | hid
        · cases hids : f.senders[q]? with
          | none => simp [hids] at hid
          | some ids =>
            rw [hids, Option.getD_some] at hid
            exact Or.inr ⟨ids, hids, hid⟩
        · exact Or.inl ⟨rfl, List.mem_singleton.1 hid⟩
      · exact Or.inr ⟨ids, h, hid⟩
    rcases hcases h hid with ⟨rfl, heq⟩ | hfeeds <;> rcases hcases h' hid' with ⟨rfl, heq'⟩ | hfeeds'
    · rfl
    · exact absurd hfeeds'.lt (by omega)
    · exact absurd hfeeds.lt (by omega)
    · exact hfeeds.eq hfeeds'

/-- Try to send to one channel after the other. -/
def sendAll (event : Event) (ids : List ℕ) (channels : List (Mailbox Event)) : List (Mailbox Event) :=
  ids.foldl (fun channels id => channels.modify id (·.trySend event)) channels

@[simp] theorem length_sendAll (event : Event) : ∀ (ids : List ℕ) (channels : List (Mailbox Event)),
    (sendAll event ids channels).length = channels.length
  | [], _ => rfl
  | id :: ids, channels => by
    rw [sendAll, List.foldl_cons, ← sendAll, length_sendAll event ids, List.length_modify]

/-- Each channel is tried once. -/
theorem get_sendAll (event : Event) (id : ℕ) : ∀ {ids : List ℕ} {channels : List (Mailbox Event)},
    ids.Nodup → (sendAll event ids channels)[id]? =
      if id ∈ ids then (channels[id]?).map (·.trySend event) else channels[id]?
  | [], _, _ => by simp [sendAll]
  | first :: ids, channels, h => by
    obtain ⟨hfirst, hnodup⟩ := List.nodup_cons.1 h
    rw [sendAll, List.foldl_cons, ← sendAll, get_sendAll event id hnodup, List.getElem?_modify]
    by_cases heq : first = id
    · subst heq
      rw [if_neg hfirst, if_pos List.mem_cons_self]
      cases channels[first]? with
      | none => rfl
      | some m => simp
    · have hmem : id ∈ first :: ids ↔ id ∈ ids := by
        rw [List.mem_cons]
        exact ⟨fun h => h.resolve_left (Ne.symm heq), Or.inr⟩
      simp only [hmem, if_neg heq]
      cases channels[id]? with
      | none => rfl
      | some m => rfl

/-- The fanout with other contents of its channels. -/
def withChannels (f : Fanout) (channels : List (Mailbox Event))
    (h : channels.length = f.channels.length) : Fanout :=
  { f with channels := channels, bounded := fun queue ids hids id hid => h ▸ f.bounded queue ids hids id hid }

/-- `Fanout::send`, once the lock is held. -/
def send (f : Fanout) (event : Event) : Fanout :=
  match f.senders[event.queue]? with
  | some ids => f.withChannels (sendAll event ids f.channels) (length_sendAll _ _ _)
  | none => f

/-- The receiver of a channel takes what came first. -/
def recv (f : Fanout) (id : ℕ) : Option (Event × Fanout) :=
  ((f.channels[id]?).bind Mailbox.recv).map fun (event, mailbox) =>
    (event, f.withChannels (f.channels.set id mailbox) (List.length_set ..))

section Lemmas

variable {f : Fanout} {event : Event} {queue : String} {id : ℕ}

theorem senders_send (f : Fanout) (event : Event) : (f.send event).senders = f.senders := by
  rw [send]
  split <;> rfl

/-- **Sending to one queue**: its channels take the event if they have room, all others stay. -/
theorem channels_send (f : Fanout) (event : Event) (id : ℕ) :
    (f.Feeds event.queue id ∧ (f.send event).channels[id]? = (f.channels[id]?).map (·.trySend event)) ∨
      (¬ f.Feeds event.queue id ∧ (f.send event).channels[id]? = f.channels[id]?) := by
  rw [send]
  cases hids : f.senders[event.queue]? with
  | none =>
    refine Or.inr ⟨?_, rfl⟩
    rintro ⟨ids, h, _⟩
    rw [hids] at h
    cases h
  | some ids =>
    have hget : (sendAll event ids f.channels)[id]? =
        if id ∈ ids then (f.channels[id]?).map (·.trySend event) else f.channels[id]? :=
      get_sendAll event id (f.nodup _ _ hids)
    by_cases hid : id ∈ ids
    · rw [if_pos hid] at hget
      exact Or.inl ⟨⟨ids, hids, hid⟩, hget⟩
    · rw [if_neg hid] at hget
      refine Or.inr ⟨?_, hget⟩
      rintro ⟨ids', h, hid'⟩
      obtain rfl := Option.some.inj (hids.symm.trans h)
      exact hid hid'

theorem channels_subscribe (f : Fanout) (queue : String) (capacity : ℕ) (h : id < f.channels.length) :
    (f.subscribe queue capacity).channels[id]? = f.channels[id]? :=
  List.getElem?_append_left h

theorem Feeds.subscribe (h : f.Feeds queue id) (queue' : String) (capacity : ℕ) :
    (f.subscribe queue' capacity).Feeds queue id := by
  obtain ⟨ids, hids, hid⟩ := h
  by_cases heq : queue = queue'
  · subst heq
    refine ⟨ids ++ [f.channels.length], ?_, List.mem_append_left _ hid⟩
    simp [Fanout.subscribe, sendersWith, hids]
  · refine ⟨ids, ?_, hid⟩
    simp [Fanout.subscribe, sendersWith, heq, hids]

/-- The new channel. -/
theorem subscribe_last (f : Fanout) (queue : String) (capacity : ℕ) :
    (f.subscribe queue capacity).Feeds queue f.channels.length ∧
      (f.subscribe queue capacity).channels[f.channels.length]? = some (.empty capacity) := by
  refine ⟨⟨(f.senders[queue]?).getD [] ++ [f.channels.length], ?_, ?_⟩, ?_⟩
  · simp [subscribe, sendersWith]
  · simp
  · simp [subscribe]

theorem recv_of_channel {m m' : Mailbox Event} (h : f.channels[id]? = some m)
    (hrecv : m.recv = some (event, m')) : ∃ f', f.recv id = some (event, f') := by
  rw [recv, h, Option.bind_some, hrecv]
  exact ⟨_, rfl⟩

/-- What receiving does. -/
theorem recv_eq_some {f' : Fanout} (h : f.recv id = some (event, f')) :
    ∃ m m', f.channels[id]? = some m ∧ m.recv = some (event, m') ∧ f'.senders = f.senders ∧
      f'.channels[id]? = some m' ∧ ∀ id', id' ≠ id → f'.channels[id']? = f.channels[id']? := by
  obtain ⟨⟨event', m'⟩, hbind, heq⟩ := Option.map_eq_some_iff.1 h
  obtain ⟨m, hm, hrecv⟩ := Option.bind_eq_some_iff.1 hbind
  obtain ⟨rfl, rfl⟩ := Prod.mk.inj heq
  have hlt : id < f.channels.length := (List.getElem?_eq_some_iff.1 hm).1
  exact ⟨m, m', hm, hrecv, rfl, List.getElem?_set_self hlt,
    fun id' hne => List.getElem?_set_ne (Ne.symm hne)⟩

end Lemmas

end Fanout

end Fkst.Router
