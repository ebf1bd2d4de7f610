import Fkst.Router.Fanout

/-!
# Ephemeral events

An ephemeral event is sent through the fanout to the mailbox that a department has for its queue.  A task of
its own, one for each queue that the department consumes ephemerally, takes it from there and puts it into
the inbox of the department, where it waits for room, and the department starts an execution for each event
of its inbox.  All of these go on at the same time.

`Runtime.Inv` says how mailboxes, tasks and departments belong together in every state of a run.
-/

set_option autoImplicit false

namespace Fkst.Consumer

open Lib
open Router (Fanout)

/-- The task that takes events from one mailbox, with the one it waits to hand on. -/
structure Forwarder where
  /-- The number of the department. -/
  dept : ℕ
  queue : String
  channel : ℕ
  hand : Option Router.Event

/-- The ephemeral side of a department.  With each event goes the number of the task that it came from, for
the statements alone: nothing here depends on it. -/
structure Arm where
  /-- `ephemeral_queues`. -/
  queues : List String
  /-- Those it has yet to subscribe to. -/
  todo : List String
  inbox : Mailbox (ℕ × Router.Event)
  /-- The events that it started executions for, in order. -/
  started : List (ℕ × Router.Event)

/-- The fanout, the tasks and the departments of a supervisor. -/
structure Runtime where
  fanout : Fanout
  forwarders : List Forwarder
  arms : List Arm

/-- What may happen next. -/
inductive Runtime.Act where
  /-- `spawn_consumer`. -/
  | spawn (queues : List String) (capacity : ℕ)
  /-- A department subscribes to its next queue. -/
  | subscribe (dept : ℕ)
  /-- `Fanout::send`, which fails if someone else has the lock. -/
  | send (event : Router.Event) (contended : Bool)
  /-- A task takes the next event of its mailbox. -/
  | take (i : ℕ)
  /-- It hands the event on. -/
  | hand (i : ℕ)
  /-- A department takes the next event of its inbox. -/
  | start (dept : ℕ)

namespace Runtime

/-- Before anything has happened. -/
def init : Runtime := ⟨.new, [], []⟩

/-- A department subscribes to its next queue, with a task for it. -/
def subscribe (w : Runtime) (dept : ℕ) : Runtime :=
  match w.arms[dept]? with
  | none => w
  | some arm =>
    match arm.todo with
    | [] => w
    | queue :: todo =>
      ⟨w.fanout.subscribe queue arm.inbox.capacity,
        w.forwarders ++ [⟨dept, queue, w.fanout.channels.length, none⟩],
        w.arms.set dept { arm with todo := todo }⟩

/-- A task with empty hands takes the next event of its mailbox. -/
def take (w : Runtime) (i : ℕ) : Runtime :=
  match w.forwarders[i]? with
  | none => w
  | some fwd =>
    match fwd.hand, w.fanout.recv fwd.channel with
    | none, some (event, fanout) =>
      { w with fanout := fanout, forwarders := w.forwarders.set i { fwd with hand := some event } }
    | _, _ => w

/-- A task hands its event on, if there is room in the inbox. -/
def hand (w : Runtime) (i : ℕ) : Runtime :=
  match w.forwarders[i]? with
  | none => w
  | some fwd =>
    match fwd.hand, w.arms[fwd.dept]? with
    | some event, some arm =>
      if arm.inbox.HasRoom then
        { w with
          forwarders := w.forwarders.set i { fwd with hand := none }
          arms := w.arms.set fwd.dept { arm with inbox := arm.inbox.trySend (i, event) } }
      else w
    | _, _ => w

/-- A department takes the next event of its inbox, and starts an execution if the queue is its own. -/
def start (w : Runtime) (dept : ℕ) : Runtime :=
  match w.arms[dept]? with
  | none => w
  | some arm =>
    match arm.inbox.recv with
    | none => w
    | some (entry, inbox) =>
      { w with
        arms := w.arms.set dept
          { arm with
            inbox := inbox
            started := arm.started ++ if arm.queues.contains entry.2.queue then [entry] else [] } }

/-- One act. -/
def step (w : Runtime) : Act → Runtime
  | .spawn queues capacity => { w with arms := w.arms ++ [⟨queues, queues, .empty capacity, []⟩] }
  | .subscribe dept => w.subscribe dept
  | .send event contended => if contended then w else { w with fanout := w.fanout.send event }
  | .take i => w.take i
  | .hand i => w.hand i
  | .start dept => w.start dept

/-- Acts one after the other. -/
def run (w : Runtime) (acts : List Act) : Runtime := acts.foldl step w

/-! ## What each act does -/

section Acts

variable (w : Runtime)

theorem take_of {w : Runtime} {i : ℕ} {fwd : Forwarder} {event : Router.Event} {fanout : Fanout}
    (h : w.forwarders[i]? = some fwd) (hhand : fwd.hand = none)
    (hrecv : w.fanout.recv fwd.channel = some (event, fanout)) :
    w.take i =
      { w with fanout := fanout, forwarders := w.forwarders.set i { fwd with hand := some event } } := by
  simp only [take, h, hhand, hrecv]

theorem hand_of {w : Runtime} {i : ℕ} {fwd : Forwarder} {event : Router.Event} {arm : Arm}
    (h : w.forwarders[i]? = some fwd) (hhand : fwd.hand = some event) (harm : w.arms[fwd.dept]? = some arm)
    (hroom : arm.inbox.HasRoom) :
    w.hand i =
      { w with
        forwarders := w.forwarders.set i { fwd with hand := none }
        arms := w.arms.set fwd.dept { arm with inbox := arm.inbox.trySend (i, event) } } := by
  simp only [hand, h, hhand, harm, if_pos hroom]

theorem start_of {w : Runtime} {dept : ℕ} {arm : Arm} {entry : ℕ × Router.Event}
    {inbox : Mailbox (ℕ × Router.Event)} (harm : w.arms[dept]? = some arm)
    (hrecv : arm.inbox.recv = some (entry, inbox)) :
    w.start dept =
      { w with
        arms := w.arms.set dept
          { arm with
            inbox := inbox
            started := arm.started ++ if arm.queues.contains entry.2.queue then [entry] else [] } } := by
  simp only [start, harm, hrecv]

theorem subscribe_cases (dept : ℕ) : w.subscribe dept = w ∨
    ∃ arm queue todo, w.arms[dept]? = some arm ∧ arm.todo = queue :: todo ∧
      (w.subscribe dept).fanout = w.fanout.subscribe queue arm.inbox.capacity ∧
      (w.subscribe dept).forwarders = w.forwarders ++ [⟨dept, queue, w.fanout.channels.length, none⟩] ∧
      (w.subscribe dept).arms = w.arms.set dept { arm with todo := todo } := by
  rw [subscribe]
  cases harm : w.arms[dept]? with
  | none => exact Or.inl rfl
  | some arm =>
    cases htodo : arm.todo with
    | nil => simp only [htodo]; exact Or.inl trivial
    | cons queue todo => simp only [htodo]; exact Or.inr ⟨arm, queue, todo, rfl, htodo, rfl, rfl, rfl⟩

theorem take_cases (i : ℕ) : w.take i = w ∨
    ∃ fwd event fanout, w.forwarders[i]? = some fwd ∧ fwd.hand = none ∧
      w.fanout.recv fwd.channel = some (event, fanout) ∧ (w.take i).fanout = fanout ∧
      (w.take i).forwarders = w.forwarders.set i { fwd with hand := some event } ∧
      (w.take i).arms = w.arms := by
  cases hfwd : w.forwarders[i]? with
  | none => exact Or.inl (by simp only [take, hfwd])
  | some fwd =>
    cases hhand : fwd.hand with
    | some event => exact Or.inl (by simp only [take, hfwd, hhand])
    | none =>
      cases hrecv : w.fanout.recv fwd.channel with
      | none => exact Or.inl (by simp only [take, hfwd, hhand, hrecv])
      | some got =>
        have heq := take_of hfwd hhand hrecv
        exact Or.inr ⟨fwd, got.1, got.2, rfl, hhand, hrecv, by rw [heq], by rw [heq], by rw [heq]⟩

theorem hand_cases (i : ℕ) : w.hand i = w ∨
    ∃ fwd event arm, w.forwarders[i]? = some fwd ∧ fwd.hand = some event ∧
      w.arms[fwd.dept]? = some arm ∧ arm.inbox.HasRoom ∧ (w.hand i).fanout = w.fanout ∧
      (w.hand i).forwarders = w.forwarders.set i { fwd with hand := none } ∧
      (w.hand i).arms = w.arms.set fwd.dept { arm with inbox := arm.inbox.trySend (i, event) } := by
  cases hfwd : w.forwarders[i]? with
  | none => exact Or.inl (by simp only [hand, hfwd])
  | some fwd =>
    cases hhand : fwd.hand with
    | none => exact Or.inl (by simp only [hand, hfwd, hhand])
    | some event =>
      cases harm : w.arms[fwd.dept]? with
      | none => exact Or.inl (by simp only [hand, hfwd, hhand, harm])
      | some arm =>
        by_cases hroom : arm.inbox.HasRoom
        · have heq := hand_of hfwd hhand harm hroom
          exact Or.inr ⟨fwd, event, arm, rfl, hhand, harm, hroom, by rw [heq], by rw [heq], by rw [heq]⟩
        · exact Or.inl (by simp only [hand, hfwd, hhand, harm, if_neg hroom])

theorem start_cases (dept : ℕ) : w.start dept = w ∨
    ∃ arm entry inbox, w.arms[dept]? = some arm ∧ arm.inbox.recv = some (entry, inbox) ∧
      (w.start dept).fanout = w.fanout ∧ (w.start dept).forwarders = w.forwarders ∧
      (w.start dept).arms = w.arms.set dept
        { arm with
          inbox := inbox
          started := arm.started ++ if arm.queues.contains entry.2.queue then [entry] else [] } := by
  cases harm : w.arms[dept]? with
  | none => exact Or.inl (by simp only [start, harm])
  | some arm =>
    cases hrecv : arm.inbox.recv with
    | none => exact Or.inl (by simp only [start, harm, hrecv])
    | some got =>
      have heq := start_of harm hrecv
      exact Or.inr ⟨arm, got.1, got.2, rfl, hrecv, by rw [heq], by rw [heq], by rw [heq]⟩

end Acts

/-! ## The invariant -/

/-- Where a task belongs: its mailbox is subscribed to its queue and holds events of that queue, as does its
hand, and its department consumes the queue. -/
structure Placed (w : Runtime) (fwd : Forwarder) (arm : Arm) (m : Mailbox Router.Event) : Prop where
  dept : w.arms[fwd.dept]? = some arm
  mailbox : w.fanout.channels[fwd.channel]? = some m
  feeds : w.fanout.Feeds fwd.queue fwd.channel
  queue : fwd.queue ∈ arm.queues
  capacity : m.capacity = arm.inbox.capacity
  items : ∀ event ∈ m.items, event.queue = fwd.queue
  hand : ∀ event ∈ fwd.hand, event.queue = fwd.queue

/-- How mailboxes, tasks and departments belong together. -/
structure Inv (w : Runtime) : Prop where
  placed : ∀ {i : ℕ} {fwd : Forwarder}, w.forwarders[i]? = some fwd → ∃ arm m, Placed w fwd arm m
  /-- No two tasks have a mailbox in common. -/
  channel : ∀ {i j : ℕ} {fwd fwd' : Forwarder}, w.forwarders[i]? = some fwd →
    w.forwarders[j]? = some fwd' → fwd.channel = fwd'.channel → i = j
  todo : ∀ {dept : ℕ} {arm : Arm}, w.arms[dept]? = some arm → ∀ queue ∈ arm.todo, queue ∈ arm.queues
  inbox : ∀ {dept : ℕ} {arm : Arm}, w.arms[dept]? = some arm →
    ∀ entry ∈ arm.inbox.items, entry.2.queue ∈ arm.queues
  /-- Events come from tasks there are. -/
  tags : ∀ {dept : ℕ} {arm : Arm}, w.arms[dept]? = some arm →
    ∀ entry ∈ arm.started ++ arm.inbox.items, entry.1 < w.forwarders.length

theorem init_inv : Inv init where
  placed h := by cases h
  channel h := by cases h
  todo h := by cases h
  inbox h := by cases h
  tags h := by cases h

/-- What is in a list once an item of it was replaced. -/
theorem get_set_cases {α : Type} {l : List α} {i j : ℕ} {a b : α} (h : (l.set i a)[j]? = some b) :
    (j = i ∧ b = a) ∨ (j ≠ i ∧ l[j]? = some b) := by
  rw [List.getElem?_set] at h
  split at h
  · rename_i heq
    split at h
    · exact Or.inl ⟨heq.symm, (Option.some.inj h).symm⟩
    · cases h
  · rename_i hne
    exact Or.inr ⟨Ne.symm hne, h⟩

/-- What is in a list once an item was put at its end. -/
theorem get_concat_cases {α : Type} {l : List α} {j : ℕ} {a b : α} (h : (l ++ [a])[j]? = some b) :
    (j = l.length ∧ b = a) ∨ l[j]? = some b := by
  rcases Nat.lt_trichotomy j l.length with hlt | rfl | hgt
  · exact Or.inr (by rwa [List.getElem?_append_left hlt] at h)
  · rw [List.getElem?_concat_length] at h
    exact Or.inl ⟨rfl, (Option.some.inj h).symm⟩
  · rw [List.getElem?_eq_none (by simp; omega)] at h
    cases h

section Steps

variable {w : Runtime}

theorem spawn_inv (hw : Inv w) (queues : List String) (capacity : ℕ) :
    Inv (w.step (.spawn queues capacity)) := by
  refine ⟨fun {i fwd} h => ?_, fun h h' => hw.channel h h', fun {dept arm} h => ?_, fun {dept arm} h => ?_,
    fun {dept arm} h => ?_⟩
  · obtain ⟨arm, m, hp⟩ := hw.placed h
    refine ⟨arm, m, { hp with dept := ?_ }⟩
    exact (List.getElem?_append_left (List.getElem?_eq_some_iff.1 hp.dept).1).trans hp.dept
  · rcases get_concat_cases h with ⟨_, rfl⟩ | h
    · exact fun queue hqueue => hqueue
    · exact hw.todo h
  · rcases get_concat_cases h with ⟨_, rfl⟩ | h
    · exact fun entry hentry => by cases hentry
    · exact hw.inbox h
  · rcases get_concat_cases h with ⟨_, rfl⟩ | h
    · exact fun entry hentry => by cases hentry
    · exact hw.tags h

/-- A department that got other contents has the same queues and the same capacity. -/
theorem get_set_arm (arm₁ : Arm) {arms : List Arm} {arm arm₀ : Arm} {dept d : ℕ} (h₀ : arms[dept]? = some arm₀)
    (hqueues : arm₁.queues = arm₀.queues) (hcapacity : arm₁.inbox.capacity = arm₀.inbox.capacity)
    (h : arms[d]? = some arm) :
    ∃ arm', (arms.set dept arm₁)[d]? = some arm' ∧ arm'.queues = arm.queues ∧
      arm'.inbox.capacity = arm.inbox.capacity := by
  by_cases heq : d = dept
  · subst heq
    obtain rfl := Option.some.inj (h.symm.trans h₀)
    exact ⟨arm₁, List.getElem?_set_self (List.getElem?_eq_some_iff.1 h).1, hqueues, hcapacity⟩
  · exact ⟨arm, (List.getElem?_set_ne (Ne.symm heq)).trans h, rfl, rfl⟩

theorem subscribe_inv (hw : Inv w) (dept : ℕ) : Inv (w.subscribe dept) := by
  rcases subscribe_cases w dept with heq | ⟨arm₀, queue, todo, h₀, htodo, hfanout, hforwarders, harms⟩
  · rwa [heq]
  have hqueue : ∀ q ∈ queue :: todo, q ∈ arm₀.queues := htodo ▸ hw.todo h₀
  obtain ⟨hfeeds, hlast⟩ := w.fanout.subscribe_last queue arm₀.inbox.capacity
  -- the mailbox of a task there was before is an old one
  have hlt : ∀ {i : ℕ} {fwd : Forwarder}, w.forwarders[i]? = some fwd → fwd.channel < w.fanout.channels.length := fun h => by
    obtain ⟨arm, m, hp⟩ := hw.placed h
    exact hp.feeds.lt
  refine ⟨fun {i fwd} h => ?_, fun {i j fwd fwd'} h h' hchannel => ?_, fun {d arm} h => ?_,
    fun {d arm} h => ?_, fun {d arm} h entry hentry => ?_⟩
  · rw [hforwarders] at h
    rcases get_concat_cases h with ⟨_, rfl⟩ | h
    · obtain ⟨arm, harm, hqs, hcap⟩ := get_set_arm { arm₀ with todo := todo } h₀ rfl rfl h₀
      exact ⟨arm, .empty arm₀.inbox.capacity, harms ▸ harm, hfanout ▸ hlast, hfanout ▸ hfeeds,
        hqs ▸ hqueue _ List.mem_cons_self, hcap.symm, by simp, by simp⟩
    · obtain ⟨arm, m, hp⟩ := hw.placed h
      obtain ⟨arm', harm', hqs, hcap⟩ := get_set_arm { arm₀ with todo := todo } h₀ rfl rfl hp.dept
      exact ⟨arm', m, harms ▸ harm', hfanout ▸ (w.fanout.channels_subscribe _ _ (hlt h)).trans hp.mailbox,
        hfanout ▸ hp.feeds.subscribe _ _, hqs ▸ hp.queue, hp.capacity.trans hcap.symm, hp.items, hp.hand⟩
  · rw [hforwarders] at h h'
    rcases get_concat_cases h with ⟨rfl, rfl⟩ | h <;> rcases get_concat_cases h' with ⟨rfl, rfl⟩ | h'
    · rfl
    · exact absurd (hlt h') (by rw [← hchannel]; exact lt_irrefl _)
    · exact absurd (hlt h) (by rw [hchannel]; exact lt_irrefl _)
    · exact hw.channel h h' hchannel
  · rw [harms] at h
    rcases get_set_cases h with ⟨rfl, rfl⟩ | ⟨_, h⟩
    · exact fun q hq => hqueue q (List.mem_cons_of_mem _ hq)
    · exact hw.todo h
  · rw [harms] at h
    rcases get_set_cases h with ⟨rfl, rfl⟩ | ⟨_, h⟩
    · exact fun entry hentry => hw.inbox h₀ entry hentry
    · exact hw.inbox h
  · rw [harms] at h
    rw [hforwarders, List.length_append]
    refine Nat.lt_of_lt_of_le ?_ (Nat.le_add_right _ _)
    rcases get_set_cases h with ⟨rfl, rfl⟩ | ⟨_, h⟩
    · exact hw.tags h₀ entry hentry
    · exact hw.tags h entry hentry

theorem send_inv (hw : Inv w) (event : Router.Event) : Inv { w with fanout := w.fanout.send event } := by
  refine ⟨fun {i fwd} h => ?_, fun h h' => hw.channel h h', fun h => hw.todo h, fun h => hw.inbox h,
    fun h => hw.tags h⟩
  obtain ⟨arm, m, hp⟩ := hw.placed h
  have hfeeds : (w.fanout.send event).Feeds fwd.queue fwd.channel := by
    rw [Fanout.Feeds, Fanout.senders_send]
    exact hp.feeds
  rcases w.fanout.channels_send event fwd.channel with ⟨hfed, hget⟩ | ⟨_, hget⟩
  · rw [hp.mailbox, Option.map_some] at hget
    refine ⟨arm, m.trySend event, hp.dept, hget, hfeeds, hp.queue,
      (m.capacity_trySend event).trans hp.capacity, fun ev hev => ?_, hp.hand⟩
    rw [Mailbox.items_trySend, List.mem_append] at hev
    rcases hev with hev | hev
    · exact hp.items ev hev
    · split at hev
      · rw [List.mem_singleton.1 hev]
        exact hfed.eq hp.feeds
      · cases hev
  · exact ⟨arm, m, hp.dept, hget.trans hp.mailbox, hfeeds, hp.queue, hp.capacity, hp.items, hp.hand⟩

theorem take_inv (hw : Inv w) (i : ℕ) : Inv (w.take i) := by
  rcases take_cases w i with heq | ⟨fwd₀, event, fanout, h₀, hhand, hrecv, hfanout, hforwarders, harms⟩
  · rwa [heq]
  obtain ⟨m₀, m₁, hm₀, hm, hsenders, hm₁, hother⟩ := Fanout.recv_eq_some hrecv
  obtain ⟨hitems, hcap⟩ := Mailbox.recv_eq_some hm
  have hfeeds : ∀ {queue id}, w.fanout.Feeds queue id → fanout.Feeds queue id := by
    intro queue id h
    rw [Fanout.Feeds, hsenders]
    exact h
  have hch : ∀ {j : ℕ} {fwd : Forwarder}, (w.take i).forwarders[j]? = some fwd →
      ∃ fwd', w.forwarders[j]? = some fwd' ∧ fwd'.channel = fwd.channel := by
    intro j fwd h
    rw [hforwarders] at h
    rcases get_set_cases h with ⟨rfl, rfl⟩ | ⟨_, h⟩
    · exact ⟨fwd₀, h₀, rfl⟩
    · exact ⟨fwd, h, rfl⟩
  refine ⟨fun {j fwd} h => ?_, fun {j k fwd fwd'} h h' hchannel => ?_, fun h => hw.todo (harms ▸ h),
    fun h => hw.inbox (harms ▸ h), fun h entry hentry => ?_⟩
  · rw [hforwarders] at h
    rcases get_set_cases h with ⟨rfl, rfl⟩ | ⟨hne, h⟩
    · obtain ⟨arm, m, hp⟩ := hw.placed h₀
      obtain rfl := Option.some.inj (hp.mailbox.symm.trans hm₀)
      have hall : ∀ ev ∈ event :: m₁.items, ev.queue = fwd₀.queue := hitems ▸ hp.items
      exact ⟨arm, m₁, harms ▸ hp.dept, hfanout ▸ hm₁, hfanout ▸ hfeeds hp.feeds, hp.queue,
        hcap.trans hp.capacity, fun ev hev => hall ev (List.mem_cons_of_mem _ hev),
        fun ev hev => hall ev (by rw [← Option.some.inj hev]; exact List.mem_cons_self)⟩
    · obtain ⟨arm, m, hp⟩ := hw.placed h
      have hne' : fwd.channel ≠ fwd₀.channel := fun heq => hne (hw.channel h h₀ heq)
      exact ⟨arm, m, harms ▸ hp.dept, hfanout ▸ (hother _ hne').trans hp.mailbox,
        hfanout ▸ hfeeds hp.feeds, hp.queue, hp.capacity, hp.items, hp.hand⟩
  · obtain ⟨fwd₁, h₁, heq⟩ := hch h
    obtain ⟨fwd₂, h₂, heq'⟩ := hch h'
    exact hw.channel h₁ h₂ (heq.trans (hchannel.trans heq'.symm))
  · rw [hforwarders, List.length_set]
    exact hw.tags (harms ▸ h) entry hentry

theorem hand_inv (hw : Inv w) (i : ℕ) : Inv (w.hand i) := by
  rcases hand_cases w i with heq |
    ⟨fwd₀, event, arm₀, h₀, hhand, harm₀, hroom, hfanout, hforwarders, harms⟩
  · rwa [heq]
  have hold : ∀ {j : ℕ} {fwd : Forwarder}, (w.hand i).forwarders[j]? = some fwd → ∃ fwd', w.forwarders[j]? = some fwd' ∧
      fwd'.dept = fwd.dept ∧ fwd'.queue = fwd.queue ∧ fwd'.channel = fwd.channel ∧
      ∀ event ∈ fwd.hand, event ∈ fwd'.hand := by
    intro j fwd h
    rw [hforwarders] at h
    rcases get_set_cases h with ⟨rfl, rfl⟩ | ⟨_, h⟩
    · exact ⟨fwd₀, h₀, rfl, rfl, rfl, fun event h => by cases h⟩
    · exact ⟨fwd, h, rfl, rfl, rfl, fun event h => h⟩
  refine ⟨fun {j fwd} h => ?_, fun {j k fwd fwd'} h h' hchannel => ?_, fun {d arm} h => ?_,
    fun {d arm} h => ?_, fun {d arm} h entry hentry => ?_⟩
  · obtain ⟨fwd', h', hdept, hqueue, hchannel, hin⟩ := hold h
    obtain ⟨arm, m, hp⟩ := hw.placed h'
    obtain ⟨arm', harm', hqs, hcap⟩ :=
      get_set_arm { arm₀ with inbox := arm₀.inbox.trySend (i, event) } harm₀ rfl
        (Mailbox.capacity_trySend _ _) hp.dept
    refine ⟨arm', m, ?_, ?_, ?_, ?_, hp.capacity.trans hcap.symm, ?_, ?_⟩
    · rw [harms, ← hdept, harm']
    · rw [hfanout, ← hchannel, hp.mailbox]
    · rw [hfanout, ← hchannel, ← hqueue]
      exact hp.feeds
    · rw [hqs, ← hqueue]
      exact hp.queue
    · rw [← hqueue]
      exact hp.items
    · rw [← hqueue]
      exact fun event hevent => hp.hand event (hin event hevent)
  · obtain ⟨fwd₁, h₁, _, _, heq, _⟩ := hold h
    obtain ⟨fwd₂, h₂, _, _, heq', _⟩ := hold h'
    exact hw.channel h₁ h₂ (heq.trans (hchannel.trans heq'.symm))
  · rw [harms] at h
    rcases get_set_cases h with ⟨rfl, rfl⟩ | ⟨_, h⟩
    · exact fun queue hqueue => hw.todo harm₀ queue hqueue
    · exact hw.todo h
  · rw [harms] at h
    rcases get_set_cases h with ⟨rfl, rfl⟩ | ⟨_, h⟩
    · intro entry hentry
      rw [Mailbox.items_trySend, if_pos hroom, List.mem_append, List.mem_singleton] at hentry
      rcases hentry with hentry | rfl
      · exact hw.inbox harm₀ entry hentry
      · -- the event is of the queue of the task, which the department consumes
        obtain ⟨arm, m, hp⟩ := hw.placed h₀
        obtain rfl := Option.some.inj (hp.dept.symm.trans harm₀)
        rw [hp.hand event hhand]
        exact hp.queue
    · exact hw.inbox h
  · rw [harms] at h
    rw [hforwarders, List.length_set]
    rcases get_set_cases h with ⟨rfl, rfl⟩ | ⟨_, h⟩
    · rw [Mailbox.items_trySend, if_pos hroom, ← List.append_assoc, List.mem_append,
        List.mem_singleton] at hentry
      rcases hentry with hentry | rfl
      · exact hw.tags harm₀ entry hentry
      · exact (List.getElem?_eq_some_iff.1 h₀).1
    · exact hw.tags h entry hentry

theorem start_inv (hw : Inv w) (dept : ℕ) : Inv (w.start dept) := by
  rcases start_cases w dept with heq | ⟨arm₀, entry, inbox, h₀, hrecv, hfanout, hforwarders, harms⟩
  · rwa [heq]
  obtain ⟨hitems, hcap⟩ := Mailbox.recv_eq_some hrecv
  refine ⟨fun {j fwd} h => ?_, fun h h' => hw.channel (hforwarders ▸ h) (hforwarders ▸ h'),
    fun {d arm} h => ?_, fun {d arm} h => ?_, fun {d arm} h => ?_⟩
  · obtain ⟨arm, m, hp⟩ := hw.placed (hforwarders ▸ h)
    obtain ⟨arm', harm', hqs, hcap'⟩ :=
      get_set_arm { arm₀ with
        inbox := inbox
        started := arm₀.started ++ if arm₀.queues.contains entry.2.queue then [entry] else [] }
        h₀ rfl hcap hp.dept
    exact ⟨arm', m, harms ▸ harm', hfanout ▸ hp.mailbox, hfanout ▸ hp.feeds, hqs ▸ hp.queue,
      hp.capacity.trans hcap'.symm, hp.items, hp.hand⟩
  · rw [harms] at h
    rcases get_set_cases h with ⟨rfl, rfl⟩ | ⟨_, h⟩
    · exact fun queue hqueue => hw.todo h₀ queue hqueue
    · exact hw.todo h
  · rw [harms] at h
    rcases get_set_cases h with ⟨rfl, rfl⟩ | ⟨_, h⟩
    · exact fun entry hentry => hw.inbox h₀ entry (hitems ▸ List.mem_cons_of_mem _ hentry)
    · exact hw.inbox h
  · rw [harms] at h
    rw [hforwarders]
    rcases get_set_cases h with ⟨rfl, rfl⟩ | ⟨_, h⟩
    · have hall := hw.tags h₀
      rw [hitems] at hall
      intro entry' hentry
      refine hall entry' ?_
      rcases List.mem_append.1 hentry with hentry | hentry
      · rcases List.mem_append.1 hentry with hentry | hentry
        · exact List.mem_append_left _ hentry
        · split at hentry
          · exact List.mem_append_right _ (List.mem_singleton.1 hentry ▸ List.mem_cons_self)
          · cases hentry
      · exact List.mem_append_right _ (List.mem_cons_of_mem _ hentry)
    · exact hw.tags h

/-- **Each act keeps the invariant.** -/
theorem step_inv (hw : Inv w) (act : Act) : Inv (w.step act) := by
  cases act with
  | spawn queues capacity => exact spawn_inv hw queues capacity
  | subscribe dept => exact subscribe_inv hw dept
  | send event contended =>
    rw [step]
    split
    · exact hw
    · exact send_inv hw event
  | take i => exact take_inv hw i
  | hand i => exact hand_inv hw i
  | start dept => exact start_inv hw dept

theorem run_inv (acts : List Act) : ∀ {w : Runtime}, Inv w → Inv (w.run acts) := by
  induction acts with
  | nil => exact fun hw => hw
  | cons act acts ih => exact fun hw => ih (step_inv hw act)

end Steps

end Runtime

end Fkst.Consumer
