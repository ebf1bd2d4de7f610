import Fkst.Consumer.Ephemeral

/-!
# The way of an ephemeral event

An event may be lost at the mailbox of a task, when that is full, and nowhere else: `ephemeral_flow` says that
what is accepted there is started in order, once each, or still under way, whatever goes on meanwhile, and
`ephemeral_drain` that what is under way gets through once its task and its department go on.
-/

set_option autoImplicit false

namespace Fkst.Consumer

open Lib
open Router (Fanout)

namespace Runtime

/-- The events that came from a task. -/
def comingFrom (i : ℕ) (entries : List (ℕ × Router.Event)) : List Router.Event :=
  (entries.filter (·.1 = i)).map (·.2)

/-- The events of a task that its department started executions for. -/
def started (w : Runtime) (i : ℕ) : List Router.Event :=
  ((w.forwarders[i]?).bind fun fwd => w.arms[fwd.dept]?).elim [] fun arm => comingFrom i arm.started

/-- The events of a task on their way: in the inbox of the department, in its hand, in its mailbox. -/
def pending (w : Runtime) (i : ℕ) : List Router.Event :=
  (w.forwarders[i]?).elim [] fun fwd =>
    (w.arms[fwd.dept]?).elim [] (fun arm => comingFrom i arm.inbox.items) ++ fwd.hand.toList ++
      (w.fanout.channels[fwd.channel]?).elim [] (·.items)

/-- The mailbox of a task accepts the event: it is of its queue, the lock is free, and there is room. -/
def accepts (w : Runtime) (i : ℕ) : Act → Option Router.Event
  | .send event false =>
    if (w.forwarders[i]?).any fun fwd => fwd.queue = event.queue ∧
      (w.fanout.channels[fwd.channel]?).any (·.HasRoom) then some event else none
  | _ => none

/-- The events that the mailbox of a task accepts in a run, in order. -/
def accepted (i : ℕ) : Runtime → List Act → List Router.Event
  | _, [] => []
  | w, act :: acts => (w.accepts i act).toList ++ accepted i (w.step act) acts

/-- The events that are sent in a run. -/
def sent (acts : List Act) : List Router.Event :=
  acts.filterMap fun | .send event _ => some event | _ => none

section Flow

variable {w : Runtime} {i : ℕ} {fwd : Forwarder} {arm : Arm} {m : Mailbox Router.Event}

theorem comingFrom_append (i : ℕ) (l l' : List (ℕ × Router.Event)) :
    comingFrom i (l ++ l') = comingFrom i l ++ comingFrom i l' := by
  rw [comingFrom, List.filter_append, List.map_append]
  rfl

theorem comingFrom_single (i j : ℕ) (event : Router.Event) :
    comingFrom i [(j, event)] = if j = i then [event] else [] := by
  by_cases h : j = i <;> simp [comingFrom, h]

theorem comingFrom_eq_nil {entries : List (ℕ × Router.Event)} (h : ∀ entry ∈ entries, entry.1 ≠ i) :
    comingFrom i entries = [] := by
  rw [comingFrom, List.map_eq_nil_iff, List.filter_eq_nil_iff]
  intro entry hentry
  simp [h entry hentry]

/-- The events of a task: started or on their way. -/
def flow (w : Runtime) (i : ℕ) : List Router.Event := w.started i ++ w.pending i

theorem flow_of_none (h : w.forwarders[i]? = none) : w.flow i = [] := by
  simp [flow, started, pending, h]

/-- A department that only got other contents of which the same came from the task keeps its flow. -/
theorem Placed.comingFrom_set (hp : Placed w fwd arm m) (arm₁ : Arm) {dept : ℕ} {arm₀ : Arm}
    (h₀ : w.arms[dept]? = some arm₀)
    (h : comingFrom i (arm₁.started ++ arm₁.inbox.items) = comingFrom i (arm₀.started ++ arm₀.inbox.items)) :
    ∃ arm', (w.arms.set dept arm₁)[fwd.dept]? = some arm' ∧
      comingFrom i (arm'.started ++ arm'.inbox.items) = comingFrom i (arm.started ++ arm.inbox.items) := by
  by_cases heq : fwd.dept = dept
  · subst heq
    obtain rfl := Option.some.inj (hp.dept.symm.trans h₀)
    exact ⟨arm₁, List.getElem?_set_self (List.getElem?_eq_some_iff.1 h₀).1, h⟩
  · exact ⟨arm, (List.getElem?_set_ne (Ne.symm heq)).trans hp.dept, rfl⟩

/-- The flow of a task, from where its parts are. -/
theorem flow_eq (h : w.forwarders[i]? = some fwd) (harm : w.arms[fwd.dept]? = some arm)
    (hm : w.fanout.channels[fwd.channel]? = some m) :
    w.flow i = comingFrom i (arm.started ++ arm.inbox.items) ++ fwd.hand.toList ++ m.items := by
  simp [flow, started, pending, h, harm, hm, comingFrom_append]

theorem flow_spawn (hw : Inv w) (queues : List String) (capacity : ℕ) (i : ℕ) :
    (w.step (.spawn queues capacity)).flow i = w.flow i := by
  cases h : w.forwarders[i]? with
  | none => rw [flow_of_none h, flow_of_none (by exact h)]
  | some fwd =>
    obtain ⟨arm, m, hp⟩ := hw.placed h
    have hdept : (w.arms ++ [⟨queues, queues, .empty capacity, []⟩])[fwd.dept]? = some arm :=
      (List.getElem?_append_left (List.getElem?_eq_some_iff.1 hp.dept).1).trans hp.dept
    rw [flow_eq h hp.dept hp.mailbox, flow_eq (by exact h) (by exact hdept) (by exact hp.mailbox)]

theorem flow_subscribe (hw : Inv w) (dept i : ℕ) : (w.subscribe dept).flow i = w.flow i := by
  rcases subscribe_cases w dept with heq | ⟨arm₀, queue, todo, h₀, htodo, hfanout, hforwarders, harms⟩
  · rw [heq]
  obtain ⟨_, hlast⟩ := w.fanout.subscribe_last queue arm₀.inbox.capacity
  cases h : (w.subscribe dept).forwarders[i]? with
  | none =>
    rw [flow_of_none h, flow_of_none]
    rw [hforwarders, List.getElem?_eq_none_iff, List.length_append] at h
    exact List.getElem?_eq_none_iff.2 (Nat.le_trans (Nat.le_add_right _ _) h)
  | some fwd =>
    rw [hforwarders] at h
    rcases get_concat_cases h with ⟨rfl, rfl⟩ | hold
    · -- nothing came from the new task yet
      have hnil : comingFrom w.forwarders.length (arm₀.started ++ arm₀.inbox.items) = [] :=
        comingFrom_eq_nil fun entry hentry => Nat.ne_of_lt (hw.tags h₀ entry hentry)
      have hset : (w.arms.set dept { arm₀ with todo := todo })[dept]? = some { arm₀ with todo := todo } :=
        List.getElem?_set_self (List.getElem?_eq_some_iff.1 h₀).1
      rw [flow_eq (hforwarders ▸ h) (harms ▸ hset) (hfanout ▸ hlast),
        flow_of_none (List.getElem?_eq_none (Nat.le_refl _)), hnil]
      rfl
    · obtain ⟨arm, m, hp⟩ := hw.placed hold
      obtain ⟨arm', harm', hsame⟩ := hp.comingFrom_set { arm₀ with todo := todo } h₀ (i := i) rfl
      have hm := (w.fanout.channels_subscribe queue arm₀.inbox.capacity hp.feeds.lt).trans hp.mailbox
      rw [flow_eq (hforwarders ▸ h) (harms ▸ harm') (hfanout ▸ hm), flow_eq hold hp.dept hp.mailbox, hsame]

theorem accepts_send (h : w.forwarders[i]? = some fwd) (hp : Placed w fwd arm m) (event : Router.Event) :
    w.accepts i (.send event false) = if fwd.queue = event.queue ∧ m.HasRoom then some event else none := by
  simp [accepts, h, hp.mailbox]

theorem flow_send (hw : Inv w) (event : Router.Event) (i : ℕ) :
    Runtime.flow { w with fanout := w.fanout.send event } i =
      w.flow i ++ (w.accepts i (.send event false)).toList := by
  cases h : w.forwarders[i]? with
  | none => simp [flow_of_none h, flow_of_none (w := { w with fanout := w.fanout.send event }) h, accepts, h]
  | some fwd =>
    obtain ⟨arm, m, hp⟩ := hw.placed h
    rw [accepts_send h hp, flow_eq h hp.dept hp.mailbox]
    rcases w.fanout.channels_send event fwd.channel with ⟨hfed, hget⟩ | ⟨hnot, hget⟩
    · rw [hp.mailbox, Option.map_some] at hget
      rw [flow_eq (by exact h) (by exact hp.dept) (by exact hget), Mailbox.items_trySend,
        ← List.append_assoc]
      by_cases hroom : m.HasRoom
      · rw [if_pos hroom, if_pos ⟨hp.feeds.eq hfed, hroom⟩]
        rfl
      · rw [if_neg hroom, if_neg fun hc => hroom hc.2]
        rfl
    · have hne : fwd.queue ≠ event.queue := fun heq => hnot (heq ▸ hp.feeds)
      rw [if_neg fun hc => hne hc.1, flow_eq (by exact h) (by exact hp.dept)
        (by exact hget.trans hp.mailbox)]
      exact (List.append_nil _).symm

theorem flow_take (hw : Inv w) (j i : ℕ) : (w.take j).flow i = w.flow i := by
  rcases take_cases w j with heq | ⟨fwd₀, event, fanout, h₀, hhand, hrecv, hfanout, hforwarders, harms⟩
  · rw [heq]
  obtain ⟨m₀, m₁, hm₀, hm, _, hm₁, hother⟩ := Fanout.recv_eq_some hrecv
  cases h : (w.take j).forwarders[i]? with
  | none =>
    rw [flow_of_none h, flow_of_none]
    rwa [hforwarders, List.getElem?_eq_none_iff, List.length_set, ← List.getElem?_eq_none_iff] at h
  | some fwd =>
    have h' := h
    rw [hforwarders] at h'
    rcases get_set_cases h' with ⟨rfl, rfl⟩ | ⟨hne, hold⟩
    · obtain ⟨arm, m, hp⟩ := hw.placed h₀
      rw [flow_eq h (harms ▸ hp.dept) (hfanout ▸ hm₁), flow_eq h₀ hp.dept hm₀, hhand,
        (Mailbox.recv_eq_some hm).1]
      simp
    · obtain ⟨arm, m, hp⟩ := hw.placed hold
      have hne' : fwd.channel ≠ fwd₀.channel := fun heq => hne (hw.channel hold h₀ heq)
      rw [flow_eq h (harms ▸ hp.dept) (hfanout ▸ (hother _ hne').trans hp.mailbox),
        flow_eq hold hp.dept hp.mailbox]

theorem flow_hand (hw : Inv w) (j i : ℕ) : (w.hand j).flow i = w.flow i := by
  rcases hand_cases w j with heq |
    ⟨fwd₀, event, arm₀, h₀, hhand, harm₀, hroom, hfanout, hforwarders, harms⟩
  · rw [heq]
  have hitems : (arm₀.inbox.trySend (j, event)).items = arm₀.inbox.items ++ [(j, event)] := by
    rw [Mailbox.items_trySend, if_pos hroom]
  cases h : (w.hand j).forwarders[i]? with
  | none =>
    rw [flow_of_none h, flow_of_none]
    rwa [hforwarders, List.getElem?_eq_none_iff, List.length_set, ← List.getElem?_eq_none_iff] at h
  | some fwd =>
    have h' := h
    rw [hforwarders] at h'
    rcases get_set_cases h' with ⟨rfl, rfl⟩ | ⟨hne, hold⟩
    · obtain ⟨arm, m, hp⟩ := hw.placed h₀
      obtain rfl := Option.some.inj (hp.dept.symm.trans harm₀)
      have hset : (w.arms.set fwd₀.dept { arm with inbox := arm.inbox.trySend (i, event) })[fwd₀.dept]? =
          some { arm with inbox := arm.inbox.trySend (i, event) } :=
        List.getElem?_set_self (List.getElem?_eq_some_iff.1 harm₀).1
      rw [flow_eq h (harms ▸ hset) (hfanout ▸ hp.mailbox), flow_eq h₀ hp.dept hp.mailbox, hhand, hitems,
        ← List.append_assoc, comingFrom_append _ _ [(i, event)], comingFrom_single, if_pos rfl]
      simp
    · obtain ⟨arm, m, hp⟩ := hw.placed hold
      obtain ⟨arm', harm', hsame⟩ := hp.comingFrom_set
        { arm₀ with inbox := arm₀.inbox.trySend (j, event) } harm₀ (i := i) (by
          rw [hitems, ← List.append_assoc, comingFrom_append _ _ [(j, event)], comingFrom_single,
            if_neg (Ne.symm hne), List.append_nil])
      rw [flow_eq h (harms ▸ harm') (hfanout ▸ hp.mailbox), flow_eq hold hp.dept hp.mailbox, hsame]

theorem flow_start (hw : Inv w) (dept i : ℕ) : (w.start dept).flow i = w.flow i := by
  rcases start_cases w dept with heq | ⟨arm₀, entry, inbox, h₀, hrecv, hfanout, hforwarders, harms⟩
  · rw [heq]
  obtain ⟨hitems, _⟩ := Mailbox.recv_eq_some hrecv
  have hqueue : arm₀.queues.contains entry.2.queue = true :=
    List.contains_iff_mem.2 (hw.inbox h₀ entry (hitems ▸ List.mem_cons_self))
  cases h : w.forwarders[i]? with
  | none => rw [flow_of_none h, flow_of_none (hforwarders ▸ h)]
  | some fwd =>
    obtain ⟨arm, m, hp⟩ := hw.placed h
    obtain ⟨arm', harm', hsame⟩ := hp.comingFrom_set
      { arm₀ with
        inbox := inbox
        started := arm₀.started ++ if arm₀.queues.contains entry.2.queue then [entry] else [] }
      h₀ (i := i) (by rw [if_pos hqueue, hitems, List.append_assoc]; rfl)
    rw [flow_eq (hforwarders ▸ h) (harms ▸ harm') (hfanout ▸ hp.mailbox), flow_eq h hp.dept hp.mailbox,
      hsame]

/-- **Each act** adds to the flow of a task what its mailbox accepts, and otherwise only moves it on. -/
theorem flow_step (hw : Inv w) (act : Act) (i : ℕ) :
    (w.step act).flow i = w.flow i ++ (w.accepts i act).toList := by
  cases act with
  | spawn queues capacity => simpa [accepts] using flow_spawn hw queues capacity i
  | subscribe dept => simpa [step, accepts] using flow_subscribe hw dept i
  | send event contended =>
    cases contended with
    | true => simp [step, accepts]
    | false => simpa [step] using flow_send hw event i
  | take j => simpa [step, accepts] using flow_take hw j i
  | hand j => simpa [step, accepts] using flow_hand hw j i
  | start dept => simpa [step, accepts] using flow_start hw dept i

theorem flow_run (acts : List Act) (i : ℕ) : ∀ {w : Runtime}, Inv w →
    (w.run acts).flow i = w.flow i ++ accepted i w acts := by
  induction acts with
  | nil => exact fun _ => (List.append_nil _).symm
  | cons act acts ih =>
    intro w hw
    rw [run, List.foldl_cons, ← run, ih (step_inv hw act), flow_step hw, List.append_assoc]
    rfl

/-- No more is on its way than fits into the mailbox, the hand and the inbox. -/
theorem pending_le (hp : Placed w fwd arm m) (h : w.forwarders[i]? = some fwd) :
    (w.pending i).length ≤ 2 * arm.inbox.capacity + 1 := by
  have hinbox : (comingFrom i arm.inbox.items).length ≤ arm.inbox.capacity := by
    rw [comingFrom, List.length_map]
    exact Nat.le_trans (List.length_filter_le _ _) arm.inbox.fits
  have hhand : fwd.hand.toList.length ≤ 1 := by cases fwd.hand <;> simp
  have hm : m.items.length ≤ arm.inbox.capacity := hp.capacity ▸ m.fits
  have heq : w.pending i = comingFrom i arm.inbox.items ++ fwd.hand.toList ++ m.items := by
    simp [pending, h, hp.dept, hp.mailbox]
  rw [heq, List.length_append, List.length_append]
  omega

/-- What is under way gets through once the task and its department go on.  The induction is on how many
moves are left: three for an event in the mailbox, two for one in the hand, one for one in the inbox. -/
theorem exists_drain (i : ℕ) : ∀ (n : ℕ) {w : Runtime} {fwd : Forwarder} {arm : Arm}
    {m : Mailbox Router.Event}, w.forwarders[i]? = some fwd → w.arms[fwd.dept]? = some arm →
    w.fanout.channels[fwd.channel]? = some m → 0 < arm.inbox.capacity →
    3 * m.items.length + 2 * fwd.hand.toList.length + arm.inbox.items.length ≤ n →
    ∃ acts : List Act, (∀ act ∈ acts, act = .take i ∨ act = .hand i ∨ act = .start fwd.dept) ∧
      (w.run acts).pending i = [] := by
  intro n
  induction n with
  | zero =>
    intro w fwd arm m h harm hm _ hn
    have hnil : m.items = [] ∧ fwd.hand.toList = [] ∧ arm.inbox.items = [] :=
      ⟨List.length_eq_zero_iff.1 (by omega), List.length_eq_zero_iff.1 (by omega),
        List.length_eq_zero_iff.1 (by omega)⟩
    exact ⟨[], by simp, by simp [run, pending, h, harm, hm, hnil, comingFrom]⟩
  | succ n ih =>
    intro w fwd arm m h harm hm hcap hn
    have hi : i < w.forwarders.length := (List.getElem?_eq_some_iff.1 h).1
    have hd : fwd.dept < w.arms.length := (List.getElem?_eq_some_iff.1 harm).1
    cases hrecv : arm.inbox.recv with
    | some got =>
      -- the department goes on
      obtain ⟨entry, inbox⟩ := got
      obtain ⟨hitems, hcap'⟩ := Mailbox.recv_eq_some hrecv
      rw [hitems, List.length_cons] at hn
      have hstep : w.step (.start fwd.dept) = _ := start_of harm hrecv
      obtain ⟨acts, hacts, hpending⟩ := ih (w := w.step (.start fwd.dept)) (by rw [hstep]; exact h)
        (by rw [hstep]; exact List.getElem?_set_self hd) (by rw [hstep]; exact hm) (by rw [hcap']; exact hcap)
        (Nat.le_of_succ_le_succ hn)
      exact ⟨.start fwd.dept :: acts, List.forall_mem_cons.2 ⟨by simp, hacts⟩, hpending⟩
    | none =>
      have hempty : arm.inbox.items = [] := Mailbox.recv_eq_none.1 hrecv
      cases hhand : fwd.hand with
      | some event =>
        -- the inbox is empty, so there is room for what the task has in hand
        have hroom : arm.inbox.HasRoom := by rw [Mailbox.HasRoom, hempty]; exact hcap
        rw [hhand, hempty] at hn
        have hstep : w.step (.hand i) = _ := hand_of h hhand harm hroom
        have hempty_hand : (w.step (.hand i)).forwarders[i]? = some { fwd with hand := none } := by
          rw [hstep]
          exact List.getElem?_set_self hi
        obtain ⟨acts, hacts, hpending⟩ := ih hempty_hand (by rw [hstep]; exact List.getElem?_set_self hd)
          (by rw [hstep]; exact hm) (by rw [Mailbox.capacity_trySend]; exact hcap)
          (by rw [Mailbox.items_trySend, if_pos hroom, hempty]; simp at hn ⊢; omega)
        exact ⟨.hand i :: acts, List.forall_mem_cons.2 ⟨by simp, hacts⟩, hpending⟩
      | none =>
        cases hrecv' : m.recv with
        | none =>
          have hnil : m.items = [] := Mailbox.recv_eq_none.1 hrecv'
          exact ⟨[], by simp, by simp [run, pending, h, harm, hm, hhand, hempty, hnil, comingFrom]⟩
        | some got =>
          obtain ⟨event, m'⟩ := got
          obtain ⟨hitems, _⟩ := Mailbox.recv_eq_some hrecv'
          rw [hitems, hhand, List.length_cons] at hn
          obtain ⟨fanout, hfanout⟩ := Fanout.recv_of_channel hm hrecv'
          obtain ⟨m₀, m₁, hm₀, hm₁, _, hnew, _⟩ := Fanout.recv_eq_some hfanout
          obtain rfl := Option.some.inj (hm₀.symm.trans hm)
          obtain rfl := (Prod.mk.inj (Option.some.inj (hm₁.symm.trans hrecv'))).2
          have hstep : w.step (.take i) = _ := take_of h hhand hfanout
          have hfull : (w.step (.take i)).forwarders[i]? = some { fwd with hand := some event } := by
            rw [hstep]
            exact List.getElem?_set_self hi
          obtain ⟨acts, hacts, hpending⟩ := ih hfull (by rw [hstep]; exact harm) (by rw [hstep]; exact hnew) hcap
            (by simp at hn ⊢; omega)
          exact ⟨.take i :: acts, List.forall_mem_cons.2 ⟨by simp, hacts⟩, hpending⟩

/-- What is accepted is sent, on the queue of the task. -/
theorem accepted_sublist (i : ℕ) : ∀ (acts : List Act) (w : Runtime),
    (accepted i w acts).Sublist (sent acts)
  | [], _ => List.Sublist.slnil
  | act :: acts, w => by
    have ih := accepted_sublist i acts (w.step act)
    cases act with
    | send event contended =>
      have hone : ((w.accepts i (.send event contended)).toList).Sublist [event] := by
        cases contended with
        | true => simp [accepts]
        | false =>
          rw [accepts]
          split <;> simp
      exact hone.append ih
    | spawn queues capacity => exact ih
    | subscribe dept => exact ih
    | take j => exact ih
    | hand j => exact ih
    | start dept => exact ih

/-- A task stays where it is. -/
theorem get_forwarder_step (act : Act) (h : w.forwarders[i]? = some fwd) :
    ∃ fwd', (w.step act).forwarders[i]? = some fwd' ∧ fwd'.dept = fwd.dept ∧ fwd'.queue = fwd.queue := by
  have hi : i < w.forwarders.length := (List.getElem?_eq_some_iff.1 h).1
  -- with other things in hand it is the same task
  have hset : ∀ {j : ℕ} {fwd₀ : Forwarder} {hand : Option Router.Event}, w.forwarders[j]? = some fwd₀ →
      ∃ fwd', (w.forwarders.set j { fwd₀ with hand := hand })[i]? = some fwd' ∧
        fwd'.dept = fwd.dept ∧ fwd'.queue = fwd.queue := by
    intro j fwd₀ hand h₀
    by_cases heq : i = j
    · subst heq
      obtain rfl := Option.some.inj (h₀.symm.trans h)
      exact ⟨_, List.getElem?_set_self hi, rfl, rfl⟩
    · exact ⟨fwd, (List.getElem?_set_ne (Ne.symm heq)).trans h, rfl, rfl⟩
  cases act with
  | spawn queues capacity => exact ⟨fwd, h, rfl, rfl⟩
  | send event contended =>
    rw [step]
    split <;> exact ⟨fwd, h, rfl, rfl⟩
  | subscribe dept =>
    rw [step]
    rcases subscribe_cases w dept with heq | ⟨_, _, _, _, _, _, hforwarders, _⟩
    · exact ⟨fwd, heq.symm ▸ h, rfl, rfl⟩
    · exact ⟨fwd, by rw [hforwarders, List.getElem?_append_left hi, h], rfl, rfl⟩
  | take j =>
    rw [step]
    rcases take_cases w j with heq | ⟨_, _, _, h₀, _, _, _, hforwarders, _⟩
    · exact ⟨fwd, heq.symm ▸ h, rfl, rfl⟩
    · rw [hforwarders]
      exact hset h₀
  | hand j =>
    rw [step]
    rcases hand_cases w j with heq | ⟨_, _, _, h₀, _, _, _, _, hforwarders, _⟩
    · exact ⟨fwd, heq.symm ▸ h, rfl, rfl⟩
    · rw [hforwarders]
      exact hset h₀
  | start dept =>
    rw [step]
    rcases start_cases w dept with heq | ⟨_, _, _, _, _, _, hforwarders, _⟩
    · exact ⟨fwd, heq.symm ▸ h, rfl, rfl⟩
    · exact ⟨fwd, hforwarders ▸ h, rfl, rfl⟩

theorem get_forwarder_run (acts : List Act) : ∀ {w : Runtime} {fwd : Forwarder},
    w.forwarders[i]? = some fwd →
    ∃ fwd', (w.run acts).forwarders[i]? = some fwd' ∧ fwd'.dept = fwd.dept ∧ fwd'.queue = fwd.queue := by
  induction acts with
  | nil => exact fun h => ⟨_, h, rfl, rfl⟩
  | cons act acts ih =>
    intro w fwd h
    obtain ⟨fwd₁, h₁, hdept₁, hqueue₁⟩ := get_forwarder_step act h
    obtain ⟨fwd₂, h₂, hdept₂, hqueue₂⟩ := ih h₁
    exact ⟨fwd₂, h₂, hdept₂.trans hdept₁, hqueue₂.trans hqueue₁⟩

/-- A mailbox accepts events of the queue of its task. -/
theorem queue_of_accepted : ∀ {acts : List Act} {w : Runtime} {event : Router.Event},
    event ∈ accepted i w acts → (w.run acts).forwarders[i]? = some fwd → event.queue = fwd.queue
  | [], _, _, h, _ => by cases h
  | act :: acts, w, event, h, hfwd => by
    rw [accepted, List.mem_append, Option.mem_toList] at h
    rcases h with h | h
    · cases act with
      | send event' contended =>
        cases contended with
        | true => cases h
        | false =>
          rw [accepts] at h
          split at h
          · rename_i hany
            obtain rfl := Option.some.inj h
            obtain ⟨fwd₀, h₀, hall⟩ := (Option.any_eq_true _ _).1 hany
            obtain ⟨fwd', h', _, hqueue⟩ := get_forwarder_run (.send event' false :: acts) h₀
            obtain rfl := Option.some.inj (h'.symm.trans hfwd)
            exact ((decide_eq_true_iff.1 hall).1).symm.trans hqueue.symm
          · cases h
      | spawn queues capacity => cases h
      | subscribe dept => cases h
      | take j => cases h
      | hand j => cases h
      | start dept => cases h
    · exact queue_of_accepted h hfwd

end Flow

/-- **No ephemeral event is lost, doubled or overtaken** past the mailbox.  In every run, the executions that a
department started for the events of a task, followed by what is on its way, are exactly the events that the
mailbox of the task accepted, in the order in which they were sent; and what is on its way is bounded. -/
theorem ephemeral_flow (acts : List Act) (i : ℕ) :
    (init.run acts).started i ++ (init.run acts).pending i = accepted i init acts ∧
      (accepted i init acts).Sublist (sent acts) ∧
      ∀ fwd, (init.run acts).forwarders[i]? = some fwd →
        (∀ event ∈ accepted i init acts, event.queue = fwd.queue) ∧
        ∃ arm, (init.run acts).arms[fwd.dept]? = some arm ∧ fwd.queue ∈ arm.queues ∧
          ((init.run acts).pending i).length ≤ 2 * arm.inbox.capacity + 1 := by
  refine ⟨flow_run acts i init_inv, accepted_sublist i acts init, fun fwd h => ⟨?_, ?_⟩⟩
  · exact fun event hevent => queue_of_accepted hevent h
  · obtain ⟨arm, m, hp⟩ := (run_inv acts init_inv).placed h
    exact ⟨arm, hp.dept, hp.queue, pending_le hp h⟩

/-- **No ephemeral event gets stuck.**  From every state of a run, moves of the task and of its department
alone get all of its accepted events started. -/
theorem ephemeral_drain {acts : List Act} {i : ℕ} {fwd : Forwarder} {arm : Arm}
    (h : (init.run acts).forwarders[i]? = some fwd) (harm : (init.run acts).arms[fwd.dept]? = some arm)
    (hcapacity : 0 < arm.inbox.capacity) :
    ∃ moves : List Act, (∀ act ∈ moves, act = .take i ∨ act = .hand i ∨ act = .start fwd.dept) ∧
      (init.run (acts ++ moves)).started i = accepted i init acts := by
  have hw := run_inv acts init_inv
  obtain ⟨arm', m, hp⟩ := hw.placed h
  obtain rfl := Option.some.inj (hp.dept.symm.trans harm)
  obtain ⟨moves, hmoves, hnil⟩ := exists_drain i _ h harm hp.mailbox hcapacity le_rfl
  refine ⟨moves, hmoves, ?_⟩
  -- no event is sent meanwhile
  have hnone : accepted i (init.run acts) moves = [] := by
    clear hnil
    generalize init.run acts = w
    induction moves generalizing w with
    | nil => rfl
    | cons act moves ih =>
      rw [accepted, ih (fun act' hact => hmoves act' (List.mem_cons_of_mem _ hact))]
      rcases hmoves act List.mem_cons_self with rfl | rfl | rfl <;> rfl
  have hflow := flow_run moves i hw
  rw [hnone, List.append_nil, flow, hnil, List.append_nil, flow_run acts i init_inv] at hflow
  rw [run, List.foldl_append]
  exact hflow

/-- A department with room for one event, to which two are sent. -/
def busyActs : List Act :=
  [.spawn ["tick"] 1, .subscribe 0, .send ⟨"tick", .string "one", 0⟩ false, .take 0,
    .send ⟨"tick", .string "two", 0⟩ false, .send ⟨"tick", .string "three", 0⟩ false]

theorem ephemeral_drain_busy : ∃ moves : List Act,
    (∀ act ∈ moves, act = .take 0 ∨ act = .hand 0 ∨ act = .start 0) ∧
      (init.run (busyActs ++ moves)).started 0 = accepted 0 init busyActs := by
  have hfwd : (init.run busyActs).forwarders[0]? = some ⟨0, "tick", 0, some ⟨"tick", .string "one", 0⟩⟩ := rfl
  have harm : (init.run busyActs).arms[0]? = some ⟨["tick"], [], .empty 1, []⟩ := rfl
  exact ephemeral_drain hfwd harm (by decide)

end Runtime

end Fkst.Consumer
