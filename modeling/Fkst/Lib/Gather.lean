import Mathlib.Logic.Function.Basic
import Mathlib.Data.List.Basic

/-!
# Gathering what several sources write

Each source has a pipe and a task that reads it and sends what it reads, piece by piece, into one channel.
One more task waits for a single event, the end, and announces it in the same channel.  A receiver takes
messages from the channel, and may hang up.

`Gather.Inv` says where the items of a source are: with the receiver, in the channel or in the pipe; and
where the announcement is.  It holds whatever the order of the moves (`run_inv`).  A task whose pipe is
closed comes to its end (`read_ends`).
-/

set_option autoImplicit false

namespace Lib

variable {ι β ε : Type}

inductive Gather.Message (ι β ε : Type) where
  | piece (source : ι) (items : List β) (sentAt : ℕ)
  | ended (result : ε) (sentAt : ℕ)

structure Gather (ι β ε : Type) where
  now : ℕ
  /-- All that a source has ever written. -/
  written : ι → List β
  pipe : ι → List β
  /-- Nobody has the pipe open for writing. -/
  closed : ι → Bool
  /-- The task of a source is at work. -/
  reading : ι → Bool
  /-- The task of a source gave up before the end of the pipe. -/
  broken : ι → Bool
  /-- The event, once it has happened. -/
  result : Option ε
  /-- The task that waits for the event is at work. -/
  waiting : Bool
  channel : List (Gather.Message ι β ε)
  /-- The receiver has not hung up. -/
  receiving : Bool
  /-- What the receiver took of a source. -/
  got : ι → List β
  /-- The announcement that the receiver took, with its time. -/
  told : Option (ε × ℕ)

namespace Gather

/-- A move of the sources and of the tasks. -/
inductive Move (ι β ε : Type) where
  | tick (time : ℕ)
  | write (source : ι) (items : List β)
  | close (source : ι)
  | finish (result : ε)
  /-- A task reads so many items, or finds the end of the pipe. -/
  | read (source : ι) (count : ℕ)
  | readError (source : ι)
  | wait

/-- A move of a task. -/
def Move.OfTask : Move ι β ε → Prop
  | .read _ _ => True
  | .wait => True
  | _ => False

/-- At the start nothing is written. -/
def start (now : ℕ) : Gather ι β ε where
  now := now
  written := fun _ => []
  pipe := fun _ => []
  closed := fun _ => false
  reading := fun _ => true
  broken := fun _ => false
  result := none
  waiting := true
  channel := []
  receiving := true
  got := fun _ => []
  told := none

section Moves

variable [DecidableEq ι]

/-- A task ends. -/
def stop (g : Gather ι β ε) (source : ι) : Gather ι β ε :=
  { g with reading := Function.update g.reading source false }

/-- A task has read the first items of the pipe, and sends them.  When it finds that the receiver has hung up
it ends; nobody takes what is in the channel then. -/
def send (g : Gather ι β ε) (source : ι) (count : ℕ) : Gather ι β ε :=
  let g' :=
    { g with
      pipe := Function.update g.pipe source ((g.pipe source).drop count)
      channel := g.channel ++ [.piece source ((g.pipe source).take count) g.now] }
  if g.receiving then g' else { g'.stop source with broken := Function.update g.broken source true }

def step (g : Gather ι β ε) : Move ι β ε → Gather ι β ε
  | .tick time => { g with now := g.now + time }
  | .write source items =>
    if g.closed source then g
    else
      { g with
        written := Function.update g.written source (g.written source ++ items)
        pipe := Function.update g.pipe source (g.pipe source ++ items) }
  | .close source => { g with closed := Function.update g.closed source true }
  | .finish result => if g.result.isSome then g else { g with result := some result }
  | .read source count =>
    if g.reading source then
      if g.pipe source = [] then if g.closed source then g.stop source else g
      else if count = 0 then g
      else g.send source count
    else g
  | .readError source =>
    if g.reading source then { g.stop source with broken := Function.update g.broken source true } else g
  | .wait =>
    match g.result with
    | some result =>
      if g.waiting then { g with waiting := false, channel := g.channel ++ [.ended result g.now] } else g
    | none => g

def run (g : Gather ι β ε) (moves : List (Move ι β ε)) : Gather ι β ε := moves.foldl step g

/-- The receiver takes the next message. -/
def take (g : Gather ι β ε) : Gather ι β ε :=
  match g.channel with
  | [] => g
  | .piece source items _ :: channel =>
    { g with channel := channel, got := Function.update g.got source (g.got source ++ items) }
  | .ended result sentAt :: channel => { g with channel := channel, told := some (result, sentAt) }

/-- The receiver takes so many messages. -/
def takeN (g : Gather ι β ε) : ℕ → Gather ι β ε
  | 0 => g
  | n + 1 => takeN g.take n

/-- The receiver hangs up. -/
def hangUp (g : Gather ι β ε) : Gather ι β ε := { g with receiving := false }

end Moves

/-! ## What the channel carries -/

section Channel

/-- A message that a task can have sent at such a time: no empty piece. -/
def Message.Sent (since now : ℕ) : Message ι β ε → Prop
  | .piece _ items sentAt => items ≠ [] ∧ since ≤ sentAt ∧ sentAt ≤ now
  | .ended _ sentAt => since ≤ sentAt ∧ sentAt ≤ now

/-- The announcements in a channel. -/
def endsOf (channel : List (Message ι β ε)) : List (ε × ℕ) :=
  channel.filterMap fun
    | .piece _ _ _ => none
    | .ended result sentAt => some (result, sentAt)

theorem Message.Sent.mono {since now now' : ℕ} (hnow : now ≤ now') :
    ∀ {message : Message ι β ε}, message.Sent since now → message.Sent since now'
  | .piece _ _ _, ⟨hitems, hsince, hle⟩ => ⟨hitems, hsince, Nat.le_trans hle hnow⟩
  | .ended _ _, ⟨hsince, hle⟩ => ⟨hsince, Nat.le_trans hle hnow⟩

variable {channel : List (Message ι β ε)}

@[simp] theorem endsOf_nil : endsOf ([] : List (Message ι β ε)) = [] := rfl

@[simp] theorem endsOf_piece (other : ι) (items : List β) (sentAt : ℕ) :
    endsOf (.piece other items sentAt :: channel) = endsOf channel := rfl

@[simp] theorem endsOf_ended (result : ε) (sentAt : ℕ) :
    endsOf (.ended result sentAt :: channel) = (result, sentAt) :: endsOf channel := rfl

@[simp] theorem endsOf_append (channel' : List (Message ι β ε)) :
    endsOf (channel ++ channel') = endsOf channel ++ endsOf channel' :=
  List.filterMap_append

variable [DecidableEq ι] {source : ι}

/-- What a source has in a channel. -/
def piecesOf (source : ι) (channel : List (Message ι β ε)) : List β :=
  channel.flatMap fun
    | .piece other items _ => if other = source then items else []
    | .ended _ _ => []

@[simp] theorem piecesOf_nil : piecesOf source ([] : List (Message ι β ε)) = [] := rfl

@[simp] theorem piecesOf_piece (other : ι) (items : List β) (sentAt : ℕ) :
    piecesOf source (.piece other items sentAt :: channel) =
      (if other = source then items else []) ++ piecesOf source channel := rfl

@[simp] theorem piecesOf_ended (result : ε) (sentAt : ℕ) :
    piecesOf source (.ended result sentAt :: channel) = piecesOf source channel := rfl

@[simp] theorem piecesOf_append (channel' : List (Message ι β ε)) :
    piecesOf source (channel ++ channel') = piecesOf source channel ++ piecesOf source channel' :=
  List.flatMap_append

end Channel

/-! ## The invariant -/

section Inv

variable [DecidableEq ι] {since : ℕ} {g g' : Gather ι β ε}

structure Inv (since : ℕ) (g : Gather ι β ε) : Prop where
  started : since ≤ g.now
  /-- A task ends at the end of its pipe, or it gives up. -/
  ended : ∀ source, g.reading source = false → g.broken source = false →
    g.closed source = true ∧ g.pipe source = []
  sent : ∀ message ∈ g.channel, message.Sent since g.now
  /-- Every item is somewhere, and in order. -/
  whole : ∀ source, g.got source ++ piecesOf source g.channel ++ g.pipe source = g.written source
  /-- The event is announced when the task has seen it, and once. -/
  announced : if g.waiting then g.told.toList ++ endsOf g.channel = []
    else ∃ result sentAt, g.result = some result ∧ g.told.toList ++ endsOf g.channel = [(result, sentAt)] ∧
      since ≤ sentAt ∧ sentAt ≤ g.now

theorem start_inv (now : ℕ) : (start now : Gather ι β ε).Inv now where
  started := Nat.le_refl now
  ended := fun _ h => by cases h
  sent := fun _ h => by cases h
  whole := fun _ => rfl
  announced := rfl

/-- Nothing is announced between two states, and time goes on. -/
theorem Inv.announced_of (h : g.Inv since) (hnow : g.now ≤ g'.now) (hwaiting : g'.waiting = g.waiting)
    (hresult : ∀ result, g.result = some result → g'.result = some result)
    (hends : g'.told.toList ++ endsOf g'.channel = g.told.toList ++ endsOf g.channel) :
    if g'.waiting then g'.told.toList ++ endsOf g'.channel = []
    else ∃ result sentAt, g'.result = some result ∧ g'.told.toList ++ endsOf g'.channel = [(result, sentAt)] ∧
      since ≤ sentAt ∧ sentAt ≤ g'.now := by
  have hannounced := h.announced
  rw [hwaiting, hends]
  split at hannounced
  · rwa [if_pos ‹_›]
  · rw [if_neg ‹_›]
    obtain ⟨result, sentAt, hres, hone, hsince, hle⟩ := hannounced
    exact ⟨result, sentAt, hresult result hres, hone, hsince, Nat.le_trans hle hnow⟩

theorem tick_inv (h : g.Inv since) (time : ℕ) : ({ g with now := g.now + time } : Gather ι β ε).Inv since where
  started := Nat.le_trans h.started (Nat.le_add_right _ _)
  ended := h.ended
  sent := fun message hmessage => (h.sent message hmessage).mono (Nat.le_add_right _ _)
  whole := h.whole
  announced := h.announced_of (Nat.le_add_right _ _) rfl (fun _ => id) rfl

theorem write_inv (h : g.Inv since) {source : ι} (hopen : g.closed source = false) (items : List β) :
    ({ g with
      written := Function.update g.written source (g.written source ++ items)
      pipe := Function.update g.pipe source (g.pipe source ++ items) } : Gather ι β ε).Inv since where
  started := h.started
  ended := fun other hreading hbroken => by
    obtain ⟨hclosed, hempty⟩ := h.ended other hreading hbroken
    have hother : other ≠ source := fun heq => by
      rw [heq, hopen] at hclosed
      cases hclosed
    exact ⟨hclosed, (Function.update_of_ne hother ..).trans hempty⟩
  sent := h.sent
  whole := fun other => by
    by_cases hother : other = source
    · subst hother
      simp only [Function.update_self]
      rw [← h.whole other]
      simp only [List.append_assoc]
    · simp only [Function.update_of_ne hother]
      exact h.whole other
  announced := h.announced_of (Nat.le_refl _) rfl (fun _ => id) rfl

theorem close_inv (h : g.Inv since) (source : ι) :
    ({ g with closed := Function.update g.closed source true } : Gather ι β ε).Inv since :=
  { h with
    ended := fun other hreading hbroken => by
      refine (h.ended other hreading hbroken).imp_left fun hclosed => ?_
      by_cases hother : other = source
      · subst hother
        exact Function.update_self ..
      · exact (Function.update_of_ne hother ..).trans hclosed
    announced := h.announced_of (Nat.le_refl _) rfl (fun _ => id) rfl }

theorem finish_inv (h : g.Inv since) (hresult : g.result = none) (result : ε) :
    ({ g with result := some result } : Gather ι β ε).Inv since :=
  { h with announced := h.announced_of (Nat.le_refl _) rfl (fun _ h => by rw [hresult] at h; cases h) rfl }

/-- A task ends, at the end of its pipe or because it gives up. -/
theorem stop_inv (h : g.Inv since) {source : ι} {broken : ι → Bool}
    (hbroken : ∀ other, other ≠ source → broken other = g.broken other)
    (hend : broken source = false → g.closed source = true ∧ g.pipe source = []) :
    ({ g.stop source with broken := broken } : Gather ι β ε).Inv since :=
  { h with
    ended := fun other hreading hother => by
      by_cases heq : other = source
      · subst heq
        exact hend hother
      · exact h.ended other ((Function.update_of_ne heq ..).symm.trans hreading) ((hbroken other heq).symm.trans hother)
    announced := h.announced_of (Nat.le_refl _) rfl (fun _ => id) rfl }

theorem giveUp_inv (h : g.Inv since) (source : ι) :
    ({ g.stop source with broken := Function.update g.broken source true } : Gather ι β ε).Inv since :=
  stop_inv h (fun _ hother => Function.update_of_ne hother ..) fun hbroken => by
    rw [Function.update_self] at hbroken
    cases hbroken

theorem send_inv (h : g.Inv since) {source : ι} {count : ℕ} (hreading : g.reading source = true)
    (hpipe : g.pipe source ≠ []) (hcount : count ≠ 0) : (g.send source count).Inv since := by
  have hsent : ({ g with
      pipe := Function.update g.pipe source ((g.pipe source).drop count)
      channel := g.channel ++ [.piece source ((g.pipe source).take count) g.now] } : Gather ι β ε).Inv since :=
    { started := h.started
      ended := fun other hother hbroken => by
        have hne : other ≠ source := fun heq => by
          rw [← heq, show g.reading other = false from hother] at hreading
          cases hreading
        exact (h.ended other hother hbroken).imp_right (Function.update_of_ne hne ..).trans
      sent := fun message hmessage => by
        rcases List.mem_append.1 hmessage with hold | hnew
        · exact h.sent message hold
        · obtain rfl := List.mem_singleton.1 hnew
          refine ⟨fun hnil => ?_, h.started, Nat.le_refl _⟩
          exact (List.take_eq_nil_iff.1 hnil).elim hcount hpipe
      whole := fun other => by
        have hwhole := h.whole other
        simp only [piecesOf_append, piecesOf_piece, piecesOf_nil, List.append_nil]
        by_cases hother : other = source
        · subst hother
          rw [if_pos rfl, Function.update_self]
          simpa only [List.append_assoc, List.take_append_drop] using hwhole
        · rw [if_neg (Ne.symm hother), Function.update_of_ne hother, List.append_nil]
          exact hwhole
      announced := h.announced_of (Nat.le_refl _) rfl (fun _ => id) (by simp) }
  rw [send]
  split
  · exact hsent
  · exact giveUp_inv hsent source

theorem wait_inv (h : g.Inv since) {result : ε} (hresult : g.result = some result) (hwaiting : g.waiting = true) :
    ({ g with waiting := false, channel := g.channel ++ [.ended result g.now] } : Gather ι β ε).Inv since where
  started := h.started
  ended := h.ended
  sent := fun message hmessage => by
    rcases List.mem_append.1 hmessage with hold | hnew
    · exact h.sent message hold
    · obtain rfl := List.mem_singleton.1 hnew
      exact ⟨h.started, Nat.le_refl _⟩
  whole := fun source => by simpa using h.whole source
  announced := by
    have hnone := h.announced
    rw [if_pos hwaiting, List.append_eq_nil_iff] at hnone
    exact ⟨result, g.now, hresult, by simp [hnone.1, hnone.2], h.started, Nat.le_refl _⟩

/-- **Every move keeps the invariant.** -/
theorem step_inv (h : g.Inv since) (move : Move ι β ε) : (g.step move).Inv since := by
  cases move with
  | tick time => exact tick_inv h time
  | write source items =>
    rw [step]
    split
    · exact h
    · exact write_inv h (Bool.eq_false_iff.2 ‹_›) items
  | close source => exact close_inv h source
  | finish result =>
    rw [step]
    split
    · exact h
    · rename_i hnone
      exact finish_inv h (by simpa using hnone) result
  | read source count =>
    rw [step]
    split
    · split
      · split
        · exact stop_inv h (fun _ _ => rfl) fun _ => ⟨‹_›, ‹_›⟩
        · exact h
      · split
        · exact h
        · exact send_inv h ‹_› ‹_› ‹_›
    · exact h
  | readError source =>
    rw [step]
    split
    · exact giveUp_inv h source
    · exact h
  | wait =>
    rw [step]
    split
    · split
      · exact wait_inv h ‹_› ‹_›
      · exact h
    · exact h

theorem run_inv (h : g.Inv since) (moves : List (Move ι β ε)) : (g.run moves).Inv since := by
  induction moves generalizing g with
  | nil => exact h
  | cons move moves ih => exact ih (step_inv h move)

theorem take_inv (h : g.Inv since) : g.take.Inv since := by
  have hannounced := h.announced
  rw [take]
  cases hchannel : g.channel with
  | nil => exact h
  | cons message channel =>
    have hsent : ∀ message ∈ channel, message.Sent since g.now := fun message hmessage =>
      h.sent message (hchannel ▸ List.mem_cons_of_mem _ hmessage)
    rw [hchannel] at hannounced
    cases message with
    | piece source items sentAt =>
      refine { h with sent := hsent, whole := fun other => ?_, announced := hannounced }
      have hwhole := h.whole other
      rw [hchannel, piecesOf_piece] at hwhole
      by_cases hother : other = source
      · subst hother
        rw [if_pos rfl] at hwhole
        simp only [Function.update_self]
        simpa only [List.append_assoc] using hwhole
      · rw [if_neg (Ne.symm hother), List.nil_append] at hwhole
        simp only [Function.update_of_ne hother]
        exact hwhole
    | ended result sentAt =>
      refine { h with sent := hsent, whole := fun other => ?_, announced := ?_ }
      · have hwhole := h.whole other
        rwa [hchannel, piecesOf_ended] at hwhole
      · split at hannounced
        · simp at hannounced
        · rw [if_neg ‹_›]
          obtain ⟨result', sentAt', hresult, hone, hle⟩ := hannounced
          rw [endsOf_ended] at hone
          -- there is one announcement, so there was none before
          obtain ⟨hnone, hhead⟩ := List.append_eq_singleton_iff.1 hone |>.resolve_right (by simp)
          obtain ⟨heq, hrest⟩ := List.cons.inj hhead
          exact ⟨result', sentAt', hresult, by simp [heq, hrest], hle⟩

theorem takeN_inv : ∀ (n : ℕ) {g : Gather ι β ε}, g.Inv since → (g.takeN n).Inv since
  | 0, _, h => h
  | n + 1, _, h => takeN_inv n (take_inv h)

theorem hangUp_inv (h : g.Inv since) : g.hangUp.Inv since := { h with }

end Inv

/-! ## The receiver -/

section Receiver

variable [DecidableEq ι] {since : ℕ} {g g' : Gather ι β ε}

/-- What the receiver has of a source is the beginning of what was written. -/
theorem Inv.got_prefix (h : g.Inv since) (source : ι) : g.got source <+: g.written source :=
  ⟨piecesOf source g.channel ++ g.pipe source, by rw [← List.append_assoc, h.whole source]⟩

/-- **A source is gathered** when its task has ended, without giving up, and the channel is empty. -/
theorem Inv.got_eq (h : g.Inv since) {source : ι} (hchannel : g.channel = []) (hreading : g.reading source = false)
    (hbroken : g.broken source = false) : g.closed source = true ∧ g.got source = g.written source := by
  obtain ⟨hclosed, hempty⟩ := h.ended source hreading hbroken
  have hwhole := h.whole source
  rw [hchannel, hempty, piecesOf_nil, List.append_nil, List.append_nil] at hwhole
  exact ⟨hclosed, hwhole⟩

/-- A receiver that was not told of the end will be. -/
theorem Inv.channel_ne_nil (h : g.Inv since) (hwaiting : g.waiting = false) (htold : g.told = none) :
    g.channel ≠ [] := fun hnil => by
  have hannounced := h.announced
  rw [if_neg (by simp [hwaiting]), htold, hnil] at hannounced
  obtain ⟨result, sentAt, _, hone, _⟩ := hannounced
  cases hone

/-- The announcement in the channel is the first that the receiver sees. -/
theorem Inv.told_of_ended (h : g.Inv since) {result : ε} {sentAt : ℕ} {channel : List (Message ι β ε)}
    (hchannel : g.channel = .ended result sentAt :: channel) : g.waiting = false ∧ g.told = none := by
  have hannounced := h.announced
  rw [hchannel, endsOf_ended] at hannounced
  split at hannounced
  · simp at hannounced
  · obtain ⟨result', sentAt', _, hone, _⟩ := hannounced
    obtain ⟨hnone, _⟩ := List.append_eq_singleton_iff.1 hone |>.resolve_right (by simp)
    exact ⟨by simpa using ‹¬ g.waiting = true›, by simpa using hnone⟩

/-- What the receiver was told is what happened. -/
theorem Inv.result_of_told (h : g.Inv since) {result : ε} {sentAt : ℕ} (htold : g.told = some (result, sentAt)) :
    g.waiting = false ∧ g.result = some result ∧ since ≤ sentAt ∧ sentAt ≤ g.now := by
  have hannounced := h.announced
  rw [htold] at hannounced
  split at hannounced
  · simp at hannounced
  · obtain ⟨result', sentAt', hresult, hone, hle⟩ := hannounced
    obtain ⟨heq, _⟩ := List.cons.inj hone
    obtain ⟨rfl, rfl⟩ := Prod.mk.inj heq
    exact ⟨by simpa using ‹¬ g.waiting = true›, hresult, hle⟩

/-- A receiver that was told of the end takes pieces only. -/
theorem Inv.take_eq (h : g.Inv since) (htold : g.told ≠ none) :
    g.take = { g with channel := g.channel.tail, got := g.take.got } := by
  rw [take]
  split
  · rename_i hchannel
    rw [hchannel]
    exact congrArg (fun channel => ({ g with channel := channel } : Gather ι β ε)) hchannel
  · rename_i hchannel
    rw [hchannel]
    rfl
  · rename_i hchannel
    exact absurd (h.told_of_ended hchannel).2 htold

theorem Inv.takeN_eq : ∀ (n : ℕ) {g : Gather ι β ε}, g.Inv since → g.told ≠ none →
    g.takeN n = { g with channel := (g.takeN n).channel, got := (g.takeN n).got }
  | 0, _, _, _ => rfl
  | n + 1, g, h, htold => by
    have htake := h.take_eq htold
    have hrest := Inv.takeN_eq n (take_inv h) (by rw [htake]; exact htold)
    rw [takeN, hrest, htake]

end Receiver

section Apart

variable {g g' : Gather ι β ε}

/-- **What the receiver has is its own**: the others do not move it. -/
structure Apart (g g' : Gather ι β ε) : Prop where
  got : g'.got = g.got
  told : g'.told = g.told
  receiving : g'.receiving = g.receiving
  now : g.now ≤ g'.now
  result : ∀ result, g.result = some result → g'.result = some result
  reading : ∀ source, g.reading source = false → g'.reading source = false
  waiting : g.waiting = false → g'.waiting = false
  /-- When all tasks have ended the channel stays as it is. -/
  channel : (∀ source, g.reading source = false) → g.waiting = false → g'.channel = g.channel

theorem Apart.refl (g : Gather ι β ε) : g.Apart g :=
  ⟨rfl, rfl, rfl, Nat.le_refl _, fun _ => id, fun _ => id, id, fun _ _ => rfl⟩

theorem Apart.trans {g'' : Gather ι β ε} (h : g.Apart g') (h' : g'.Apart g'') : g.Apart g'' :=
  ⟨h'.got.trans h.got, h'.told.trans h.told, h'.receiving.trans h.receiving, Nat.le_trans h.now h'.now,
    fun result => h'.result result ∘ h.result result, fun source => h'.reading source ∘ h.reading source,
    h'.waiting ∘ h.waiting, fun hreading hwaiting =>
      (h'.channel (fun source => h.reading source (hreading source)) (h.waiting hwaiting)).trans
        (h.channel hreading hwaiting)⟩

variable [DecidableEq ι]

theorem update_false {f : ι → Bool} {source other : ι} (h : f other = false) :
    Function.update f source false other = false := by
  rw [Function.update_apply]
  split
  · rfl
  · exact h

theorem stop_apart (g : Gather ι β ε) (source : ι) (broken : ι → Bool) :
    g.Apart { g.stop source with broken := broken } :=
  ⟨rfl, rfl, rfl, Nat.le_refl _, fun _ => id, fun _ => update_false, id, fun _ _ => rfl⟩

theorem send_apart {source : ι} (hreading : g.reading source = true) (count : ℕ) :
    g.Apart (g.send source count) := by
  have hchannel : (∀ source, g.reading source = false) → (g.send source count).channel = g.channel := fun h => by
    rw [h source] at hreading
    cases hreading
  revert hchannel
  rw [send]
  split
  · exact fun hchannel => ⟨rfl, rfl, rfl, Nat.le_refl _, fun _ => id, fun _ => id, id, fun h _ => hchannel h⟩
  · exact fun hchannel => ⟨rfl, rfl, rfl, Nat.le_refl _, fun _ => id, fun _ => update_false, id, fun h _ => hchannel h⟩

theorem step_apart (g : Gather ι β ε) (move : Move ι β ε) : g.Apart (g.step move) := by
  cases move with
  | tick time => exact ⟨rfl, rfl, rfl, Nat.le_add_right _ _, fun _ => id, fun _ => id, id, fun _ _ => rfl⟩
  | write source items =>
    rw [step]
    split
    · exact Apart.refl g
    · exact ⟨rfl, rfl, rfl, Nat.le_refl _, fun _ => id, fun _ => id, id, fun _ _ => rfl⟩
  | close source => exact ⟨rfl, rfl, rfl, Nat.le_refl _, fun _ => id, fun _ => id, id, fun _ _ => rfl⟩
  | finish result =>
    rw [step]
    split
    · exact Apart.refl g
    · rename_i hnone
      exact ⟨rfl, rfl, rfl, Nat.le_refl _, fun _ h => by simp [h] at hnone, fun _ => id, id, fun _ _ => rfl⟩
  | read source count =>
    rw [step]
    split
    · split
      · split
        · exact stop_apart g source g.broken
        · exact Apart.refl g
      · split
        · exact Apart.refl g
        · exact send_apart ‹_› count
    · exact Apart.refl g
  | readError source =>
    rw [step]
    split
    · exact stop_apart g source _
    · exact Apart.refl g
  | wait =>
    rw [step]
    split
    · split
      · rename_i hwaiting
        exact ⟨rfl, rfl, rfl, Nat.le_refl _, fun _ => id, fun _ => id, fun _ => rfl, fun _ h => by
          rw [h] at hwaiting
          cases hwaiting⟩
      · exact Apart.refl g
    · exact Apart.refl g

theorem run_apart (g : Gather ι β ε) (moves : List (Move ι β ε)) : g.Apart (g.run moves) := by
  induction moves generalizing g with
  | nil => exact Apart.refl g
  | cons move moves ih => exact (step_apart g move).trans (ih _)

theorem run_append (moves moves' : List (Move ι β ε)) : g.run (moves ++ moves') = (g.run moves).run moves' :=
  List.foldl_append

@[simp] theorem channel_take : g.take.channel = g.channel.tail := by
  rw [take]
  split <;> simp [*]

theorem got_take (source : ι) :
    g.take.got source ++ piecesOf source g.take.channel = g.got source ++ piecesOf source g.channel := by
  rw [take]
  split
  · rfl
  · rename_i other items sentAt channel hchannel
    rw [hchannel, piecesOf_piece]
    by_cases hother : other = source
    · subst hother
      simp
    · simp [hother, Function.update_of_ne (Ne.symm hother)]
  · rename_i hchannel
    rw [hchannel, piecesOf_ended]

/-- The receiver takes all that is in the channel. -/
theorem takeN_all : ∀ (n : ℕ) (g : Gather ι β ε), g.channel.length ≤ n →
    (g.takeN n).channel = [] ∧ ∀ source, (g.takeN n).got source = g.got source ++ piecesOf source g.channel
  | 0, g, hn => by
    have hnil := List.length_eq_zero_iff.1 (Nat.le_zero.1 hn)
    exact ⟨hnil, fun source => by rw [hnil, piecesOf_nil, List.append_nil]; rfl⟩
  | n + 1, g, hn => by
    have hshort : g.take.channel.length ≤ n := by
      rw [channel_take, List.length_tail]
      omega
    obtain ⟨hnil, hgot⟩ := takeN_all n g.take hshort
    exact ⟨hnil, fun source => (hgot source).trans (got_take source)⟩

end Apart

/-! ## Tasks come to their ends -/

section Progress

variable [DecidableEq ι] {g : Gather ι β ε}

/-- What the tasks do not touch. -/
theorem closed_read (g : Gather ι β ε) (source : ι) (count : ℕ) :
    (g.step (.read source count)).closed = g.closed := by
  rw [step, send]
  repeat' split
  all_goals rfl

/-- A round of reading from a closed pipe ends the task or leaves less in the pipe. -/
theorem read_progress (g : Gather ι β ε) {source : ι} (hclosed : g.closed source = true)
    (hreading : g.reading source = true) :
    (g.step (.read source 1)).reading source = false ∨
      ((g.step (.read source 1)).pipe source).length < (g.pipe source).length := by
  rw [step, if_pos hreading]
  split
  · exact Or.inl (Function.update_self ..)
  · rename_i hpipe
    have hlen := List.length_pos_iff.2 hpipe
    rw [if_neg Nat.one_ne_zero, send]
    split
    · refine Or.inr ?_
      simp only [Function.update_self, List.length_drop]
      omega
    · exact Or.inl (Function.update_self ..)

/-- **The task of a closed pipe comes to its end.** -/
theorem read_ends (source : ι) : ∀ (n : ℕ) (g : Gather ι β ε), (g.pipe source).length < n →
    g.closed source = true → ∃ moves : List (Move ι β ε), (∀ move ∈ moves, move.OfTask) ∧
      (g.run moves).reading source = false ∧ (g.run moves).closed = g.closed
  | n + 1, g, hn, hclosed => by
    cases hreading : g.reading source with
    | false => exact ⟨[], by simp, hreading, rfl⟩
    | true =>
      have hkept := closed_read g source 1
      rcases read_progress g hclosed hreading with hend | hshort
      · exact ⟨[.read source 1], by simp [Move.OfTask], hend, hkept⟩
      · obtain ⟨moves, hmoves, hend, hkept'⟩ := read_ends source n (g.step (.read source 1))
          (Nat.lt_of_lt_of_le hshort (Nat.le_of_lt_succ hn)) ((congrFun hkept source).trans hclosed)
        exact ⟨.read source 1 :: moves, List.forall_mem_cons.2 ⟨trivial, hmoves⟩, hend, hkept'.trans hkept⟩

/-- **All tasks come to their ends** once the pipes are closed and the event has happened. -/
theorem tasks_end : ∀ (sources : List ι) (g : Gather ι β ε), (∀ source, g.closed source = true) →
    g.result.isSome = true → ∃ moves : List (Move ι β ε), (∀ move ∈ moves, move.OfTask) ∧
      (∀ source ∈ sources, (g.run moves).reading source = false) ∧ (g.run moves).waiting = false
  | [], g, _, hresult => by
    obtain ⟨result, hresult⟩ := Option.isSome_iff_exists.1 hresult
    refine ⟨[.wait], by simp [Move.OfTask], by simp, ?_⟩
    change (g.step .wait).waiting = false
    rw [step, hresult]
    cases hwaiting : g.waiting with
    | true => rfl
    | false => exact hwaiting
  | source :: sources, g, hclosed, hresult => by
    obtain ⟨moves, hmoves, hend, hkept⟩ := read_ends source _ g (Nat.lt_succ_self _) (hclosed source)
    have hapart := run_apart g moves
    obtain ⟨result, hres⟩ := Option.isSome_iff_exists.1 hresult
    obtain ⟨moves', hmoves', hends, hwaiting⟩ := tasks_end sources (g.run moves)
      (fun other => (congrFun hkept other).trans (hclosed other)) (by rw [hapart.result result hres]; rfl)
    refine ⟨moves ++ moves', fun move hmove => (List.mem_append.1 hmove).elim (hmoves move) (hmoves' move), ?_⟩
    rw [run_append]
    exact ⟨List.forall_mem_cons.2 ⟨(run_apart _ moves').reading source hend, hends⟩, hwaiting⟩

end Progress

end Gather

end Lib
