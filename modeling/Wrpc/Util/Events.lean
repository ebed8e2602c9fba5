/-
# The event queues (`lib/event.c`)

Every registered handler has a queue of its own.  `event_post` puts an event into the queues of the
enabled handlers whose mask asks for it; `event_poll` and `events_dispatch` take it out again.  A
queue is a ring of eight bytes (`Wrpc.Lib.Ring`) that drops what does not fit.
-/
import Wrpc.Lib.Ring
import Wrpc.Lib.Run

namespace Wrpc.Events

open List

/-- `struct event_queue` -/
structure EventQueue where
  data : Mem
  head : Nat
  tail : Nat
  count : Nat
  size : Nat

/-- `MAX_EVENTS_PER_QUEUE` -/
def maxEventsPerQueue : Nat := 8

/-- `queue_put` -/
def queuePut (buf : EventQueue) (c : Nat) : EventQueue :=
  if buf.count ≥ buf.size then buf
  else
    let head := buf.head + 1
    { buf with
      data := buf.data.set buf.head (BitVec.ofNat 8 c)
      head := if head ≥ buf.size then 0 else head
      count := buf.count + 1 }

/-- `queue_get` -/
def queueGet (buf : EventQueue) : EventQueue × Int :=
  if buf.count = 0 then (buf, -1)
  else
    let tail := buf.tail + 1
    ({ buf with tail := if tail ≥ buf.size then 0 else tail, count := buf.count - 1 },
      (buf.data buf.tail).toNat)

/-- `queue_init` -/
def queueInit (buf : EventQueue) : EventQueue :=
  { buf with head := 0, tail := 0, count := 0, size := maxEventsPerQueue }

def EventQueue.pending (buf : EventQueue) : List Int :=
  (Ring.read buf.size buf.data buf.tail buf.count).map fun b => (b.toNat : Int)

structure EventQueue.Inv (buf : EventQueue) : Prop where
  size : buf.size = maxEventsPerQueue
  count : buf.count ≤ maxEventsPerQueue
  tail : buf.tail < maxEventsPerQueue
  head : buf.head = (buf.tail + buf.count) % maxEventsPerQueue

section

variable {buf : EventQueue}

theorem next_eq {i : Nat} (h : i < maxEventsPerQueue) :
    (if i + 1 ≥ maxEventsPerQueue then 0 else i + 1) = (i + 1) % maxEventsPerQueue := by
  unfold maxEventsPerQueue at *
  split <;> omega

theorem EventQueue.Inv.put (h : buf.Inv) (c : Nat) : (queuePut buf c).Inv := by
  obtain ⟨hsize, hcount, htail, hhead⟩ := h
  unfold queuePut
  split
  · exact ⟨hsize, hcount, htail, hhead⟩
  · have hlt : buf.head < maxEventsPerQueue := hhead ▸ Nat.mod_lt _ (by decide)
    refine ⟨hsize, by simp only; omega, htail, ?_⟩
    simp only [hsize]
    rw [next_eq hlt, hhead, Nat.mod_add_mod, Nat.add_assoc]

theorem EventQueue.Inv.pending_put (h : buf.Inv) {c : Nat} (hc : c < 2 ^ 8) :
    (queuePut buf c).pending =
      buf.pending ++ if buf.pending.length < maxEventsPerQueue then [(c : Int)] else [] := by
  obtain ⟨hsize, hcount, htail, hhead⟩ := h
  simp only [EventQueue.pending, length_map, Ring.read_length]
  by_cases hfull : maxEventsPerQueue ≤ buf.count
  · rw [queuePut, if_pos (by omega), if_neg (by omega), append_nil]
  · rw [queuePut, if_neg (by omega), if_pos (by omega)]
    simp only [hsize, hhead]
    rw [Ring.read_set_end (by omega), map_append]
    simp
    omega

theorem EventQueue.Inv.get (h : buf.Inv) (hne : buf.count ≠ 0) :
    (queueGet buf).1.Inv ∧ buf.pending = (queueGet buf).2 :: (queueGet buf).1.pending := by
  obtain ⟨hsize, hcount, htail, hhead⟩ := h
  rw [queueGet, if_neg hne]
  refine ⟨⟨hsize, by simp only; omega, ?_, ?_⟩, ?_⟩
  all_goals simp only [hsize, EventQueue.pending, next_eq htail, Ring.read_mod]
  · exact Nat.mod_lt _ (by decide)
  · rw [hhead, Nat.mod_add_mod]
    congr 1
    omega
  · obtain ⟨n, hn⟩ := Nat.exists_eq_succ_of_ne_zero hne
    rw [hn, Ring.read, Nat.mod_eq_of_lt htail]
    rfl

theorem queueInit_inv (buf : EventQueue) : (queueInit buf).Inv :=
  ⟨rfl, Nat.zero_le _, Nat.succ_pos 7, rfl⟩

end

/-! ## The handlers -/

/-- `struct event_handler`; of `handler` it is known whether there is one. -/
structure EventHandler where
  queue : EventQueue
  enabled : Int
  eventMask : BitVec 32
  handler : Bool

/-- `handlers` and `event_handler_count` -/
structure State where
  handlers : Nat → EventHandler
  count : Nat

/-- `MAX_EVENT_HANDLERS` -/
def maxEventHandlers : Nat := 8

/-- The handler takes an event: a turn of the loop in `event_post`. -/
def EventHandler.post (event : Nat) (eh : EventHandler) : EventHandler :=
  if eh.enabled = 0 ∨ eh.eventMask &&& 1#32 <<< event = 0 then eh
  else { eh with queue := queuePut eh.queue event }

/-- The body of `event_poll`. -/
def EventHandler.poll (eh : EventHandler) : EventHandler × Int :=
  if eh.enabled = 0 then (eh, 0)
  else if eh.queue.count = 0 then (eh, 0)
  else ({ eh with queue := (queueGet eh.queue).1 }, (queueGet eh.queue).2)

/-- A turn of the loop in `events_dispatch`: the handler's function may be called. -/
def EventHandler.dispatch (eh : EventHandler) : EventHandler × Option Int :=
  if eh.enabled = 0 then (eh, none)
  else if eh.queue.count = 0 then (eh, none)
  else if eh.handler then
    ({ eh with queue := (queueGet eh.queue).1 }, some (queueGet eh.queue).2)
  else (eh, none)

/-- The calls into `event.c`. -/
inductive Op
  | register (mask : BitVec 32) (enable : Int) (func : Bool)
  | enable (id : Nat) (enable : Int)
  | post (event : Nat)
  | poll (handler : Nat)
  | dispatch

/-- `for(i = 0; i < event_handler_count; i++)`, where a turn reads and writes the `i`-th handler
alone. -/
def State.each (s : State) (f : EventHandler → EventHandler) : State :=
  { s with handlers := fun i => if i < s.count then f (s.handlers i) else s.handlers i }

def State.set (s : State) (id : Nat) (eh : EventHandler) : State :=
  { s with handlers := fun i => if i = id then eh else s.handlers i }

/-- `event_handler_register`, `event_handler_enable`, `event_post`, `event_poll` and
`events_dispatch`, with `BOARD_USE_EVENTS` set. -/
def State.step (s : State) : Op → State
  | .register mask enable func =>
    if s.count ≥ maxEventHandlers then s
    else
      { s.set s.count
          { queue := queueInit (s.handlers s.count).queue, enabled := enable, eventMask := mask,
            handler := func } with count := s.count + 1 }
  | .enable id enable => s.set id { s.handlers id with enabled := enable }
  | .post event => s.each (EventHandler.post event)
  | .poll id => s.set id (s.handlers id).poll.1
  | .dispatch => s.each fun eh => eh.dispatch.1

/-- `events_init` -/
def eventsInit (s : State) : State :=
  { handlers := fun i =>
      if i < maxEventHandlers then { s.handlers i with enabled := 0 } else s.handlers i
    count := 0 }

/-- What a call gives to handler `i`: a poll returns 0 when there is no event. -/
def State.delivered (i : Nat) (s : State) : Op → List Int
  | .poll id => if i = id ∧ (s.handlers id).poll.2 ≠ 0 then [(s.handlers id).poll.2] else []
  | .dispatch => if i < s.count then (s.handlers i).dispatch.2.toList else []
  | _ => []

def State.pending (i : Nat) (s : State) : List Int :=
  if i < s.count then (s.handlers i).queue.pending else []

/-- The event a call posts to handler `i`: the mask matches, the handler is enabled and fewer than
eight events are pending. -/
def State.accepted (i : Nat) (s : State) : Op → List Int
  | .post event =>
    if i < s.count ∧ (s.handlers i).enabled ≠ 0 ∧
        (s.handlers i).eventMask &&& 1#32 <<< event ≠ 0 ∧
        (s.pending i).length < maxEventsPerQueue then [(event : Int)] else []
  | _ => []

def Op.Valid (s : State) : Op → Prop
  | .enable id _ | .poll id => id < s.count
  | .post event => 1 ≤ event ∧ event ≤ 30
  | .register .. | .dispatch => True

instance (s : State) : DecidablePred (Op.Valid s)
  | .enable id _ | .poll id => inferInstanceAs (Decidable (id < s.count))
  | .post event => inferInstanceAs (Decidable (1 ≤ event ∧ event ≤ 30))
  | .register .. | .dispatch => isTrue trivial

/-! ## One call -/

structure EventHandler.Sound (eh : EventHandler) : Prop where
  inv : eh.queue.Inv
  events : ∀ e ∈ eh.queue.pending, e ≠ 0

section

variable {eh : EventHandler} (h : eh.Sound)

include h

theorem EventHandler.Sound.pending_post {event : Nat} (hhi : event ≤ 30) :
    (eh.post event).queue.pending = eh.queue.pending ++
      if eh.enabled ≠ 0 ∧ eh.eventMask &&& 1#32 <<< event ≠ 0 ∧
        eh.queue.pending.length < maxEventsPerQueue then [(event : Int)] else [] := by
  unfold EventHandler.post
  split
  · rw [if_neg (by tauto), append_nil]
  · rename_i hon
    rw [h.inv.pending_put (by omega)]
    congr 2
    exact propext (by tauto)

theorem EventHandler.Sound.post {event : Nat} (hlo : 1 ≤ event) (hhi : event ≤ 30) :
    (eh.post event).Sound := by
  constructor
  · unfold EventHandler.post
    split
    · exact h.inv
    · exact h.inv.put event
  · intro e he
    rw [h.pending_post hhi, mem_append] at he
    rcases he with he | he
    · exact h.events e he
    · split at he
      · rw [mem_singleton.1 he]
        omega
      · exact absurd he not_mem_nil

theorem EventHandler.Sound.get (hne : eh.queue.count ≠ 0) :
    ({ eh with queue := (queueGet eh.queue).1 } : EventHandler).Sound ∧
      (queueGet eh.queue).2 ≠ 0 ∧
      eh.queue.pending = (queueGet eh.queue).2 :: (queueGet eh.queue).1.pending := by
  obtain ⟨hinv, hget⟩ := h.inv.get hne
  have hevents := h.events
  rw [hget, forall_mem_cons] at hevents
  exact ⟨⟨hinv, hevents.2⟩, hevents.1, hget⟩

theorem EventHandler.Sound.poll : eh.poll.1.Sound ∧ eh.queue.pending =
    (if eh.poll.2 ≠ 0 then [eh.poll.2] else []) ++ eh.poll.1.queue.pending := by
  unfold EventHandler.poll
  split
  · exact ⟨h, rfl⟩
  · split
    · exact ⟨h, rfl⟩
    · rename_i hne
      obtain ⟨hsound, hevent, hget⟩ := h.get hne
      rw [if_pos hevent]
      exact ⟨hsound, hget⟩

theorem EventHandler.Sound.dispatch : eh.dispatch.1.Sound ∧
    eh.queue.pending = eh.dispatch.2.toList ++ eh.dispatch.1.queue.pending := by
  unfold EventHandler.dispatch
  split
  · exact ⟨h, rfl⟩
  · split
    · exact ⟨h, rfl⟩
    · rename_i hne
      split
      · exact ⟨(h.get hne).1, (h.get hne).2.2⟩
      · exact ⟨h, rfl⟩

end

def State.Inv (s : State) : Prop := ∀ i < s.count, (s.handlers i).Sound

/-- **One call, for every handler**: what is pending and what is accepted is what is delivered and
what is pending then. -/
theorem State.Inv.step {s : State} {op : Op} (h : s.Inv) (hvalid : op.Valid s) :
    (s.step op).Inv ∧
      ∀ i, s.pending i ++ s.accepted i op = s.delivered i op ++ (s.step op).pending i := by
  cases op with
  | register mask enable func =>
    rw [State.step]
    split
    · exact ⟨h, fun i => append_nil _⟩
    · refine ⟨fun i hi => ?_, fun i => ?_⟩
      · simp only [State.set] at hi ⊢
        split
        · exact ⟨queueInit_inv _, fun e he => absurd he not_mem_nil⟩
        · exact h i (by omega)
      · simp only [State.pending, State.accepted, State.delivered, State.set, append_nil,
          nil_append]
        rcases Nat.lt_trichotomy i s.count with hlt | rfl | hgt
        · rw [if_pos hlt, if_pos (by omega), if_neg hlt.ne]
        · rw [if_neg (Nat.lt_irrefl _), if_pos (Nat.lt_succ_self _), if_pos rfl]
          rfl
        · rw [if_neg (by omega), if_neg (by omega)]
  | enable id enable =>
    refine ⟨fun i hi => ?_, fun i => ?_⟩
    · simp only [State.step, State.set]
      split
      · exact ⟨(h id hvalid).inv, (h id hvalid).events⟩
      · exact h i hi
    · simp only [State.pending, State.accepted, State.delivered, State.step, State.set,
        append_nil, nil_append]
      grind
  | post event =>
    refine ⟨fun i hi => ?_, fun i => ?_⟩
    · simp only [State.step, State.each] at hi ⊢
      rw [if_pos hi]
      exact (h i hi).post hvalid.1 hvalid.2
    · simp only [State.pending, State.accepted, State.delivered, State.step, State.each,
        nil_append]
      by_cases hi : i < s.count
      · simp only [hi, if_true, true_and]
        exact ((h i hi).pending_post hvalid.2).symm
      · simp [hi]
  | poll id =>
    refine ⟨fun i hi => ?_, fun i => ?_⟩
    · simp only [State.step, State.set]
      split
      · exact (h id hvalid).poll.1
      · exact h i hi
    · simp only [State.pending, State.accepted, State.delivered, State.step, State.set,
        append_nil]
      by_cases hi : i = id
      · subst hi
        simp only [if_pos (show i < s.count from hvalid), true_and, if_true]
        exact (h i hvalid).poll.2
      · simp [hi]
  | dispatch =>
    refine ⟨fun i hi => ?_, fun i => ?_⟩
    · simp only [State.step, State.each] at hi ⊢
      rw [if_pos hi]
      exact (h i hi).dispatch.1
    · simp only [State.pending, State.accepted, State.delivered, State.step, State.each,
        append_nil]
      by_cases hi : i < s.count
      · simp only [hi, if_true]
        exact (h i hi).dispatch.2
      · simp [hi]

/-- **Every event accepted for a handler is delivered to it once and in order, or is still in its
queue**, and the indices of the queues stay in range. -/
theorem events_delivered (s : State) {ops : List Op}
    (hvalid : Run.Steps State.step (fun s op => op.Valid s) (eventsInit s) ops) :
    (∀ i, Run.emits State.step (State.delivered i) (eventsInit s) ops ++
        (Run.run State.step (eventsInit s) ops).pending i =
      Run.emits State.step (State.accepted i) (eventsInit s) ops) ∧
    Run.Always State.step (fun s => ∀ i < s.count, (s.handlers i).queue.head <
      (s.handlers i).queue.size ∧ (s.handlers i).queue.tail < (s.handlers i).queue.size)
      (eventsInit s) ops := by
  have hinit : (eventsInit s).Inv := fun i hi => absurd hi (Nat.not_lt_zero i)
  refine ⟨fun i => ?_, ?_⟩
  · rw [← Run.emits_balance (fun _ _ h hv => (h.step hv).1) (fun _ _ h hv => (h.step hv).2 i) hinit
      hvalid]
    rfl
  · refine Run.always_of_inv (fun _ _ h hv => (h.step hv).1) (fun s h i hi => ?_) hinit hvalid
    obtain ⟨hsize, -, htail, hhead⟩ := (h i hi).inv
    rw [hsize, hhead]
    exact ⟨Nat.mod_lt _ (by decide), htail⟩

def zeroed : State := ⟨fun _ => ⟨⟨fun _ => 0, 0, 0, 0, 0⟩, 0, 0, false⟩, 0⟩

/-- A handler for events 1 and 2, three posts, a dispatch and a poll. -/
theorem events_delivered_two : Run.emits State.step (State.accepted 0) (eventsInit zeroed)
    [.register 6#32 1 true, .post 2, .post 3, .post 1, .dispatch, .poll 0] = [2, 1] := by
  rw [← (events_delivered zeroed (by decide)).1 0]
  decide

end Wrpc.Events
