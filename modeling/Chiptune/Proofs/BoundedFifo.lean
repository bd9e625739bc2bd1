import Chiptune.SampleQueue
import Mathlib

/-!
# The queue of samples is a bounded list

Nothing that is asked of a queue can tell it from a list that frames are appended
to while it is short enough and taken from at the front. The frames of the ring
lie on the arc from the tail to the head, and `slotAt` counts along that arc:
its length ends at the head, no frame before that lies there, and one slot is
always left over. So a frame that is pushed disturbs none that is held, wherever
the arc passes the end of the ring.
-/
namespace Chiptune.SampleQueue

open Sound (Frame)

/-! ### Around the ring -/

section

variable (queue : SampleQueue)

theorem length_lt_size : queue.length < queue.slots.size := by
  have hhead := queue.head_lt
  have htail := queue.tail_lt
  unfold length
  split <;> omega

theorem length_le_capacity : queue.length ≤ queue.capacity :=
  Nat.le_sub_one_of_lt queue.length_lt_size

/-- A distance around the ring passes its end once at the most. -/
theorem slotAt_eq {distance : Nat} (h : distance < queue.slots.size) :
    queue.slotAt distance =
      if queue.tail + distance < queue.slots.size then queue.tail + distance
      else queue.tail + distance - queue.slots.size := by
  have htail := queue.tail_lt
  unfold slotAt
  split
  · rename_i hstraight
    exact Nat.mod_eq_of_lt hstraight
  · rename_i hwrap
    rw [Nat.mod_eq_sub_mod (Nat.not_lt.mp hwrap)]
    exact Nat.mod_eq_of_lt (by omega)

theorem slotAt_zero : queue.slotAt 0 = queue.tail := Nat.mod_eq_of_lt queue.tail_lt

/-- The slot after the last frame is the one to write. -/
theorem slotAt_length : queue.slotAt queue.length = queue.head := by
  have hhead := queue.head_lt
  have htail := queue.tail_lt
  rw [queue.slotAt_eq queue.length_lt_size]
  unfold length
  split <;> split <;> omega

theorem slotAt_ne_head {distance : Nat} (h : distance < queue.length) :
    queue.slotAt distance ≠ queue.head := by
  have hhead := queue.head_lt
  have htail := queue.tail_lt
  rw [queue.slotAt_eq (h.trans queue.length_lt_size)]
  unfold length at h
  split at h <;> split <;> omega

/-- The ring is full when only the spare slot is left. -/
theorem after_head_eq_tail_iff :
    queue.after queue.head = queue.tail ↔ queue.length = queue.capacity := by
  have hhead := queue.head_lt
  have htail := queue.tail_lt
  have hsize := queue.two_le_size
  unfold after length capacity
  split <;> split <;> omega

theorem tail_eq_head_iff : queue.tail = queue.head ↔ queue.length = 0 := by
  have hhead := queue.head_lt
  have htail := queue.tail_lt
  unfold length
  split <;> omega

@[simp] theorem length_toList : queue.toList.length = queue.length := by
  simp [toList]

end

/-! ### One frame -/

section

variable {queue : SampleQueue}

/-- A frame that is pushed into a queue with room comes after those that are held. -/
theorem push?_of_lt (h : queue.length < queue.capacity) (frame : Frame) :
    ∃ next, queue.push? frame = some next ∧ next.capacity = queue.capacity ∧
      next.toList = queue.toList ++ [frame] := by
  have hroom : queue.after queue.head ≠ queue.tail := by
    rw [Ne, after_head_eq_tail_iff]
    exact h.ne
  obtain ⟨next, hpush, hslots, hhead, htail⟩ : ∃ next, queue.push? frame = some next ∧
      next.slots = queue.slots.set queue.head frame queue.head_lt ∧
      next.head = queue.after queue.head ∧ next.tail = queue.tail := by
    rw [push?, if_neg hroom]
    exact ⟨_, rfl, rfl, rfl, rfl⟩
  have hsize : next.slots.size = queue.slots.size := by rw [hslots, Array.size_set]
  have hslot : ∀ i, next.slotAt i = queue.slotAt i := fun i => by
    rw [slotAt, slotAt, htail, hsize]
  have hlength : next.length = queue.length + 1 := by
    have hlt := queue.head_lt
    have hlt' := queue.tail_lt
    rw [length, length, hsize, htail, hhead]
    unfold after at hroom ⊢
    by_cases hwrap : queue.head + 1 = queue.slots.size
    · rw [if_pos hwrap] at hroom ⊢
      split <;> split <;> omega
    · rw [if_neg hwrap] at hroom ⊢
      split <;> split <;> omega
  refine ⟨next, hpush, by rw [capacity, capacity, hsize], ?_⟩
  rw [toList, hlength, List.range_succ, List.map_append, List.map_singleton]
  congr 1
  · apply List.map_congr_left
    intro i hi
    have hne := queue.slotAt_ne_head (List.mem_range.mp hi)
    rw [hslot, hslots, Array.getElem?_set_ne queue.head_lt hne.symm]
  · rw [hslot, slotAt_length, hslots, Array.getElem?_set_self queue.head_lt]
    rfl

theorem push?_of_full (h : queue.length = queue.capacity) (frame : Frame) :
    queue.push? frame = none := by
  rw [push?, if_pos ((after_head_eq_tail_iff queue).mpr h)]

theorem pop?_of_empty (h : queue.length = 0) : queue.pop? = none := by
  rw [pop?, if_pos ((tail_eq_head_iff queue).mpr h)]

/-- The frame that is popped is the first of those that are held. -/
theorem pop?_of_pos (h : 0 < queue.length) :
    ∃ frame next, queue.pop? = some (frame, next) ∧ next.capacity = queue.capacity ∧
      queue.toList = frame :: next.toList := by
  have hsome : queue.tail ≠ queue.head := by
    rw [Ne, tail_eq_head_iff]
    exact h.ne'
  have hlt := queue.tail_lt
  obtain ⟨next, hpop, hslots, hhead, htail⟩ : ∃ next,
      queue.pop? = some (queue.slots[queue.tail], next) ∧ next.slots = queue.slots ∧
      next.head = queue.head ∧ next.tail = queue.after queue.tail := by
    rw [pop?, if_neg hsome]
    exact ⟨_, rfl, rfl, rfl, rfl⟩
  have hlength : queue.length = next.length + 1 := by
    have hlt' := queue.head_lt
    unfold after at htail
    unfold length
    rw [hslots, hhead, htail]
    split <;> split <;> split <;> omega
  have hslot : ∀ i < next.length, queue.slotAt (i + 1) = next.slotAt i := by
    intro i hi
    have hsize := queue.length_lt_size
    rw [queue.slotAt_eq (by omega), next.slotAt_eq (by rw [hslots]; omega), hslots, htail]
    unfold after
    split <;> split <;> split <;> omega
  refine ⟨_, next, hpop, by rw [capacity, capacity, hslots], ?_⟩
  rw [toList, hlength, List.range_succ_eq_map, List.map_cons, List.map_map]
  congr 1
  · rw [slotAt_zero, Array.getElem?_eq_getElem hlt, Option.getD_some]
  · apply List.map_congr_left
    intro i hi
    rw [Function.comp_apply, hslot i (List.mem_range.mp hi), hslots]

end

/-! ### Many frames -/

/-- Of several frames, as many are taken as there is room for. -/
theorem pushMany_spec (queue : SampleQueue) (frames : List Frame) :
    (queue.pushMany frames).1 = min queue.free frames.length ∧
      (queue.pushMany frames).2.capacity = queue.capacity ∧
      (queue.pushMany frames).2.toList =
        queue.toList ++ frames.take (min queue.free frames.length) := by
  induction frames generalizing queue with
  | nil => simp [pushMany]
  | cons frame rest ih =>
    have hle := queue.length_le_capacity
    rcases hle.lt_or_eq with hlt | hfull
    · obtain ⟨next, hpush, hcapacity, hlist⟩ := push?_of_lt hlt frame
      have hlength : next.length = queue.length + 1 := by
        rw [← length_toList, hlist, List.length_append, length_toList, List.length_singleton]
      have hfree : min queue.free (frame :: rest).length = min next.free rest.length + 1 := by
        rw [free, free, hcapacity, hlength, List.length_cons]
        omega
      obtain ⟨hcount, hcapacity', hlist'⟩ := ih next
      simp only [pushMany, hpush]
      refine ⟨by rw [hcount, hfree], hcapacity'.trans hcapacity, ?_⟩
      rw [hlist', hlist, hfree, List.take_succ_cons, List.append_assoc, List.singleton_append]
    · have hfree : queue.free = 0 := by rw [free, hfull, Nat.sub_self]
      simp [pushMany, push?_of_full hfull, hfree]

/-- The first frames of interleaved samples. Frame `k` is made of samples `2 k` and `2 k + 1`. -/
def leading (count : Nat) (samples : List Float32) : List Frame :=
  (List.range count).map fun k => ⟨samples.getD (2 * k) 0.0, samples.getD (2 * k + 1) 0.0⟩

theorem length_lt_two {samples : List Float32}
    (h : ∀ left right rest, samples = left :: right :: rest → False) : samples.length < 2 := by
  match samples, h with
  | [], _ => exact Nat.zero_lt_two
  | [_], _ => exact Nat.one_lt_two
  | left :: right :: rest, h => exact (h left right rest rfl).elim

theorem length_ofInterleaved (samples : List Float32) :
    (Frame.ofInterleaved samples).length = samples.length / 2 := by
  fun_induction Frame.ofInterleaved samples with
  | case1 left right rest ih =>
    simp only [List.length_cons, ih]
    omega
  | case2 samples hshort => exact (Nat.div_eq_of_lt (length_lt_two hshort)).symm

theorem take_ofInterleaved {count : Nat} {samples : List Float32}
    (h : count ≤ samples.length / 2) :
    (Frame.ofInterleaved samples).take count = leading count samples := by
  fun_induction Frame.ofInterleaved samples generalizing count with
  | case1 left right rest ih =>
    cases count with
    | zero => rfl
    | succ count =>
      have hrest : count ≤ rest.length / 2 := by
        simp only [List.length_cons] at h
        omega
      rw [List.take_succ_cons, ih hrest]
      simp only [leading, List.range_succ_eq_map, List.map_cons, List.map_map]
      rfl
  | case2 samples hshort =>
    rw [Nat.div_eq_of_lt (length_lt_two hshort), Nat.le_zero] at h
    rw [h]
    rfl

theorem pushInterleaved_spec (queue : SampleQueue) (samples : List Float32) :
    (queue.pushInterleaved samples).1 = min queue.free (samples.length / 2) ∧
      (queue.pushInterleaved samples).2.capacity = queue.capacity ∧
      (queue.pushInterleaved samples).2.toList =
        queue.toList ++ leading (min queue.free (samples.length / 2)) samples := by
  have h := queue.pushMany_spec (Frame.ofInterleaved samples)
  rwa [length_ofInterleaved, take_ofInterleaved (Nat.min_le_right _ _)] at h

/-! ### Runs -/

/-- What may be asked of a queue. -/
inductive Action where
  | push (frame : Frame)
  | pushInterleaved (samples : List Float32)
  | pop

inductive Answer where
  /-- Whether a frame was taken. -/
  | taken (taken : Bool)
  /-- How many frames were taken. -/
  | count (count : Nat)
  | frame (frame : Option Frame)
  deriving DecidableEq

/-- The answer to an action, and the queue after it. -/
def perform (queue : SampleQueue) : Action → Answer × SampleQueue
  | .push frame =>
    match queue.push? frame with
    | some next => (.taken true, next)
    | none => (.taken false, queue)
  | .pushInterleaved samples =>
    (.count (queue.pushInterleaved samples).1, (queue.pushInterleaved samples).2)
  | .pop =>
    match queue.pop? with
    | some (frame, next) => (.frame (some frame), next)
    | none => (.frame none, queue)

/-- The same of a list of at most `bound` frames. -/
def Fifo.perform (bound : Nat) (held : List Frame) : Action → Answer × List Frame
  | .push frame =>
    if held.length < bound then (.taken true, held ++ [frame]) else (.taken false, held)
  | .pushInterleaved samples =>
    let count := min (bound - held.length) (samples.length / 2)
    (.count count, held ++ leading count samples)
  | .pop =>
    match held with
    | [] => (.frame none, [])
    | frame :: rest => (.frame (some frame), rest)

/-- The answers to a run and the state after it. -/
def run {State : Type} (perform : State → Action → Answer × State) :
    State → List Action → List Answer × State
  | state, [] => ([], state)
  | state, action :: rest =>
    let performed := perform state action
    let later := run perform performed.2 rest
    (performed.1 :: later.1, later.2)

/-- The frames that an action brought into a queue, by its answer. -/
def Action.entered : Action → Answer → List Frame
  | .push frame, .taken true => [frame]
  | .pushInterleaved samples, .count count => leading count samples
  | _, _ => []

/-- The frame that left a queue. -/
def Answer.left : Answer → List Frame
  | .frame (some popped) => [popped]
  | _ => []

/-- The queue has room for `bound` frames and holds these. -/
structure Holds (bound : Nat) (held : List Frame) (queue : SampleQueue) : Prop where
  capacity_eq : queue.capacity = bound
  toList_eq : queue.toList = held

section

variable {bound : Nat} {held : List Frame} {queue : SampleQueue}

theorem Holds.length_eq (h : Holds bound held queue) : queue.length = held.length := by
  rw [← h.toList_eq, length_toList]

theorem holds_ofCapacity (capacity : Nat) : Holds (max capacity 1) [] (ofCapacity capacity) := by
  constructor
  · simp only [ofCapacity, SampleQueue.capacity, Array.size_replicate]
    omega
  · rfl

/-- A queue answers every action as the list it holds does, and holds the list after it. -/
theorem Holds.perform (h : Holds bound held queue) (action : Action) :
    (queue.perform action).1 = (Fifo.perform bound held action).1 ∧
      Holds bound (Fifo.perform bound held action).2 (queue.perform action).2 := by
  have hlength := h.length_eq
  obtain ⟨hcapacity, hlist⟩ := h
  cases action with
  | push frame =>
    rcases queue.length_le_capacity.lt_or_eq with hlt | hfull
    · obtain ⟨next, hpush, hcapacity', hlist'⟩ := push?_of_lt hlt frame
      have hring : queue.perform (.push frame) = (.taken true, next) := by
        simp only [SampleQueue.perform, hpush]
      have hroom : held.length < bound := by rwa [← hlength, ← hcapacity]
      have hfifo : Fifo.perform bound held (.push frame) = (.taken true, held ++ [frame]) :=
        if_pos hroom
      rw [hring, hfifo]
      exact ⟨rfl, hcapacity'.trans hcapacity, by rw [hlist', hlist]⟩
    · have hring : queue.perform (.push frame) = (.taken false, queue) := by
        simp only [SampleQueue.perform, push?_of_full hfull]
      have hroom : ¬ held.length < bound := by
        rw [← hlength, ← hcapacity, hfull]
        exact lt_irrefl _
      have hfifo : Fifo.perform bound held (.push frame) = (.taken false, held) := if_neg hroom
      rw [hring, hfifo]
      exact ⟨rfl, hcapacity, hlist⟩
  | pushInterleaved samples =>
    obtain ⟨hcount, hcapacity', hlist'⟩ := queue.pushInterleaved_spec samples
    have hfree : queue.free = bound - held.length := by rw [free, hcapacity, hlength]
    rw [hfree] at hcount hlist'
    rw [hlist] at hlist'
    exact ⟨congrArg Answer.count hcount, hcapacity'.trans hcapacity, hlist'⟩
  | pop =>
    cases held with
    | nil =>
      have hring : queue.perform .pop = (.frame none, queue) := by
        simp only [SampleQueue.perform, pop?_of_empty hlength]
      rw [hring]
      exact ⟨rfl, hcapacity, hlist⟩
    | cons first rest =>
      have hpos : 0 < queue.length := by
        rw [hlength]
        exact Nat.succ_pos _
      obtain ⟨frame, next, hpop, hcapacity', hlist'⟩ := pop?_of_pos hpos
      rw [hlist, List.cons.injEq] at hlist'
      obtain ⟨rfl, hrest⟩ := hlist'
      have hring : queue.perform .pop = (.frame (some first), next) := by
        simp only [SampleQueue.perform, hpop]
      rw [hring]
      exact ⟨rfl, hcapacity'.trans hcapacity, hrest.symm⟩

theorem Holds.run (h : Holds bound held queue) (actions : List Action) :
    (SampleQueue.run SampleQueue.perform queue actions).1 =
        (SampleQueue.run (Fifo.perform bound) held actions).1 ∧
      Holds bound (SampleQueue.run (Fifo.perform bound) held actions).2
        (SampleQueue.run SampleQueue.perform queue actions).2 := by
  induction actions generalizing held queue with
  | nil => exact ⟨rfl, h⟩
  | cons action rest ih =>
    obtain ⟨hanswer, hnext⟩ := h.perform action
    obtain ⟨hanswers, hend⟩ := ih hnext
    exact ⟨congrArg₂ List.cons hanswer hanswers, hend⟩

/-- What was held and what entered is what left and what is held. -/
theorem Fifo.held_append_entered (bound : Nat) (held : List Frame) (action : Action) :
    held ++ action.entered (Fifo.perform bound held action).1 =
      (Fifo.perform bound held action).1.left ++ (Fifo.perform bound held action).2 := by
  cases action with
  | push frame =>
    simp only [Fifo.perform]
    split <;> simp [Action.entered, Answer.left]
  | pushInterleaved samples => rfl
  | pop => cases held <;> simp [Fifo.perform, Action.entered, Answer.left]

theorem Fifo.held_append_entered_run (bound : Nat) (held : List Frame) (actions : List Action) :
    held ++ (List.zipWith Action.entered actions
        (SampleQueue.run (Fifo.perform bound) held actions).1).flatten =
      (SampleQueue.run (Fifo.perform bound) held actions).1.flatMap Answer.left ++
        (SampleQueue.run (Fifo.perform bound) held actions).2 := by
  induction actions generalizing held with
  | nil => simp [SampleQueue.run]
  | cons action rest ih =>
    simp only [SampleQueue.run, List.zipWith_cons_cons, List.flatten_cons, List.flatMap_cons]
    rw [← List.append_assoc, Fifo.held_append_entered, List.append_assoc, ih, List.append_assoc]

end

/-- A queue is a bounded list. Whatever is asked of one that was made for `capacity` frames, in
whatever order and however often, the answers are those of a list of at most as many frames, and of
one at the least. After every run the queue holds what the list does, and its measures say so. The
frames that were taken are those that were handed out and those that are held, in this order. -/
theorem bounded_fifo (capacity : Nat) (actions : List Action) :
    let bound := max capacity 1
    let ran := run perform (ofCapacity capacity) actions
    let held := (run (Fifo.perform bound) [] actions).2
    ran.1 = (run (Fifo.perform bound) [] actions).1 ∧ ran.2.toList = held ∧
      ran.2.length = held.length ∧ (ran.2.isEmpty = true ↔ held = []) ∧
      ran.2.capacity = bound ∧ ran.2.length + ran.2.free = ran.2.capacity ∧
      (List.zipWith Action.entered actions ran.1).flatten = ran.1.flatMap Answer.left ++ held := by
  intro bound ran held
  obtain ⟨hanswers, hholds⟩ := (holds_ofCapacity capacity).run actions
  have hlength : ran.2.length = held.length := hholds.length_eq
  have hflow := Fifo.held_append_entered_run bound [] actions
  refine ⟨hanswers, hholds.toList_eq, hlength, ?_, hholds.capacity_eq, ?_, ?_⟩
  · rw [isEmpty, beq_iff_eq, hlength, List.length_eq_zero_iff]
  · exact Nat.add_sub_cancel' ran.2.length_le_capacity
  · rw [List.nil_append, ← hanswers] at hflow
    exact hflow

end Chiptune.SampleQueue
