/-
This file models the kernel's circular queue of buffers and shows that its three
one-byte counters describe a window of filled buffers: the writer appends to the
window, the reader drops its head, and the buffer that the writer is given lies
outside it. The counter `cnt` is an unsigned byte, so the queue's own check for
an emptied empty queue never fires; that it is not needed is a matter of the
callers.
-/

import WhistleDrivenRobot.Ring

namespace WhistleDrivenRobot

/-- A queue of `numbuf` buffers of values of `T`. The arrays are functions; what is beyond their
bounds is other memory. -/
structure BufferQueue (T : Type) (numbuf : Nat) where
  buf : Nat → Nat → T
  bufSize : Nat → Nat
  put : Nat
  get : Nat
  cnt : Nat

namespace BufferQueue

variable {T : Type} {numbuf : Nat}

/-- The constructor, on whatever the memory of the buffers holds; an entry of `bufSize` is written
before it is read. -/
def create (buf : Nat → Nat → T) : BufferQueue T numbuf where
  buf := buf
  bufSize := fun _ => 0
  put := 0
  get := 0
  cnt := 0

def isFull (queue : BufferQueue T numbuf) : Bool := queue.cnt == numbuf

/-- The index of the buffer to write, if there is one. -/
def tryGetWritableBuffer (queue : BufferQueue T numbuf) : Option Nat :=
  if queue.isFull then none else some queue.put

/-- `none` stands for `errorHandler(UNEXPECTED)`, which does not return. -/
def bufferFilled (queue : BufferQueue T numbuf) (actualSize : Nat) :
    Option (BufferQueue T numbuf) :=
  let cnt := (queue.cnt + 1) % 2 ^ 8
  if numbuf < cnt then none
  else
    let put := (queue.put + 1) % 2 ^ 8
    some { queue with
      bufSize := Function.update queue.bufSize queue.put actualSize
      put := if numbuf ≤ put then 0 else put
      cnt := cnt }

/-- The index of the buffer to read, if there is one, and the actual size of its contents. -/
def tryGetReadableBuffer (queue : BufferQueue T numbuf) : Option (Nat × Nat) :=
  if queue.cnt = 0 then none else some (queue.get, queue.bufSize queue.get)

/-- The decremented `cnt` is an unsigned byte again, so it is never below zero. -/
def bufferEmptied (queue : BufferQueue T numbuf) : BufferQueue T numbuf :=
  let get := (queue.get + 1) % 2 ^ 8
  { queue with
    cnt := (queue.cnt + (2 ^ 8 - 1)) % 2 ^ 8
    get := if numbuf ≤ get then 0 else get }

/-- The memory write of a producer that fills a buffer in place. -/
def write (queue : BufferQueue T numbuf) (buffer first : Nat) (values : List T) :
    BufferQueue T numbuf :=
  { queue with
    buf := Function.update queue.buf buffer fun index =>
      if first ≤ index then values.getD (index - first) (queue.buf buffer index)
      else queue.buf buffer index }

/-! ### The window of filled buffers -/

/-- The filled buffers that were not emptied yet, oldest first. -/
def filled (queue : BufferQueue T numbuf) : List Nat := Ring.window numbuf queue.get queue.cnt

/-- What the counters of a queue that is used as intended satisfy. -/
structure WellFormed (queue : BufferQueue T numbuf) : Prop where
  get_lt : queue.get < numbuf
  cnt_le : queue.cnt ≤ numbuf
  put_eq : queue.put = Ring.next numbuf queue.get queue.cnt

theorem create_wellFormed (positive : 0 < numbuf) (buf : Nat → Nat → T) :
    (create buf : BufferQueue T numbuf).WellFormed where
  get_lt := positive
  cnt_le := Nat.zero_le _
  put_eq := (Nat.zero_mod _).symm

theorem tryGetReadableBuffer_of_eq {queue : BufferQueue T numbuf} (empty : queue.cnt = 0) :
    queue.tryGetReadableBuffer = none := if_pos empty

theorem tryGetReadableBuffer_of_pos {queue : BufferQueue T numbuf} (some : 0 < queue.cnt) :
    queue.tryGetReadableBuffer = .some (queue.get, queue.bufSize queue.get) :=
  if_neg (Nat.ne_of_gt some)

/-- The buffer that the writer fills is none of the filled ones. -/
theorem WellFormed.put_notMem_filled {queue : BufferQueue T numbuf} (sound : queue.WellFormed)
    (room : queue.cnt < numbuf) : queue.put ∉ queue.filled :=
  sound.put_eq ▸ Ring.next_notMem_window room

/-- The buffer that the reader is given is one of the filled ones. -/
theorem WellFormed.get_mem_filled {queue : BufferQueue T numbuf} (sound : queue.WellFormed)
    (some : 0 < queue.cnt) : queue.get ∈ queue.filled := by
  have member : queue.get % numbuf ∈ Ring.window numbuf queue.get queue.cnt :=
    Ring.first_mem_window some
  rwa [Nat.mod_eq_of_lt sound.get_lt] at member

/-! ### The two counting operations -/

section Counting

variable {queue : BufferQueue T numbuf} (sound : queue.WellFormed) (small : numbuf < 2 ^ 8)

include sound small

theorem WellFormed.bufferFilled_eq (room : queue.cnt < numbuf) (actualSize : Nat) :
    queue.bufferFilled actualSize = some
      { queue with
        bufSize := Function.update queue.bufSize queue.put actualSize
        put := Ring.next numbuf queue.get (queue.cnt + 1)
        cnt := queue.cnt + 1 } := by
  have counted : (queue.cnt + 1) % 2 ^ 8 = queue.cnt + 1 := Nat.mod_eq_of_lt (by omega)
  have inside : queue.put < numbuf :=
    sound.put_eq ▸ Nat.mod_lt _ (Nat.zero_lt_of_lt sound.get_lt)
  have stepped : (queue.put + 1) % 2 ^ 8 = queue.put + 1 := Nat.mod_eq_of_lt (by omega)
  have moved : (queue.put + 1) % numbuf = Ring.next numbuf queue.get (queue.cnt + 1) := by
    rw [sound.put_eq, Ring.next, Nat.mod_add_mod, Ring.next, Nat.add_assoc]
  simp only [bufferFilled, counted, stepped, Ring.wrap_eq_mod inside, moved]
  exact if_neg (Nat.not_lt.mpr room)

theorem WellFormed.bufferFilled {next : BufferQueue T numbuf} (room : queue.cnt < numbuf)
    {actualSize : Nat} (done : queue.bufferFilled actualSize = some next) : next.WellFormed := by
  rw [sound.bufferFilled_eq small room] at done
  obtain rfl := Option.some.inj done
  exact ⟨sound.get_lt, room, rfl⟩

theorem WellFormed.bufferEmptied_eq (some : 0 < queue.cnt) :
    queue.bufferEmptied =
      { queue with cnt := queue.cnt - 1, get := (queue.get + 1) % numbuf } := by
  have counted : (queue.cnt + (2 ^ 8 - 1)) % 2 ^ 8 = queue.cnt - 1 := by
    have := sound.cnt_le
    omega
  have inside := sound.get_lt
  have stepped : (queue.get + 1) % 2 ^ 8 = queue.get + 1 := Nat.mod_eq_of_lt (by omega)
  simp only [BufferQueue.bufferEmptied, counted, stepped, Ring.wrap_eq_mod inside]

theorem WellFormed.bufferEmptied (some : 0 < queue.cnt) : queue.bufferEmptied.WellFormed := by
  rw [sound.bufferEmptied_eq small some]
  refine ⟨Nat.mod_lt _ (Nat.zero_lt_of_lt sound.get_lt), ?_, ?_⟩
  · exact (Nat.sub_le _ _).trans sound.cnt_le
  · show queue.put = Ring.next numbuf ((queue.get + 1) % numbuf) (queue.cnt - 1)
    rw [Ring.next_mod, Ring.next_pred, Nat.sub_add_cancel some, sound.put_eq]

/-! ### The queue is first in, first out -/

/-- Filling appends the buffer that was written to the window. -/
theorem WellFormed.filled_bufferFilled {next : BufferQueue T numbuf} (room : queue.cnt < numbuf)
    {actualSize : Nat} (done : queue.bufferFilled actualSize = some next) :
    next.filled = queue.filled ++ [queue.put] := by
  rw [sound.bufferFilled_eq small room] at done
  obtain rfl := Option.some.inj done
  rw [sound.put_eq]
  exact Ring.window_succ _ _ _

/-- Emptying drops the buffer that was read from the window. -/
theorem WellFormed.filled_bufferEmptied (some : 0 < queue.cnt) :
    queue.filled = queue.get :: queue.bufferEmptied.filled := by
  rw [sound.bufferEmptied_eq small some]
  show Ring.window numbuf queue.get queue.cnt =
    queue.get :: Ring.window numbuf ((queue.get + 1) % numbuf) (queue.cnt - 1)
  rw [Ring.window_mod, ← Nat.sub_add_cancel some, Ring.window_succ', Nat.add_sub_cancel,
    Nat.mod_eq_of_lt sound.get_lt]

end Counting

end BufferQueue

end WhistleDrivenRobot
