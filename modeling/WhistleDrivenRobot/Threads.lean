/-
This file models the threads of the transmitter's kernel and its scheduler. The threads
of each priority are a circle of pointers; a search walks the circles from the highest
priority on and leaves each circle behind the thread that it finds. A thread joins the
circle of its priority when it is made or when its priority changes, and it leaves one
when its priority changes or when it has ended and its memory is given back.
-/

import WhistleDrivenRobot.Circles

namespace WhistleDrivenRobot

open Circles

def PRIORITY_MAX : Nat := 4

/-- The flags of a thread, in the order of the source: wait, sleep, deleted, deleting, detached,
wait_join, wait_cond and userspace. -/
abbrev ThreadFlags := BitVec 16

namespace ThreadFlags

def DETACHED : ThreadFlags := 1 <<< 4

def isReady (flags : ThreadFlags) : Bool := flags &&& 0x67 = 0

/-- Both the deleted and the detached flag are set. -/
def isDeleted (flags : ThreadFlags) : Bool := flags &&& 0x14 = 0x14

end ThreadFlags

/-- `threads` are those whose memory is allocated. -/
structure PriorityScheduler where
  threads : List Nat
  priority : Nat → Nat
  next : Nat → Nat
  flags : Nat → ThreadFlags
  thread_list : Nat → Option Nat
  idle : Nat
  cur : Nat
  kernel_running : Nat

namespace PriorityScheduler

def ready (kernel : PriorityScheduler) (thread : Nat) : Bool := (kernel.flags thread).isReady

def deleted (kernel : PriorityScheduler) (thread : Nat) : Bool := (kernel.flags thread).isDeleted

/-- No walk along a list is longer; one that is would be given up. -/
def fuel (kernel : PriorityScheduler) : Nat := kernel.threads.length + 1

/-! ### Threads join and leave the lists -/

def PKaddThread (kernel : PriorityScheduler) (thread priority : Nat) : PriorityScheduler :=
  match kernel.thread_list priority with
  | none =>
    { kernel with
      priority := Function.update kernel.priority thread priority
      thread_list := Function.update kernel.thread_list priority (some thread)
      next := Function.update kernel.next thread thread }
  | some first =>
    { kernel with
      priority := Function.update kernel.priority thread priority
      next := Function.update (Function.update kernel.next thread (kernel.next first))
        first thread }

/-- The loop of `PKsetPriority` that looks for a thread behind the first one of its list. -/
def removeLoop (next : Nat → Nat) (first thread : Nat) : Nat → Nat → Option (Nat → Nat)
  | 0, _ => none
  | fuel + 1, temp =>
    if next temp = first then none
    else if next temp = thread then some (Function.update next temp (next (next temp)))
    else removeLoop next first thread fuel (next temp)

/-- `PKsetPriority` takes a thread from its list: the pointers and the list behind it. -/
def unlink (next : Nat → Nat) (fuel first thread : Nat) : Option ((Nat → Nat) × Option Nat) :=
  if first = thread then
    if next first = first then some (next, none)
    else
      (previous next first fuel first).map fun tail =>
        (Function.update next tail (next first), some (next first))
  else (removeLoop next first thread fuel first).map fun changed => (changed, some first)

/-- A thread that is in no list is an error. -/
def remove (kernel : PriorityScheduler) (thread : Nat) : Option PriorityScheduler :=
  match kernel.thread_list (kernel.priority thread) with
  | none => none
  | some first =>
    (unlink kernel.next kernel.fuel first thread).map fun left =>
      { kernel with
        next := left.1
        thread_list := Function.update kernel.thread_list (kernel.priority thread) left.2 }

/-- The last part of `PKsetPriority` is that of `PKaddThread`. -/
def PKsetPriority (kernel : PriorityScheduler) (thread newPriority : Nat) :
    Option PriorityScheduler :=
  (kernel.remove thread).map fun removed => removed.PKaddThread thread newPriority

/-- The first loop of `PKremoveDeadThreads`, which takes dead threads from the front of a list: the
pointers, the list and the threads whose memory is given back. `tail` is none until the end of the
list was looked for. -/
def removeFront (deleted : Nat → Bool) :
    Nat → (Nat → Nat) → Option Nat → Nat → Option ((Nat → Nat) × Option Nat × List Nat)
  | 0, _, _, _ => none
  | fuel + 1, next, tail, first =>
    if deleted first then
      if next first = first then some (next, none, [first])
      else
        (tail.or (previous next first (fuel + 1) first)).bind fun tail =>
          (removeFront deleted fuel (Function.update next tail (next first)) (some tail)
            (next first)).map fun left => (left.1, left.2.1, first :: left.2.2)
    else some (next, some first, [])

/-- The second loop, which takes dead threads from behind the first one. -/
def removeRest (deleted : Nat → Bool) (first : Nat) :
    Nat → (Nat → Nat) → Nat → Option ((Nat → Nat) × List Nat)
  | 0, _, _ => none
  | fuel + 1, next, temp =>
    if next temp = first then some (next, [])
    else if deleted (next temp) then
      (removeRest deleted first fuel (Function.update next temp (next (next temp))) temp).map
        fun left => (left.1, next temp :: left.2)
    else removeRest deleted first fuel next (next temp)

/-- Both loops, on one list. -/
def removeDead (deleted : Nat → Bool) (fuel : Nat) (next : Nat → Nat) (first : Nat) :
    Option ((Nat → Nat) × Option Nat × List Nat) :=
  (removeFront deleted fuel next none first).bind fun front =>
    match front.2.1 with
    | none => some front
    | some first =>
      (removeRest deleted first fuel front.1 first).map fun left =>
        (left.1, some first, front.2.2 ++ left.2)

/-- The dead threads of a priority are in no list any more and have no memory. -/
def release (kernel : PriorityScheduler) (i : Nat)
    (left : (Nat → Nat) × Option Nat × List Nat) : PriorityScheduler :=
  { kernel with
    next := left.1
    thread_list := Function.update kernel.thread_list i left.2.1
    threads := kernel.threads.filter (· ∉ left.2.2) }

/-- The loop of `PKremoveDeadThreads` over the priorities below a number. -/
def removeLoops : Nat → PriorityScheduler → Option PriorityScheduler
  | 0, kernel => some kernel
  | i + 1, kernel =>
    match kernel.thread_list i with
    | none => removeLoops i kernel
    | some first =>
      (removeDead kernel.deleted kernel.fuel kernel.next first).bind fun left =>
        removeLoops i (kernel.release i left)

def PKremoveDeadThreads (kernel : PriorityScheduler) : Option PriorityScheduler :=
  removeLoops PRIORITY_MAX kernel

/-! ### A search -/

/-- No thread was found. -/
def runIdle (kernel : PriorityScheduler) : PriorityScheduler :=
  { kernel with cur := kernel.idle }

/-- A thread was found; the next search begins behind it. -/
def runThread (kernel : PriorityScheduler) (i temp : Nat) : PriorityScheduler :=
  { kernel with
    cur := temp
    thread_list := Function.update kernel.thread_list i (some temp) }

/-- The loop of `IRQfindNextThread` over the priorities below a number. -/
def findLoop (kernel : PriorityScheduler) : Nat → Option PriorityScheduler
  | 0 => some kernel.runIdle
  | i + 1 =>
    match kernel.thread_list i with
    | none => kernel.findLoop i
    | some first =>
      match search kernel.next kernel.ready (kernel.next first) kernel.fuel (kernel.next first) with
      | none => none
      | some none => kernel.findLoop i
      | some (some temp) => some (kernel.runThread i temp)

/-- While the kernel is paused, nothing is done. -/
def IRQfindNextThread (kernel : PriorityScheduler) : Option PriorityScheduler :=
  if kernel.kernel_running ≠ 0 then some kernel else kernel.findLoop PRIORITY_MAX

/-- The loop of `PKexists` over the priorities below a number. -/
def existsLoop (kernel : PriorityScheduler) (thread : Nat) : Nat → Option Bool
  | 0 => some false
  | i + 1 =>
    match kernel.thread_list i with
    | none => kernel.existsLoop thread i
    | some first =>
      match search kernel.next (fun temp => temp = thread && !kernel.deleted temp) first kernel.fuel
        first with
      | none => none
      | some none => kernel.existsLoop thread i
      | some (some _) => some true

def PKexists (kernel : PriorityScheduler) (thread : Nat) : Option Bool :=
  kernel.existsLoop thread PRIORITY_MAX

/-! ### Steps of the kernel -/

def doCreate (kernel : PriorityScheduler) (thread : Nat) (joinable : Bool) : PriorityScheduler :=
  { kernel with
    threads := thread :: kernel.threads
    flags := Function.update kernel.flags thread (if joinable then 0 else ThreadFlags.DETACHED) }

/-- `Thread::create`; the place of a new thread is not that of another one. -/
def threadCreate (kernel : PriorityScheduler) (thread priority : Nat) (joinable : Bool) :
    Option PriorityScheduler :=
  if PRIORITY_MAX ≤ priority then some kernel
  else if thread ∈ kernel.threads ∨ thread = kernel.idle then none
  else some ((kernel.doCreate thread joinable).PKaddThread thread priority)

def boot (idle : Nat) : PriorityScheduler where
  threads := []
  priority := fun _ => 0
  next := fun thread => thread
  flags := fun _ => 0
  thread_list := fun _ => none
  idle := idle
  cur := idle
  kernel_running := 0

/-- `setFlags` is whatever sets or clears flags of a thread. To make a thread, to change its
priority and to remove those that have ended, the kernel is paused, so nothing comes between. -/
inductive ThreadEvent
  | create (thread priority : Nat) (joinable : Bool)
  | setPriority (thread newPriority : Nat)
  | setFlags (thread : Nat) (flags : ThreadFlags)
  | removeDeadThreads
  | pauseKernel
  | restartKernel
  | preempt
  deriving DecidableEq, Repr

/-- Where `errorHandler` restarts the board, there is no step; nor is there one to a priority that
is not valid, with which `setPriority` would go on behind the end of the lists. -/
def step (kernel : PriorityScheduler) : ThreadEvent → Option PriorityScheduler
  | .create thread priority joinable => kernel.threadCreate thread priority joinable
  | .setPriority thread newPriority =>
    if thread ∉ kernel.threads ∨ PRIORITY_MAX ≤ newPriority then none
    else kernel.PKsetPriority thread newPriority
  | .setFlags thread flags =>
    some { kernel with flags := Function.update kernel.flags thread flags }
  | .removeDeadThreads => kernel.PKremoveDeadThreads
  | .pauseKernel =>
    if 0xff ≤ kernel.kernel_running then none
    else some { kernel with kernel_running := kernel.kernel_running + 1 }
  | .restartKernel =>
    if kernel.kernel_running = 0 then none
    else some { kernel with kernel_running := kernel.kernel_running - 1 }
  | .preempt => kernel.IRQfindNextThread

end PriorityScheduler

end WhistleDrivenRobot
