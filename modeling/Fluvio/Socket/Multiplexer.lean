import Fluvio.Lib.Trace
import Mathlib.Logic.Function.Basic

/-!
The multiplexed socket of the client (`fluvio-socket/src/multiplexing.rs`).

Each request takes the next correlation id from a wrapping `i32` counter and registers a sender
under it, in a map shared with the dispatcher: a one-shot slot for `send_and_receive`, a
bounded queue for `create_stream`. The dispatcher reads the frames of the socket one by one
and hands each to the sender registered under the frame's correlation id.

The tasks and the dispatcher run concurrently. Each action below is a part of one task that
runs without awaiting, so the interleavings of the actions are those of the tasks. The map is
behind an async mutex; every task holds it only across code that does not await, except the
dispatcher, which awaits `queue_sender.send` on a full queue with the lock held.

* `fullQueue_blocks_request` — a stream whose consumer stops reading holds the dispatcher, and
  the lock, on its full queue, and a `send_and_receive` then never returns.
-/

namespace Fluvio.Socket

/-- A frame of the socket, by its correlation id. `answers` names the task whose request the
server answered with it: the bytes do not carry it, and only statements read it. -/
structure Frame where
  correlationId : Int32
  answers : Nat
deriving DecidableEq, Repr

/-- `SharedSender`, by the task it hands frames to. -/
inductive SharedSender
  | serial (task : Nat)
  | queue (task : Nat)
deriving DecidableEq, Repr

/-- What `send_and_receive` returns: the response that woke it, or the timeout error. -/
inductive SerialResult
  | response (frame : Frame)
  | timedOut
deriving DecidableEq, Repr

/-- A task that uses the socket: a call of `send_and_receive`, or a call of `create_stream`
together with the consumer of the `AsyncResponse` it returns, whose queue it holds. -/
inductive Task
  | idle
  | serialGotId (correlationId : Int32)
  | serialWaiting (correlationId : Int32)
  | serialNotified (correlationId : Int32) (msg : Frame)
  | serialTimedOut (correlationId : Int32)
  | serialDone (correlationId : Int32) (result : SerialResult)
  | streamGotId (correlationId : Int32) (queueLen : Nat)
  | streamOpen (correlationId : Int32) (queueLen : Nat) (queue : List Frame) (closed : Bool)
deriving DecidableEq, Repr

/-- Where `dispatcher_loop` is: at `frame_stream.next()`, at `senders.lock()` with a frame, or
awaiting `queue_sender.send` with the lock held. -/
inductive Dispatcher
  | reading
  | locking (frame : Frame)
  | sending (frame : Frame) (task : Nat)
deriving DecidableEq, Repr

/-- `MultiplexerSocket` with its dispatcher, the tasks that use it, and the frames the server has
sent that the dispatcher has not read. `issued` counts the ids the counter has handed out. -/
structure Multiplexer where
  correlationIdCounter : Int32
  senders : Int32 → Option SharedSender
  tasks : Nat → Task
  dispatcher : Dispatcher
  incoming : List Frame
  issued : Nat

namespace Multiplexer

/-- `MultiplexerSocket::new`: the counter starts at 1. -/
def init : Multiplexer := ⟨1, fun _ => none, fun _ => .idle, .reading, [], 0⟩

/-- The lock on the senders is free unless the dispatcher awaits a queue with it. -/
def lockFree (s : Multiplexer) : Bool :=
  match s.dispatcher with
  | .sending _ _ => false
  | _ => true

def setTask (s : Multiplexer) (t : Nat) (task : Task) : Multiplexer :=
  { s with tasks := Function.update s.tasks t task }

def setSender (s : Multiplexer) (c : Int32) (sender : Option SharedSender) : Multiplexer :=
  { s with senders := Function.update s.senders c sender }

/-- `next_correlation_id`: `fetch_add(1)`, which wraps, returning the value before. -/
def nextCorrelationId (s : Multiplexer) : Int32 × Multiplexer :=
  (s.correlationIdCounter, { s with correlationIdCounter := s.correlationIdCounter + 1, issued := s.issued + 1 })

end Multiplexer

/-- Whether the receiver of a stream is closed. -/
def Task.isClosed : Task → Bool
  | .streamOpen _ _ _ closed => closed
  | _ => false

/-- The slot of a `send_and_receive` takes the frame, and its listener wakes. -/
def Task.deliverSerial (f : Frame) : Task → Task
  | .serialWaiting c => .serialNotified c f
  | .serialNotified c _ => .serialNotified c f
  | task => task

/-- `queue_sender.send(Some(msg))` into a stream: the frame is queued when there is room, dropped
when the receiver is closed, and `none` when the queue is full and the send waits. -/
def Task.pushQueue (f : Frame) : Task → Option Task
  | .streamOpen c n q closed =>
    if closed then some (.streamOpen c n q closed)
    else if q.length < n then some (.streamOpen c n (q ++ [f]) closed)
    else none
  | task => some task

/-- The id under which the server answers a task: once its request is sent. -/
def Task.sentId? : Task → Option Int32
  | .serialWaiting c | .serialNotified c _ | .serialTimedOut c | .serialDone c _ => some c
  | .streamOpen c _ _ _ => some c
  | _ => none

namespace Multiplexer

/-- `senders.retain` in `create_stream`: queue senders whose receiver is closed go. -/
def retainOpen (s : Multiplexer) (c : Int32) : Option SharedSender :=
  match s.senders c with
  | some (.queue t) => if (s.tasks t).isClosed then none else some (.queue t)
  | other => other

/-- `MultiPlexingResponseDispatcher::send` once it holds the lock: nothing registered drops the
frame, a slot takes it, and a queue takes it or makes the dispatcher wait with the lock. -/
def dispatch (s : Multiplexer) (f : Frame) : Multiplexer :=
  match s.senders f.correlationId with
  | none => { s with dispatcher := .reading }
  | some (.serial t) => { s.setTask t ((s.tasks t).deliverSerial f) with dispatcher := .reading }
  | some (.queue t) =>
    match (s.tasks t).pushQueue f with
    | some task => { s.setTask t task with dispatcher := .reading }
    | none => { s with dispatcher := .sending f t }

end Multiplexer

/-- The parts of the tasks that run without awaiting. -/
inductive Action
  | sendAndReceive (task : Nat)
  | register (task : Nat)
  | timeout (task : Nat)
  | finish (task : Nat)
  | createStream (task : Nat) (queueLen : Nat)
  | registerStream (task : Nat)
  | recv (task : Nat)
  | drop (task : Nat)
  | respond (task : Nat)
  | readFrame
  | lockSenders
  | queueSend
deriving DecidableEq, Repr

namespace Multiplexer

/-- One action. `send_and_receive` takes an id; locks the map, inserts its slot and sends the
request; wakes on its slot or on the timer; and locks the map to remove its id before it
returns. `create_stream` takes an id, and locks the map to drop closed queues and insert its
own. The dispatcher reads a frame, locks the map and hands the frame on, and, on a full queue,
waits for room with the lock held. -/
def next (s : Multiplexer) : Action → Option Multiplexer
  | .sendAndReceive t =>
    match s.tasks t with
    | .idle => some (s.nextCorrelationId.2.setTask t (.serialGotId s.nextCorrelationId.1))
    | _ => none
  | .register t =>
    match s.tasks t with
    | .serialGotId c =>
      if s.lockFree then some ((s.setSender c (some (.serial t))).setTask t (.serialWaiting c)) else none
    | _ => none
  | .timeout t =>
    match s.tasks t with
    | .serialWaiting c | .serialNotified c _ => some (s.setTask t (.serialTimedOut c))
    | _ => none
  | .finish t =>
    match s.tasks t with
    | .serialNotified c f =>
      if s.lockFree then some ((s.setSender c none).setTask t (.serialDone c (.response f))) else none
    | .serialTimedOut c =>
      if s.lockFree then some ((s.setSender c none).setTask t (.serialDone c .timedOut)) else none
    | _ => none
  | .createStream t n =>
    match s.tasks t with
    | .idle =>
      -- `bounded(0)` panics
      if 0 < n then some (s.nextCorrelationId.2.setTask t (.streamGotId s.nextCorrelationId.1 n)) else none
    | _ => none
  | .registerStream t =>
    match s.tasks t with
    | .streamGotId c n =>
      if s.lockFree then
        some ({ s with senders := Function.update s.retainOpen c (some (.queue t)) }.setTask t
          (.streamOpen c n [] false))
      else none
    | _ => none
  | .recv t =>
    match s.tasks t with
    | .streamOpen c n (_ :: q) false => some (s.setTask t (.streamOpen c n q false))
    | _ => none
  | .drop t =>
    match s.tasks t with
    | .streamOpen c n q false => some (s.setTask t (.streamOpen c n q true))
    | _ => none
  | .respond t =>
    match (s.tasks t).sentId? with
    | some c => some { s with incoming := s.incoming ++ [⟨c, t⟩] }
    | none => none
  | .readFrame =>
    match s.dispatcher, s.incoming with
    | .reading, f :: rest => some { s with dispatcher := .locking f, incoming := rest }
    | _, _ => none
  | .lockSenders =>
    match s.dispatcher with
    | .locking f => some (s.dispatch f)
    | _ => none
  | .queueSend =>
    match s.dispatcher with
    | .sending f t => ((s.tasks t).pushQueue f).map fun task => { s.setTask t task with dispatcher := .reading }
    | _ => none

end Multiplexer

/-! ### A full queue holds the lock -/

theorem Task.pushQueue_full {c : Int32} {n : Nat} {q : List Frame} (f : Frame) (hn : n ≤ q.length) :
    (Task.streamOpen c n q false).pushQueue f = none := by
  simp [Task.pushQueue, Nat.not_lt.mpr hn]

namespace Multiplexer

/-- Two tasks in different states are different tasks. -/
theorem ne_of_tasks {s : Multiplexer} {v u : Nat} {x y : Task} (hv : s.tasks v = x) (hu : s.tasks u = y)
    (hxy : x ≠ y) : v ≠ u := by
  rintro rfl
  exact hxy (hv.symm.trans hu)

/-- The dispatcher awaits the full queue of stream `u` with the lock held, and the
`send_and_receive` of task `t` waits for the lock to register. -/
structure Stuck (s : Multiplexer) (u t : Nat) : Prop where
  sending : ∃ f, s.dispatcher = .sending f u
  full : ∃ c n q, s.tasks u = .streamOpen c n q false ∧ n ≤ q.length
  waiting : ∃ c, s.tasks t = .serialGotId c

variable {s x : Multiplexer} {u t : Nat}

theorem Stuck.lockFree (h : s.Stuck u t) : s.lockFree = false := by
  obtain ⟨f, hf⟩ := h.sending
  simp [Multiplexer.lockFree, hf]

/-- The stall reads the dispatcher and the tasks alone. -/
theorem Stuck.congr (h : s.Stuck u t) (hd : x.dispatcher = s.dispatcher) (ht : x.tasks = s.tasks) :
    x.Stuck u t :=
  ⟨hd ▸ h.sending, ht ▸ h.full, ht ▸ h.waiting⟩

theorem Stuck.nextCorrelationId (h : s.Stuck u t) : s.nextCorrelationId.2.Stuck u t :=
  h.congr rfl rfl

/-- Another task's step keeps the stall. -/
theorem Stuck.setTask (h : s.Stuck u t) {v : Nat} (hu : v ≠ u) (ht : v ≠ t) (task : Task) :
    (s.setTask v task).Stuck u t := by
  obtain ⟨c, n, q, hq, hn⟩ := h.full
  obtain ⟨c', hc'⟩ := h.waiting
  refine ⟨h.sending, ⟨c, n, q, ?_, hn⟩, ⟨c', ?_⟩⟩
  · simp only [Multiplexer.setTask, Function.update_of_ne hu.symm, hq]
  · simp only [Multiplexer.setTask, Function.update_of_ne ht.symm, hc']

/-- **One step keeps the stall**: unless the consumer of the stream reads from it or drops it,
no action frees the lock, and the waiting task cannot take a step. -/
theorem Stuck.next (h : s.Stuck u t) {a : Action} (ha : a ≠ .recv u ∧ a ≠ .drop u) {s' : Multiplexer}
    (hnext : s.next a = some s') : s'.Stuck u t := by
  have hfree := h.lockFree
  obtain ⟨f, hf⟩ := h.sending
  obtain ⟨c, n, q, hq, hn⟩ := h.full
  obtain ⟨c', hc'⟩ := h.waiting
  cases a with
  | sendAndReceive v =>
    simp only [Multiplexer.next] at hnext
    split at hnext
    · rename_i hv
      cases hnext
      exact h.nextCorrelationId.setTask (ne_of_tasks hv hq (by simp)) (ne_of_tasks hv hc' (by simp)) _
    · cases hnext
  | createStream v k =>
    simp only [Multiplexer.next] at hnext
    split at hnext
    · rename_i hv
      split at hnext
      · cases hnext
        exact h.nextCorrelationId.setTask (ne_of_tasks hv hq (by simp)) (ne_of_tasks hv hc' (by simp)) _
      · cases hnext
    · cases hnext
  | timeout v =>
    simp only [Multiplexer.next] at hnext
    split at hnext
    · rename_i hv
      cases hnext
      exact h.setTask (ne_of_tasks hv hq (by simp)) (ne_of_tasks hv hc' (by simp)) _
    · rename_i hv
      cases hnext
      exact h.setTask (ne_of_tasks hv hq (by simp)) (ne_of_tasks hv hc' (by simp)) _
    · cases hnext
  | recv v =>
    have hvu : v ≠ u := fun hvu => ha.1 (hvu ▸ rfl)
    simp only [Multiplexer.next] at hnext
    split at hnext
    · rename_i hv
      cases hnext
      exact h.setTask hvu (ne_of_tasks hv hc' (by simp)) _
    · cases hnext
  | drop v =>
    have hvu : v ≠ u := fun hvu => ha.2 (hvu ▸ rfl)
    simp only [Multiplexer.next] at hnext
    split at hnext
    · rename_i hv
      cases hnext
      exact h.setTask hvu (ne_of_tasks hv hc' (by simp)) _
    · cases hnext
  | respond v =>
    simp only [Multiplexer.next] at hnext
    split at hnext
    · cases hnext
      exact h.congr rfl rfl
    · cases hnext
  | register v | finish v | registerStream v =>
    -- each of these takes the lock
    simp only [Multiplexer.next, hfree] at hnext
    split at hnext <;> simp at hnext
  | readFrame | lockSenders =>
    simp [Multiplexer.next, hf] at hnext
  | queueSend =>
    simp [Multiplexer.next, hf, hq, Task.pushQueue_full f hn] at hnext

/-- Along any run in which the stream's consumer neither reads nor drops it, the stall stays. -/
theorem Stuck.run (h : s.Stuck u t) {actions : List Action} (hactions : ∀ a ∈ actions, a ≠ .recv u ∧ a ≠ .drop u)
    {s' : Multiplexer} (hrun : Trace.run Multiplexer.next s actions = some s') : s'.Stuck u t :=
  Trace.run_invariant (P := fun s => s.Stuck u t) (fun _ _ _ hs ha hnext => hs.next ha hnext) h hactions hrun

end Multiplexer

/-- A stream with a queue of one, answered twice, then a `send_and_receive`. -/
def blockingRun : List Action :=
  [.createStream 0 1, .registerStream 0, .respond 0, .respond 0, .readFrame, .lockSenders, .readFrame,
    .lockSenders, .sendAndReceive 1]

theorem blockingRun_stuck :
    ∃ s, Trace.run Multiplexer.next Multiplexer.init blockingRun = some s ∧ s.Stuck 0 1 := by
  obtain ⟨s, hs⟩ := Option.isSome_iff_exists.mp
    (by decide : (Trace.run Multiplexer.next Multiplexer.init blockingRun).isSome = true)
  have hd : (Trace.run Multiplexer.next Multiplexer.init blockingRun).map Multiplexer.dispatcher =
      some (.sending ⟨1, 0⟩ 0) := by decide
  have h0 : (Trace.run Multiplexer.next Multiplexer.init blockingRun).map (fun s => s.tasks 0) =
      some (.streamOpen 1 1 [⟨1, 0⟩] false) := by decide
  have h1 : (Trace.run Multiplexer.next Multiplexer.init blockingRun).map (fun s => s.tasks 1) =
      some (.serialGotId 2) := by decide
  rw [hs, Option.map_some, Option.some.injEq] at hd h0 h1
  exact ⟨s, hs, ⟨_, hd⟩, ⟨1, 1, [⟨1, 0⟩], h0, Nat.le_refl 1⟩, ⟨2, h1⟩⟩

/-- **A full stream queue blocks `send_and_receive`**: once a stream's consumer stops reading and
its queue fills, the dispatcher awaits it holding the lock on the senders; a `send_and_receive`
waiting for that lock never returns, whatever the server sends and the other tasks do. -/
theorem fullQueue_blocks_request :
    ∃ s, Trace.run Multiplexer.next Multiplexer.init blockingRun = some s ∧
      ∀ actions s', (∀ a ∈ actions, a ≠ .recv 0 ∧ a ≠ .drop 0) →
        Trace.run Multiplexer.next s actions = some s' → ∀ c r, s'.tasks 1 ≠ .serialDone c r := by
  obtain ⟨s, hs, hstuck⟩ := blockingRun_stuck
  refine ⟨s, hs, fun actions s' hactions hrun c r hdone => ?_⟩
  obtain ⟨c', hc'⟩ := (hstuck.run hactions hrun).waiting
  rw [hdone] at hc'
  cases hc'

end Fluvio.Socket
