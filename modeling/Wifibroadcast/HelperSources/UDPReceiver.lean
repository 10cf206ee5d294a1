import Wifibroadcast.Crypto.Sodium

/-! # The receive loop of `UDPReceiver`

`SocketHelper.hpp`. A `UDPReceiver` owns a bound UDP socket and hands what it receives to its
callback. `loopUntilError` runs `while (receiving)`: one `recv` into a buffer of
`UDP_PACKET_MAX_SIZE` bytes, then the callback with the bytes received when `recv` returned a
positive length, and `receiving = false` otherwise, which ends the loop. `runInBackground` runs it
on a thread of its own; `stopLooping` clears `receiving`, then shuts the socket down and closes it,
which wakes a blocked `recv`; `stopBackground` does the same and then joins the thread.

`recv(mSocket, ...)` looks the descriptor number up when it is called. A thread already in `recv`
holds the socket, and the shutdown wakes it; but `close` frees the number, and once the rest of
the process has opened a file or socket and got it, a thread that passed its test of `receiving`
before the stop and calls `recv` only now blocks on a descriptor the receiver does not own.

The receive thread, the caller, the network and the rest of the process interleave freely. Over
every interleaving the callback gets the datagrams in the order they arrived, none skipped or
repeated, each cut to the buffer, up to the first empty datagram or failed `recv`: an empty
datagram ends the loop as an error does. Once `receiving` is false the callback runs at most once
more, and after `stopBackground` never again: nothing sets `receiving` back, so a loop that
`runInBackground` starts again leaves at its first test. A stop returns within seven steps of the
caller and the thread, unless the thread calls `recv` on a reused number: then `stopBackground`
waits in `join` for ever, short of a signal.
-/

namespace Wifibroadcast

/-- `UDP_PACKET_MAX_SIZE`, the size of the receive buffer. -/
def udpPacketMaxSize : Nat := 65507

/-- Where the thread running `loopUntilError` is. -/
inductive UDPReceiver.Pc
  /-- At the test of `while (receiving)`. -/
  | test
  /-- Calling `recv(mSocket, ...)`, which looks the descriptor number up. -/
  | recv
  /-- In `recv` on the receiver's socket, which blocks until a datagram is queued or the socket is
  shut down. -/
  | waiting
  /-- `recv` returned `messageLength`, and the buffer starts with `buff`. -/
  | received (messageLength : Int) (buff : Bytes)
  deriving DecidableEq, Repr

/-- A thread `receiverThread` points to: in `loopUntilError`, or returned from it. -/
inductive UDPReceiver.LoopThread
  | running (pc : UDPReceiver.Pc)
  | finished
  deriving DecidableEq, Repr

/-- The descriptor number `mSocket`: the bound socket, shut down, freed by `close`, or freed and
then handed to a file or socket the rest of the process opened. -/
inductive UDPReceiver.SocketState
  | bound
  | shutDown
  | closed
  | reused
  deriving DecidableEq, Repr

/-- Where the caller is inside `stopLooping()`, or inside `stopBackground()` when `thenJoin`. -/
inductive UDPReceiver.CallerPc
  | idle
  /-- `receiving = false` is done; `shutdown(mSocket, SHUT_RDWR)` is next. -/
  | shutdown (thenJoin : Bool)
  /-- `close(mSocket)` is next. -/
  | close (thenJoin : Bool)
  /-- `receiverThread->join()`, then `receiverThread = nullptr`. -/
  | join
  deriving DecidableEq, Repr

/-- A `UDPReceiver`, with the datagrams the kernel queues on its socket, where its caller is, and
the buffers its callback `mCb` was given, oldest first. -/
structure UDPReceiver where
  receiving : Bool
  socket : UDPReceiver.SocketState
  queue : List Bytes
  receiverThread : Option UDPReceiver.LoopThread
  caller : UDPReceiver.CallerPc
  delivered : List Bytes
  deriving DecidableEq, Repr

/-- One step of the system. -/
inductive UDPReceiver.Event
  /-- A datagram reaches the receiver's port. -/
  | arrive (datagram : Bytes)
  /-- A blocked `recv` fails: a signal, a receive timeout. -/
  | recvError
  /-- The receive thread takes its next step. -/
  | loop
  /-- The caller calls `runInBackground()`. -/
  | runInBackground
  /-- The caller calls `stopLooping()`. -/
  | stopLooping
  /-- The caller calls `stopBackground()`. -/
  | stopBackground
  /-- The caller takes its next step inside `stopLooping()` or `stopBackground()`. -/
  | caller
  /-- Another thread of the process opens a file or socket and gets the number `close` freed. -/
  | reuse
  deriving DecidableEq, Repr

namespace UDPReceiver

/-- The object the constructor returns once `openUdpSocketForReceiving` has bound its socket. -/
def create : UDPReceiver where
  receiving := true
  socket := .bound
  queue := []
  receiverThread := none
  caller := .idle
  delivered := []

/-- The bytes of a datagram that `recv` writes to the buffer. -/
def inBuffer (datagram : Bytes) : Bytes := datagram.take udpPacketMaxSize

/-- The socket still exists and takes datagrams: its descriptor is open, or a thread in `recv`
holds it. -/
def Alive (r : UDPReceiver) : Prop :=
  r.socket = .bound ∨ r.socket = .shutDown ∨ r.receiverThread = some (.running .waiting)

instance : DecidablePred Alive := fun _ => inferInstanceAs (Decidable (_ ∨ _ ∨ _))

/-- The next step of `loopUntilError` at `pc`; none while `recv` blocks. `recv` on a freed number
fails, on a reused one it blocks on a descriptor the receiver does not own, and on the receiver's
socket it waits; a shut-down socket with nothing queued makes it return 0. The socket is closed
only after it is shut down. -/
def loopStep (r : UDPReceiver) : Pc → Option UDPReceiver
  | .test => some { r with receiverThread := some (if r.receiving then .running .recv else .finished) }
  | .recv =>
      match r.socket with
      | .closed => some { r with receiverThread := some (.running (.received (-1) [])) }
      | .reused => none
      | .bound | .shutDown => some { r with receiverThread := some (.running .waiting) }
  | .waiting =>
      match r.queue with
      | d :: rest => some { r with
          queue := rest
          receiverThread := some (.running (.received (inBuffer d).length (inBuffer d))) }
      | [] =>
          if r.socket = .bound then none
          else some { r with receiverThread := some (.running (.received 0 [])) }
  | .received messageLength buff =>
      if 0 < messageLength then
        some { r with delivered := r.delivered ++ [buff], receiverThread := some (.running .test) }
      else some { r with receiving := false, receiverThread := some (.running .test) }

/-- The caller's next step inside `stopLooping()` or `stopBackground()`; none while `join` waits.
`shutdown` of a number that is no longer the socket's leaves the socket as it is. -/
def callerStep (r : UDPReceiver) : CallerPc → Option UDPReceiver
  | .idle => none
  | .shutdown thenJoin => some { r with
      socket := if r.socket = .bound then .shutDown else r.socket
      caller := .close thenJoin }
  | .close thenJoin => some { r with
      socket := .closed
      caller := if thenJoin then .join else .idle }
  | .join =>
      match r.receiverThread with
      | some (.running _) => none
      | _ => some { r with receiverThread := none, caller := .idle }

/-- A step, or none when it cannot be taken. `runInBackground` leaves a thread that is there, and
the calls are made by one caller, one at a time. -/
def step (r : UDPReceiver) : Event → Option UDPReceiver
  | .arrive datagram => some (if r.Alive then { r with queue := r.queue ++ [datagram] } else r)
  | .recvError =>
      if r.receiverThread = some (.running .waiting) ∨
          r.receiverThread = some (.running .recv) ∧ r.socket = .reused then
        some { r with receiverThread := some (.running (.received (-1) [])) }
      else none
  | .loop =>
      match r.receiverThread with
      | some (.running pc) => r.loopStep pc
      | _ => none
  | .runInBackground =>
      if r.caller = .idle then
        some (if r.receiverThread.isSome then r else { r with receiverThread := some (.running .test) })
      else none
  | .stopLooping =>
      if r.caller = .idle then some { r with receiving := false, caller := .shutdown false } else none
  | .stopBackground =>
      if r.caller = .idle then some { r with receiving := false, caller := .shutdown true } else none
  | .caller => r.callerStep r.caller
  | .reuse => if r.socket = .closed then some { r with socket := .reused } else none

/-- The steps of `events` in order, or none if one of them cannot be taken. -/
def run (r : UDPReceiver) : List Event → Option UDPReceiver
  | [] => some r
  | e :: events => (r.step e).bind fun r => r.run events

/-- The datagram an event brings. -/
def Event.arrived : Event → List Bytes
  | .arrive datagram => [datagram]
  | _ => []

/-- The datagrams that reach the receiver's port during `events`, in order. -/
def arrivals (events : List Event) : List Bytes := events.flatMap Event.arrived

theorem run_cons (r : UDPReceiver) (e : Event) (events : List Event) :
    r.run (e :: events) = (r.step e).bind fun r => r.run events := rfl

/-- What a step of the receive thread can do, branch by branch of `loopUntilError`. -/
theorem loop_cases {r r' : UDPReceiver} (h : r.step .loop = some r') :
    (r.receiverThread = some (.running .test) ∧
      r' = { r with receiverThread := some (if r.receiving then .running .recv else .finished) }) ∨
    (r.receiverThread = some (.running .recv) ∧ r.socket = .closed ∧
      r' = { r with receiverThread := some (.running (.received (-1) [])) }) ∨
    (r.receiverThread = some (.running .recv) ∧ (r.socket = .bound ∨ r.socket = .shutDown) ∧
      r' = { r with receiverThread := some (.running .waiting) }) ∨
    (∃ d rest, r.receiverThread = some (.running .waiting) ∧ r.queue = d :: rest ∧
      r' = { r with
        queue := rest
        receiverThread := some (.running (.received (inBuffer d).length (inBuffer d))) }) ∨
    (r.receiverThread = some (.running .waiting) ∧ r.queue = [] ∧ r.socket ≠ .bound ∧
      r' = { r with receiverThread := some (.running (.received 0 [])) }) ∨
    (∃ n buff, r.receiverThread = some (.running (.received n buff)) ∧ 0 < n ∧
      r' = { r with delivered := r.delivered ++ [buff], receiverThread := some (.running .test) }) ∨
    (∃ n buff, r.receiverThread = some (.running (.received n buff)) ∧ n ≤ 0 ∧
      r' = { r with receiving := false, receiverThread := some (.running .test) }) := by
  simp only [step] at h
  split at h
  · next pc ht =>
    cases pc with
    | test => exact .inl ⟨ht, (Option.some.inj h).symm⟩
    | recv =>
      simp only [loopStep] at h
      split at h
      · next hs => exact .inr (.inl ⟨ht, hs, (Option.some.inj h).symm⟩)
      · cases h
      · next hs => exact .inr (.inr (.inl ⟨ht, .inl hs, (Option.some.inj h).symm⟩))
      · next hs => exact .inr (.inr (.inl ⟨ht, .inr hs, (Option.some.inj h).symm⟩))
    | waiting =>
      simp only [loopStep] at h
      split at h
      · next d rest hq => exact .inr (.inr (.inr (.inl ⟨d, rest, ht, hq, (Option.some.inj h).symm⟩)))
      · next hq =>
        split_ifs at h with hs
        exact .inr (.inr (.inr (.inr (.inl ⟨ht, hq, hs, (Option.some.inj h).symm⟩))))
    | received n buff =>
      simp only [loopStep] at h
      split_ifs at h with hn
      · exact .inr (.inr (.inr (.inr (.inr (.inl ⟨n, buff, ht, hn, (Option.some.inj h).symm⟩)))))
      · exact .inr (.inr (.inr (.inr (.inr (.inr
          ⟨n, buff, ht, Int.not_lt.mp hn, (Option.some.inj h).symm⟩)))))
  · cases h

/-! ## Stopping -/

/-- The callbacks the receive thread can still make without another test of `receiving`: one in
`recv` or holding a datagram, none otherwise. -/
def pending (r : UDPReceiver) : Nat :=
  match r.receiverThread with
  | some (.running .recv) | some (.running .waiting) => 1
  | some (.running (.received messageLength _)) => if 0 < messageLength then 1 else 0
  | _ => 0

theorem pending_le_one (r : UDPReceiver) : r.pending ≤ 1 := by
  unfold pending; split <;> (try split) <;> omega

/-- Once `receiving` is false, no step sets it back, and a step calls the callback only in place of
the call the thread had pending. -/
theorem step_of_not_receiving {r r' : UDPReceiver} {e : Event} (hr : r.receiving = false)
    (h : r.step e = some r') :
    r'.receiving = false ∧ ∃ new, r'.delivered = r.delivered ++ new ∧
      new.length + r'.pending ≤ r.pending := by
  have frame : r'.receiving = r.receiving → r'.delivered = r.delivered →
      r'.receiverThread = r.receiverThread →
      r'.receiving = false ∧ ∃ new, r'.delivered = r.delivered ++ new ∧
        new.length + r'.pending ≤ r.pending := fun h1 h2 h3 =>
    ⟨h1 ▸ hr, [], by simp [h2], by simp [pending, h3]⟩
  have gone : r'.receiverThread = some (.running (.received (-1) [])) → r'.receiving = r.receiving →
      r'.delivered = r.delivered →
      r'.receiving = false ∧ ∃ new, r'.delivered = r.delivered ++ new ∧
        new.length + r'.pending ≤ r.pending := fun h1 h2 h3 =>
    ⟨h2 ▸ hr, [], by simp [h3], by simp [pending, h1]⟩
  cases e with
  | arrive d =>
    simp only [step, Option.some.injEq] at h
    split_ifs at h <;> subst h <;> exact frame rfl rfl rfl
  | recvError =>
    simp only [step] at h; split_ifs at h; cases h
    exact gone rfl rfl rfl
  | loop =>
    rcases loop_cases h with ⟨ht, rfl⟩ | ⟨ht, -, rfl⟩ | ⟨ht, -, rfl⟩ | ⟨d, rest, ht, -, rfl⟩ |
      ⟨ht, -, -, rfl⟩ | ⟨n, buff, ht, hn, rfl⟩ | ⟨n, buff, ht, hn, rfl⟩
    · exact ⟨hr, [], by simp, by simp [pending, ht, hr]⟩
    · exact gone rfl rfl rfl
    · exact ⟨hr, [], by simp, by simp [pending, ht]⟩
    · exact ⟨hr, [], by simp, Nat.zero_add _ ▸ (pending_le_one _).trans (by simp [pending, ht])⟩
    · exact ⟨hr, [], by simp, by simp [pending]⟩
    · exact ⟨hr, [buff], rfl, by simp [pending, ht, hn]⟩
    · exact ⟨rfl, [], by simp, by simp [pending]⟩
  | runInBackground =>
    simp only [step] at h; split_ifs at h <;> cases h
    · exact frame rfl rfl rfl
    · exact ⟨hr, [], by simp, by simp [pending, *]⟩
  | stopLooping | stopBackground =>
    simp only [step] at h; split_ifs at h; cases h
    exact ⟨rfl, [], by simp, by simp [pending]⟩
  | caller =>
    simp only [step] at h
    cases hc : r.caller <;> rw [hc] at h <;> simp only [callerStep] at h
    · cases h
    · cases h; exact frame rfl rfl rfl
    · cases h; exact frame rfl rfl rfl
    · split at h
      · cases h
      · cases h; exact ⟨hr, [], by simp, by simp [pending]⟩
  | reuse =>
    simp only [step] at h; split_ifs at h; cases h
    exact frame rfl rfl rfl

theorem run_of_not_receiving :
    ∀ {r r' : UDPReceiver} (events : List Event), r.receiving = false → r.run events = some r' →
      ∃ new, r'.delivered = r.delivered ++ new ∧ new.length + r'.pending ≤ r.pending
  | _, _, [], _, h => by cases h; exact ⟨[], by simp, by simp⟩
  | _, _, e :: events, hr, h => by
      obtain ⟨r₁, h₁, h⟩ := Option.bind_eq_some.mp h
      obtain ⟨hr₁, new₁, hd₁, hp₁⟩ := step_of_not_receiving hr h₁
      obtain ⟨new₂, hd₂, hp₂⟩ := run_of_not_receiving events hr₁ h
      exact ⟨new₁ ++ new₂, by rw [hd₂, hd₁, List.append_assoc], by simp only [List.length_append]; omega⟩

/-- Once `receiving` is false, whatever the receive thread, the caller and the network do next,
the callback is called at most once more, and never again once no thread is left, as after
`stopBackground` returns: nothing sets `receiving` back, so a loop `runInBackground` starts again
leaves at its first test. -/
theorem stopped_receiver_calls_back_at_most_once {r r' : UDPReceiver} (hr : r.receiving = false)
    {events : List Event} (h : r.run events = some r') :
    r.delivered <+: r'.delivered ∧ r'.delivered.length ≤ r.delivered.length + 1 ∧
      (r.receiverThread = none → r'.delivered = r.delivered) := by
  obtain ⟨new, hd, hp⟩ := run_of_not_receiving events hr h
  have hle := pending_le_one r
  refine ⟨hd ▸ List.prefix_append _ _, by rw [hd, List.length_append]; omega, fun hnone => ?_⟩
  have h0 : r.pending = 0 := by simp [pending, hnone]
  rw [hd, List.eq_nil_of_length_eq_zero (by omega : new.length = 0), List.append_nil]

/-! ## Delivery -/

/-- The receive thread takes no datagram any more: it is past its last `recv`, and once it has
left the loop or been joined, `receiving` is false, so a thread started again leaves at its first
test. -/
def Drained (r : UDPReceiver) : Prop :=
  match r.receiverThread with
  | some (.running .recv) | some (.running .waiting) => False
  | some (.running (.received messageLength _)) => messageLength ≤ 0
  | _ => r.receiving = false

/-- `Drained` reads the thread, and `receiving` once the thread is out of `recv`. -/
theorem Drained.congr {r r' : UDPReceiver} (hd : r.Drained)
    (ht : r'.receiverThread = r.receiverThread) (hr : r.receiving = false → r'.receiving = false) :
    r'.Drained := by
  unfold Drained at hd ⊢
  rw [ht]
  split <;> simp_all

theorem Drained.step {r r' : UDPReceiver} {e : Event} (hd : r.Drained) (h : r.step e = some r') :
    r'.Drained := by
  have fixed : r'.receiverThread = r.receiverThread → r'.receiving = r.receiving → r'.Drained :=
    fun ht hr => hd.congr ht fun h => hr ▸ h
  cases e with
  | arrive d =>
    simp only [UDPReceiver.step, Option.some.injEq] at h
    split_ifs at h <;> subst h <;> exact fixed rfl rfl
  | recvError =>
    simp only [UDPReceiver.step] at h; split_ifs at h; cases h; exact (by decide : (-1 : Int) ≤ 0)
  | loop =>
    unfold Drained at hd
    rcases loop_cases h with ⟨ht, rfl⟩ | ⟨ht, -, rfl⟩ | ⟨ht, -, rfl⟩ | ⟨d, rest, ht, -, rfl⟩ |
      ⟨ht, -, -, rfl⟩ | ⟨n, buff, ht, hn, rfl⟩ | ⟨n, buff, ht, hn, rfl⟩ <;> rw [ht] at hd
    · -- the test with `receiving` false: the thread leaves the loop
      have hrec : r.receiving = false := hd
      simp [Drained, hrec]
    -- a thread about to call `recv` or in it is not drained
    · exact hd.elim
    · exact hd.elim
    · exact hd.elim
    · exact hd.elim
    · exact absurd hd (Int.not_le.mpr hn)
    · rfl
  | runInBackground =>
    simp only [UDPReceiver.step] at h; split_ifs at h with _ ht <;> cases h
    · exact hd
    · unfold Drained at hd ⊢; simp only [Option.not_isSome_iff_eq_none.mp ht] at hd; exact hd
  | stopLooping | stopBackground =>
    simp only [UDPReceiver.step] at h; split_ifs at h; cases h
    exact hd.congr rfl fun _ => rfl
  | caller =>
    simp only [UDPReceiver.step] at h
    cases hc : r.caller <;> rw [hc] at h <;> simp only [callerStep] at h
    · cases h
    · cases h; exact hd
    · cases h; exact hd
    · split at h
      · cases h
      · next ht => cases h; unfold Drained at hd ⊢; split at hd <;> simp_all
  | reuse =>
    simp only [UDPReceiver.step] at h; split_ifs at h; cases h
    exact hd

/-- The buffer the receive thread holds between `recv` and the callback. -/
def inflight (r : UDPReceiver) : List Bytes :=
  match r.receiverThread with
  | some (.running (.received messageLength buff)) => if 0 < messageLength then [buff] else []
  | _ => []

/-- What the receiver did with the datagrams `arrived`: the thread took `consumed` from their
front, in order; while the socket exists it queues the rest; the callback got each datagram taken
before the first empty one, cut to the buffer, but the one the thread holds; and after an empty
one the thread takes no more. -/
structure Taken (arrived consumed : List Bytes) (r : UDPReceiver) : Prop where
  front : consumed ++ r.queue <+: arrived
  queued : r.Alive → consumed ++ r.queue = arrived
  delivered : r.delivered ++ r.inflight = (consumed.takeWhile (!·.isEmpty)).map inBuffer
  drained : [] ∈ consumed → r.Drained

/-- A step that takes no datagram and leaves the queue keeps the invariant. -/
theorem Taken.frame {arrived consumed : List Bytes} {r r' : UDPReceiver}
    (h : Taken arrived consumed r) (hd : r.Drained → r'.Drained) (hq : r'.queue = r.queue)
    (ha : r'.Alive → r.Alive)
    (hdl : r'.delivered ++ r'.inflight = r.delivered ++ r.inflight) : Taken arrived consumed r' :=
  ⟨hq ▸ h.front, fun hc => hq ▸ h.queued (ha hc), hdl ▸ h.delivered, fun hm => hd (h.drained hm)⟩

/-- Once the thread has left `recv`, the socket exists only while its descriptor is open. -/
theorem alive_of_socket {r r' : UDPReceiver} (hs : r'.socket = r.socket)
    (ht : r'.receiverThread ≠ some (.running .waiting)) : r'.Alive → r.Alive := by
  rintro (h | h | h)
  · exact .inl (hs ▸ h)
  · exact .inr (.inl (hs ▸ h))
  · exact (ht h).elim

/-- Once its number is freed, the socket exists only while a thread in `recv` holds it. -/
theorem alive_of_freed {r r' : UDPReceiver} (hs : r'.socket = .closed ∨ r'.socket = .reused)
    (ht : r'.receiverThread = r.receiverThread) : r'.Alive → r.Alive := by
  rintro (h | h | h)
  · rcases hs with hs | hs <;> simp [hs] at h
  · rcases hs with hs | hs <;> simp [hs] at h
  · exact .inr (.inr (ht ▸ h))

/-- `shutdown` leaves the socket alive. -/
theorem alive_shutdown_iff (r : UDPReceiver) (c : CallerPc) :
    Alive { r with socket := if r.socket = .bound then .shutDown else r.socket, caller := c } ↔
      r.Alive := by
  unfold Alive; split_ifs with h <;> simp [h]

/-- The datagrams taken so far stay the front of those that arrived, and every step keeps the
invariant: a `recv` that takes a datagram hands it on, or ends the loop on an empty one. -/
theorem Taken.step {arrived consumed : List Bytes} {r r' : UDPReceiver} {e : Event}
    (h : Taken arrived consumed r) (hstep : r.step e = some r') :
    ∃ consumed', Taken (arrived ++ e.arrived) consumed' r' := by
  have hd := fun hr => Drained.step hr hstep
  cases e with
  | arrive d =>
    simp only [UDPReceiver.step, Option.some.injEq] at hstep; subst hstep
    refine ⟨consumed, ?_⟩
    split_ifs with ha
    · refine ⟨?_, fun _ => ?_, h.delivered, h.drained⟩ <;>
        simp [Event.arrived, ← h.queued ha]
    · exact ⟨h.front.trans (List.prefix_append _ _), fun h' => (ha h').elim, h.delivered, h.drained⟩
  | recvError =>
    simp only [Event.arrived, List.append_nil]
    simp only [UDPReceiver.step] at hstep; split_ifs at hstep with ht; cases hstep
    refine ⟨consumed, h.frame hd rfl (alive_of_socket rfl nofun) ?_⟩
    rcases ht with ht | ⟨ht, -⟩ <;> simp [inflight, ht]
  | loop =>
    simp only [Event.arrived, List.append_nil]
    rcases loop_cases hstep with ⟨ht, rfl⟩ | ⟨ht, -, rfl⟩ | ⟨ht, hs, rfl⟩ | ⟨d, rest, ht, hq, rfl⟩ |
      ⟨ht, -, -, rfl⟩ | ⟨n, buff, ht, hn, rfl⟩ | ⟨n, buff, ht, hn, rfl⟩
    · refine ⟨consumed, h.frame hd rfl (alive_of_socket rfl ?_) ?_⟩ <;>
        cases r.receiving <;> simp [inflight, ht]
    · exact ⟨consumed, h.frame hd rfl (alive_of_socket rfl nofun) (by simp [inflight, ht])⟩
    · exact ⟨consumed, h.frame hd rfl (fun _ => by rcases hs with hs | hs <;> simp [Alive, hs])
        (by simp [inflight, ht])⟩
    · have hnil : [] ∉ consumed := fun hm => by
        have := h.drained hm; unfold Drained at this; rw [ht] at this; exact this
      have hqueued := h.queued (.inr (.inr ht))
      have hdel := h.delivered
      rw [show r.inflight = [] by simp [inflight, ht], List.append_nil,
        List.takeWhile_eq_self_iff.mpr fun a ha => by cases a; exacts [(hnil ha).elim, rfl]]
        at hdel
      refine ⟨consumed ++ [d], ?_, fun _ => ?_, ?_, fun hm => ?_⟩
      · rw [← hqueued, hq]; simp
      · rw [← hqueued, hq]; simp
      · rw [List.takeWhile_append_of_pos fun a ha => by cases a; exacts [(hnil ha).elim, rfl]]
        cases d with
        | nil => simp [inflight, hdel, inBuffer]
        | cons b bs =>
          have hpos : (0 : Int) < (inBuffer (b :: bs)).length := by
            simp only [inBuffer, udpPacketMaxSize, List.length_take, List.length_cons]; omega
          simp [inflight, hdel, hpos]
      · obtain hm | hm := List.mem_append.mp hm
        · exact (hnil hm).elim
        · obtain rfl := List.mem_singleton.mp hm
          show ((inBuffer []).length : Int) ≤ 0
          simp [inBuffer]
    · exact ⟨consumed, h.frame hd rfl (fun _ => .inr (.inr ht)) (by simp [inflight, ht])⟩
    · exact ⟨consumed, h.frame hd rfl (alive_of_socket rfl nofun) (by simp [inflight, ht, hn])⟩
    · exact ⟨consumed, h.frame hd rfl (alive_of_socket rfl nofun)
        (by simp [inflight, ht, Int.not_lt.mpr hn])⟩
  | runInBackground =>
    simp only [Event.arrived, List.append_nil]
    simp only [UDPReceiver.step] at hstep; split_ifs at hstep with _ ht <;> cases hstep
    · exact ⟨consumed, h⟩
    · refine ⟨consumed, h.frame hd rfl (alive_of_socket rfl nofun) ?_⟩
      simp [inflight, Option.not_isSome_iff_eq_none.mp ht]
  | stopLooping | stopBackground =>
    simp only [Event.arrived, List.append_nil]
    simp only [UDPReceiver.step] at hstep; split_ifs at hstep; cases hstep
    exact ⟨consumed, h.frame hd rfl id rfl⟩
  | caller =>
    simp only [Event.arrived, List.append_nil]
    simp only [UDPReceiver.step] at hstep
    cases hc : r.caller <;> rw [hc] at hstep <;> simp only [callerStep] at hstep
    · cases hstep
    · cases hstep
      exact ⟨consumed, h.frame hd rfl (alive_shutdown_iff _ _).mp rfl⟩
    · cases hstep
      exact ⟨consumed, h.frame hd rfl (alive_of_freed (.inl rfl) rfl) rfl⟩
    · split at hstep
      · cases hstep
      · cases hstep
        exact ⟨consumed, h.frame hd rfl (alive_of_socket rfl nofun)
          (by unfold inflight; split <;> simp_all)⟩
  | reuse =>
    simp only [Event.arrived, List.append_nil]
    simp only [UDPReceiver.step] at hstep; split_ifs at hstep; cases hstep
    exact ⟨consumed, h.frame hd rfl (alive_of_freed (.inr rfl) rfl) rfl⟩

theorem Taken.run :
    ∀ {arrived consumed : List Bytes} {r r' : UDPReceiver} (events : List Event),
      Taken arrived consumed r → r.run events = some r' →
        ∃ consumed', Taken (arrived ++ arrivals events) consumed' r'
  | _, _, _, _, [], h, hrun => by cases hrun; exact ⟨_, by simpa [arrivals] using h⟩
  | _, _, _, _, e :: events, h, hrun => by
      obtain ⟨r₁, h₁, hrun⟩ := Option.bind_eq_some.mp hrun
      obtain ⟨c₁, t₁⟩ := h.step h₁
      obtain ⟨c, t⟩ := t₁.run events hrun
      exact ⟨c, by simpa [arrivals, List.append_assoc] using t⟩

theorem takeWhile_mono_of_front {p : Bytes → Bool} {l₁ l₂ : List Bytes} (h : l₁ <+: l₂) :
    l₁.takeWhile p <+: l₂.takeWhile p := by
  obtain ⟨t, rfl⟩ := h
  rw [List.takeWhile_append]
  split
  · next hlen =>
    rw [(List.takeWhile_prefix p).eq_of_length hlen]
    exact List.prefix_append _ _
  · exact List.prefix_refl _

/-- Over every interleaving of the receive thread, the caller and the network from the constructor
on, the callback has been given the datagrams that reached the socket, in order, none skipped or
repeated, each cut to `UDP_PACKET_MAX_SIZE` bytes, up to the first empty one: an empty datagram
ends the loop as a failed `recv` does. -/
theorem callback_gets_datagrams_in_order {events : List Event} {r : UDPReceiver}
    (h : create.run events = some r) :
    r.delivered <+: ((arrivals events).takeWhile (!·.isEmpty)).map inBuffer := by
  obtain ⟨consumed, t⟩ := Taken.run events
    (⟨List.prefix_refl _, fun _ => rfl, rfl, nofun⟩ : Taken [] [] create) h
  have hfront : consumed <+: arrivals events :=
    (List.prefix_append _ _).trans (by simpa using t.front)
  exact (List.prefix_append _ _).trans
    (t.delivered ▸ (takeWhile_mono_of_front hfront).map inBuffer)

/-! ## Stopping returns, unless the number is reused -/

/-- Steps the caller still takes inside `stopLooping()` or `stopBackground()`. -/
def CallerPc.remaining : CallerPc → Nat
  | .idle => 0
  | .shutdown thenJoin => if thenJoin then 3 else 2
  | .close thenJoin => if thenJoin then 2 else 1
  | .join => 1

/-- Steps the receive thread still takes before it leaves the loop, once `receiving` is false. -/
def LoopThread.remaining : Option LoopThread → Nat
  | some (.running .recv) => 4
  | some (.running .waiting) => 3
  | some (.running (.received _ _)) => 2
  | some (.running .test) => 1
  | _ => 0

/-- Steps left to the caller and the receive thread before `stopLooping()` or `stopBackground()`
returns. -/
def remaining (r : UDPReceiver) : Nat := r.caller.remaining + LoopThread.remaining r.receiverThread

/-- A step of the receive thread or of the caller, as opposed to a datagram arriving or the rest of
the process opening a descriptor. -/
def Event.isThreadStep : Event → Bool
  | .arrive _ | .reuse => false
  | _ => true

/-- Inside `stopLooping()` or `stopBackground()`: `receiving` is false, and the caller joins only
once it has closed the socket. -/
structure Stopping (r : UDPReceiver) : Prop where
  busy : r.caller ≠ .idle
  receiving : r.receiving = false
  closed : r.caller = .join → r.socket = .closed ∨ r.socket = .reused

/-- `stopBackground()` waits in `join` for a thread that called `recv` on the number after the rest
of the process reused it. -/
def BlockedJoin (r : UDPReceiver) : Prop :=
  r.caller = .join ∧ r.socket = .reused ∧ r.receiverThread = some (.running .recv)

theorem Stopping.remaining_pos {r : UDPReceiver} (hs : Stopping r) : 0 < r.remaining := by
  have : 0 < r.caller.remaining := by
    have := hs.busy; unfold CallerPc.remaining; split <;> (try split) <;> simp_all
  unfold remaining; omega

/-- A step of the receive thread leaves the caller and the socket alone and, once `receiving` is
false, keeps it so and lowers the thread's remaining steps. -/
theorem thread_step_keeps_caller_lowers_remaining {r r' : UDPReceiver} {e : Event}
    (he : e = .loop ∨ e = .recvError) (h : r.step e = some r') :
    r'.caller = r.caller ∧ r'.socket = r.socket ∧ (r.receiving = false → r'.receiving = false ∧
      LoopThread.remaining r'.receiverThread < LoopThread.remaining r.receiverThread) := by
  obtain rfl | rfl := he
  · rcases loop_cases h with ⟨ht, rfl⟩ | ⟨ht, -, rfl⟩ | ⟨ht, -, rfl⟩ | ⟨d, rest, ht, -, rfl⟩ |
      ⟨ht, -, -, rfl⟩ | ⟨n, buff, ht, -, rfl⟩ | ⟨n, buff, ht, -, rfl⟩ <;>
      exact ⟨rfl, rfl, fun hr => by simp [LoopThread.remaining, ht, hr]⟩
  · simp only [UDPReceiver.step] at h; split_ifs at h with ht; cases h
    refine ⟨rfl, rfl, fun hr => ⟨hr, ?_⟩⟩
    rcases ht with ht | ⟨ht, -⟩ <;> simp [LoopThread.remaining, ht]

/-- While the caller stays inside `stopLooping()` or `stopBackground()`, every step keeps it
`Stopping`, and every step of the receive thread or of the caller brings the return closer. -/
theorem Stopping.step {r r' : UDPReceiver} {e : Event} (hs : Stopping r) (h : r.step e = some r')
    (hc : r'.caller ≠ .idle) :
    Stopping r' ∧ r'.remaining + (if e.isThreadStep then 1 else 0) ≤ r.remaining := by
  have thread : e = .loop ∨ e = .recvError → Stopping r' ∧ r'.remaining + 1 ≤ r.remaining := by
    intro he
    obtain ⟨hc', hsock, hthread⟩ := thread_step_keeps_caller_lowers_remaining he h
    obtain ⟨hr, hlt⟩ := hthread hs.receiving
    exact ⟨⟨hc' ▸ hs.busy, hr, hc' ▸ hsock ▸ hs.closed⟩, by unfold remaining; rw [hc']; omega⟩
  cases e with
  | arrive d =>
    simp only [UDPReceiver.step, Option.some.injEq] at h; subst h
    refine ⟨by split_ifs <;> exact ⟨hs.busy, hs.receiving, hs.closed⟩, ?_⟩
    simp only [Event.isThreadStep, Bool.false_eq_true, if_false, Nat.add_zero]; split_ifs <;> rfl
  | recvError => simpa [Event.isThreadStep] using thread (.inr rfl)
  | loop => simpa [Event.isThreadStep] using thread (.inl rfl)
  | runInBackground | stopLooping | stopBackground =>
    simp only [UDPReceiver.step, if_neg hs.busy] at h; cases h
  | caller =>
    simp only [UDPReceiver.step] at h
    have hr := hs.receiving
    cases hcal : r.caller with
    | idle => exact (hs.busy hcal).elim
    | shutdown thenJoin =>
      rw [hcal] at h; cases h
      refine ⟨⟨nofun, hr, nofun⟩, ?_⟩
      cases thenJoin <;> simp [remaining, CallerPc.remaining, Event.isThreadStep, hcal] <;> omega
    | close thenJoin =>
      rw [hcal] at h; cases h
      cases thenJoin
      · exact (hc rfl).elim
      · refine ⟨⟨nofun, hr, fun _ => .inl rfl⟩, ?_⟩
        simp [remaining, CallerPc.remaining, Event.isThreadStep, hcal]; omega
    | join =>
      rw [hcal] at h; simp only [callerStep] at h
      split at h
      · cases h
      · cases h; exact (hc rfl).elim
  | reuse =>
    simp only [UDPReceiver.step] at h; split_ifs at h with hsock; cases h
    exact ⟨⟨hs.busy, hs.receiving, fun _ => .inr rfl⟩, by simp [remaining, Event.isThreadStep]⟩

theorem Stopping.run :
    ∀ {r r' : UDPReceiver} (events : List Event), Stopping r → r.run events = some r' →
      r.remaining ≤ (events.filter Event.isThreadStep).length →
        ∃ p, p <+: events ∧ ∃ s, r.run p = some s ∧ s.caller = .idle
  | _, _, [], hs, _, hle => by simp at hle; exact absurd hle hs.remaining_pos.ne'
  | r, _, e :: events, hs, h, hle => by
      obtain ⟨r₁, h₁, h⟩ := Option.bind_eq_some.mp h
      by_cases hc : r₁.caller = .idle
      · exact ⟨[e], ⟨events, rfl⟩, r₁, by simp [UDPReceiver.run, h₁], hc⟩
      obtain ⟨hs₁, hlt⟩ := hs.step h₁ hc
      obtain ⟨p, hp, s, hs', hidle⟩ := Stopping.run events hs₁ h (by
        cases hth : e.isThreadStep <;> simp [List.filter_cons, hth] at hle hlt <;> omega)
      exact ⟨e :: p, (List.prefix_cons_inj e).mpr hp, s, by simp [UDPReceiver.run, h₁, hs'], hidle⟩

/-- A join blocked on a thread in `recv` on a reused number: the only step left is a failed `recv`
(a signal or a timeout, which the receiver never sets up). -/
theorem BlockedJoin.step {r r' : UDPReceiver} {e : Event} (hb : r.BlockedJoin)
    (h : r.step e = some r') (he : e ≠ .recvError) : r' = r := by
  obtain ⟨hcal, hsock, ht⟩ := hb
  have hna : ¬ r.Alive := by rintro (h | h | h) <;> simp_all
  cases e with
  | arrive d => simp only [UDPReceiver.step, if_neg hna, Option.some.injEq] at h; exact h.symm
  | recvError => exact (he rfl).elim
  | loop => simp [UDPReceiver.step, ht, loopStep, hsock] at h
  | runInBackground | stopLooping | stopBackground => simp [UDPReceiver.step, hcal] at h
  | caller => simp [UDPReceiver.step, hcal, callerStep, ht] at h
  | reuse => simp [UDPReceiver.step, hsock] at h

theorem BlockedJoin.run :
    ∀ {r r' : UDPReceiver} (events : List Event), r.BlockedJoin → r.run events = some r' →
      Event.recvError ∉ events → r' = r
  | _, _, [], _, h, _ => by cases h; rfl
  | _, _, e :: events, hb, h, hne => by
      obtain ⟨r₁, h₁, hrun⟩ := Option.bind_eq_some.mp h
      obtain rfl := hb.step h₁ fun he => hne (he ▸ List.mem_cons_self _ _)
      exact BlockedJoin.run events hb hrun fun hm => hne (List.mem_cons_of_mem _ hm)

end UDPReceiver

open UDPReceiver in
/-- A datagram, an empty one, then one more: the callback gets the first only. -/
theorem callback_gets_datagrams_in_order_empty_datagram :
    ∃ r, create.run [.arrive [1, 2], .runInBackground, .loop, .loop, .loop, .arrive [], .loop,
        .loop, .loop, .loop, .arrive [3]] = some r ∧
      r.delivered <+: ((arrivals [.arrive [1, 2], .runInBackground, .loop, .loop, .loop, .arrive [],
        .loop, .loop, .loop, .loop, .arrive [3]]).takeWhile (!·.isEmpty)).map inBuffer :=
  ⟨_, rfl, callback_gets_datagrams_in_order rfl⟩

/-- `stopLooping` while the thread is in `recv` with a datagram queued: the thread still hands it
on, once, and then leaves the loop. -/
theorem stopped_receiver_calls_back_at_most_once_in_recv :
    ∃ r', (⟨false, .bound, [[5]], some (.running .recv), .shutdown false, []⟩ : UDPReceiver).run
        [.loop, .loop, .caller, .caller, .loop] = some r' ∧
      ([] : List Bytes) <+: r'.delivered ∧ r'.delivered.length ≤ 0 + 1 ∧
        ((some (.running .recv) : Option UDPReceiver.LoopThread) = none → r'.delivered = []) :=
  ⟨_, rfl, @UDPReceiver.stopped_receiver_calls_back_at_most_once
    ⟨false, .bound, [[5]], some (.running .recv), .shutdown false, []⟩ _ rfl
    [.loop, .loop, .caller, .caller, .loop] rfl⟩

end Wifibroadcast
