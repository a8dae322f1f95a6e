import Csh.Lib.BoundedQueue
import Csh.Lib.Steps
import Mathlib.Algebra.Order.Group.Multiset
import Mathlib.Data.List.Pairwise
import Mathlib.Data.Multiset.Range
import Mathlib.Tactic.Abel

namespace Csh.ZmqProxy

open BoundedQueue Steps

/-!
# The lossy proxy

`zmq_proxy_lossy` forwards messages between two sockets and loses, corrupts and
delays some that come from its front.  A second thread, `task_delay_send`,
sends the delayed ones from a queue of libcsp that both threads use.  Clock
readings, random numbers and the order of the threads' steps are arbitrary; a
send is one step, whichever thread makes it.
-/

/-- The bytes of a message. -/
abbrev Data :=
  List (BitVec 8)

/-- A reading of the clock, or an `int` that is compared with one. -/
abbrev Ms :=
  BitVec 32

/-- The options of the proxy and the header that `csp_id_strip` reads. -/
structure Config where
  hdxNode : Nat
  hdxPowerupDelay : Ms
  hdxPowerdownDelay : Ms
  delayMs : Ms
  src : Data → Nat
  dst : Data → Nat

/-- The capacity that `csp_queue_create_static` is asked for. -/
def delayQueueLength : Nat :=
  1024

/-- A message of the front, with its place among all of them. -/
structure Message where
  serial : Nat
  data : Data
  deriving Repr, DecidableEq

/-- `delayed_msg_t`. -/
structure DelayedMsg where
  msg : Message
  timestampTx : Ms
  hdx : Bool
  deriving Repr, DecidableEq

/-- Where `zmq_proxy_lossy` stands.  `back` tells that the back is readable. -/
inductive MainPlace where
  | polling
  /-- Received from the front, before the half duplex tests. -/
  | received (msg : Message) (back : Option Data)
  /-- The node sleeps and has to power up for this message. -/
  | powerup (msg : Message)
  /-- The time of the power up is about to be read. -/
  | readStart (msg : Message)
  | enqueuing (delayed : DelayedMsg)
  /-- The node is awake. -/
  | awake (msg : Message) (back : Option Data)
  | reaching (msg : Message) (back : Option Data)
  | corrupting (msg : Message) (back : Option Data)
  | losing (msg : Message) (back : Option Data)
  | delaying (msg : Message) (back : Option Data)
  | sending (msg : Message) (back : Option Data)
  /-- The front is done with; now the back. -/
  | frontDone (back : Option Data)
  | forwarding (data : Data)
  deriving Repr, DecidableEq

/-- Where `task_delay_send` stands. -/
inductive DelayPlace where
  | front
  | scanning (i count : Nat)
  | holding (delayed : DelayedMsg) (i count : Nat)
  /-- A message has been sent. -/
  | sent (hdx : Bool)
  | resetStart
  /-- The message read from an empty queue is whatever was on the stack. -/
  | undefined
  deriving Repr, DecidableEq

/-- A message that went out at the back. -/
structure Sent where
  msg : Message
  delayed : Bool
  deriving Repr, DecidableEq

/-- The shared variables, both threads, and what has come and gone so far. -/
structure ProxyState (Queue : Type) where
  hdxPowerupStartMs : Ms
  hdxLastTxMs : Ms
  queue : Queue
  main : MainPlace
  delay : DelayPlace
  received : List Data
  sent : List Sent
  dropped : List Message
  lost : List Message
  fromBack : List Data
  toFront : List Data
  deriving Repr, DecidableEq

/-- What a step of `zmq_proxy_lossy` may read: the clock, the messages that are
ready at either socket, and the outcomes of its random numbers. -/
structure Readings where
  now : Ms
  front : Option Data
  back : Option Data
  flip : Option (Nat × Nat)
  keep : Bool
  delay : Bool

/-- Invert one bit of one byte. -/
def flipBit (index bit : Nat) (data : Data) : Data :=
  data.modify index (· ^^^ (1#8 <<< bit))

/-- A random bit of a random byte, if there is a byte. -/
def corrupt (flip : Option (Nat × Nat)) (data : Data) : Data :=
  match flip with
  | some (randByte, randBit) =>
      if 0 < data.length then
        flipBit (randByte % data.length) (randBit % 8) data
      else
        data
  | none => data

section Threads

variable {Queue : Type}
variable (config : Config)
variable (ops : QueueOps DelayedMsg Queue)

/-- A message that `csp_queue_enqueue` does not take at once is lost. -/
def ProxyState.enqueue
    (delayed : DelayedMsg)
    (state : ProxyState Queue) :
    ProxyState Queue :=
  match ops.enqueue delayed state.queue with
  | some queue => { state with queue := queue }
  | none => { state with lost := state.lost ++ [delayed.msg] }

/-- The next step of `zmq_proxy_lossy`. -/
def mainStep
    (readings : Readings)
    (state : ProxyState Queue) :
    ProxyState Queue :=
  match state.main with
  | .polling =>
      match readings.front with
      | some data =>
          { state with
            main := .received ⟨state.received.length, data⟩ readings.back
            received := state.received ++ [data] }
      | none => { state with main := .frontDone readings.back }
  | .received msg back =>
      if config.hdxNode = 0 then
        { state with main := .corrupting msg back }
      else if config.src msg.data = config.hdxNode ∧
          state.hdxLastTxMs + config.hdxPowerdownDelay < readings.now then
        { state with main := .powerup msg }
      else
        { state with main := .awake msg back }
  | .powerup msg =>
      { state with
        main := .readStart msg
        hdxPowerupStartMs :=
          if state.hdxPowerupStartMs = 0 then
            readings.now
          else
            state.hdxPowerupStartMs }
  | .readStart msg =>
      { state with
        main :=
          .enqueuing
            ⟨msg, state.hdxPowerupStartMs + config.hdxPowerupDelay, true⟩ }
  | .enqueuing delayed =>
      { state.enqueue ops delayed with main := .polling }
  | .awake msg back =>
      { state with
        main := .reaching msg back
        hdxLastTxMs :=
          if config.src msg.data = config.hdxNode then
            readings.now
          else
            state.hdxLastTxMs }
  | .reaching msg back =>
      if config.dst msg.data = config.hdxNode ∧
          readings.now < state.hdxLastTxMs + config.hdxPowerdownDelay then
        { state with main := .polling, dropped := state.dropped ++ [msg] }
      else
        { state with main := .corrupting msg back }
  | .corrupting msg back =>
      { state with
        main :=
          .losing { msg with data := corrupt readings.flip msg.data } back }
  | .losing msg back =>
      if readings.keep then
        { state with main := .delaying msg back }
      else
        { state with
          main := .frontDone back
          dropped := state.dropped ++ [msg] }
  | .delaying msg back =>
      if readings.delay then
        { state with
          main := .enqueuing ⟨msg, readings.now + config.delayMs, false⟩ }
      else
        { state with main := .sending msg back }
  | .sending msg back =>
      { state with
        main := .frontDone back
        sent := state.sent ++ [⟨msg, false⟩] }
  | .frontDone (some data) =>
      { state with
        main := .forwarding data
        fromBack := state.fromBack ++ [data] }
  | .frontDone none => { state with main := .polling }
  | .forwarding data =>
      { state with main := .polling, toFront := state.toFront ++ [data] }

/-- The next step of `task_delay_send`, which may read the clock. -/
def delayStep
    (now : Ms)
    (state : ProxyState Queue) :
    ProxyState Queue :=
  match state.delay with
  | .front => { state with delay := .scanning 0 (ops.size state.queue) }
  | .scanning i count =>
      if i < count then
        match ops.dequeue state.queue with
        | some (delayed, rest) =>
            { state with delay := .holding delayed i count, queue := rest }
        | none => { state with delay := .undefined }
      else
        { state with delay := .front }
  | .holding delayed i count =>
      if delayed.timestampTx < now then
        { state with
          delay := .sent delayed.hdx
          sent := state.sent ++ [⟨delayed.msg, true⟩] }
      else
        { state.enqueue ops delayed with delay := .scanning (i + 1) count }
  | .sent hdx =>
      if hdx then
        { state with delay := .resetStart, hdxLastTxMs := now }
      else
        { state with delay := .front }
  | .resetStart => { state with delay := .front, hdxPowerupStartMs := 0 }
  | .undefined => state

/-- A step of either thread. -/
inductive ProxyAction where
  | main (readings : Readings)
  | delay (now : Ms)

/-- The threads take their steps in any order. -/
def proxyStep :
    ProxyAction → ProxyState Queue → Option (ProxyState Queue)
  | .main readings, state => some (mainStep config ops readings state)
  | .delay now, state => some (delayStep ops now state)

/-- The proxy behind `csp_queue_create_static`. -/
def proxyStart : ProxyState Queue where
  hdxPowerupStartMs := 0
  hdxLastTxMs := 0
  queue := ops.create
  main := .polling
  delay := .front
  received := []
  sent := []
  dropped := []
  lost := []
  fromBack := []
  toFront := []

end Threads

/-- The message that `zmq_proxy_lossy` works on. -/
def MainPlace.hand : MainPlace → List Message
  | .received msg _ | .powerup msg | .readStart msg | .awake msg _
  | .reaching msg _ | .corrupting msg _ | .losing msg _ | .delaying msg _
  | .sending msg _ => [msg]
  | .enqueuing delayed => [delayed.msg]
  | .polling | .frontDone _ | .forwarding _ => []

/-- The message, as long as it cannot have been corrupted. -/
def MainPlace.fresh : MainPlace → List Message
  | .received msg _ | .powerup msg | .readStart msg | .awake msg _
  | .reaching msg _ | .corrupting msg _ => [msg]
  | _ => []

/-- The message from the back that is about to go to the front. -/
def MainPlace.toForward : MainPlace → List Data
  | .forwarding data => [data]
  | _ => []

/-- The message that `task_delay_send` has taken from the queue. -/
def DelayPlace.hand : DelayPlace → List Message
  | .holding delayed _ _ => [delayed.msg]
  | _ => []

section Moves

variable {Queue : Type}

/-- What a step of `zmq_proxy_lossy` does with the messages. -/
inductive MainMove
    (ops : QueueOps DelayedMsg Queue)
    (state : ProxyState Queue) :
    ProxyState Queue → Prop where
  | stays
      (place : MainPlace)
      (start last : Ms)
      (hand : place.hand = state.main.hand)
      (fresh : place.fresh = [] ∨ place.fresh = state.main.fresh)
      (forward : place.toForward = state.main.toForward) :
      MainMove ops state
        { state with
          main := place
          hdxPowerupStartMs := start
          hdxLastTxMs := last }
  | arrives
      (data : Data)
      (back : Option Data)
      (polling : state.main = .polling) :
      MainMove ops state
        { state with
          main := .received ⟨state.received.length, data⟩ back
          received := state.received ++ [data] }
  | corrupts
      (msg : Message)
      (flip : Option (Nat × Nat))
      (back : Option Data)
      (place : state.main = .corrupting msg back) :
      MainMove ops state
        { state with
          main := .losing { msg with data := corrupt flip msg.data } back }
  | enqueues
      (delayed : DelayedMsg)
      (place : state.main = .enqueuing delayed) :
      MainMove ops state
        { state.enqueue ops delayed with main := .polling }
  | drops
      (msg : Message)
      (place : MainPlace)
      (hand : state.main.hand = [msg])
      (forward : state.main.toForward = [])
      (polls : place = .polling ∨ ∃ back, place = .frontDone back) :
      MainMove ops state
        { state with main := place, dropped := state.dropped ++ [msg] }
  | sends
      (msg : Message)
      (back : Option Data)
      (place : state.main = .sending msg back) :
      MainMove ops state
        { state with
          main := .frontDone back
          sent := state.sent ++ [⟨msg, false⟩] }
  | takes
      (data : Data)
      (place : state.main = .frontDone (some data)) :
      MainMove ops state
        { state with
          main := .forwarding data
          fromBack := state.fromBack ++ [data] }
  | forwards
      (data : Data)
      (place : state.main = .forwarding data) :
      MainMove ops state
        { state with main := .polling, toFront := state.toFront ++ [data] }

theorem MainMove.ofPlace
    {ops : QueueOps DelayedMsg Queue}
    {state : ProxyState Queue}
    {before place : MainPlace}
    {start last : Ms}
    (now : state.main = before)
    (hand : place.hand = before.hand)
    (fresh : place.fresh = [] ∨ place.fresh = before.fresh)
    (forward : place.toForward = before.toForward) :
    MainMove ops state
      { state with
        main := place
        hdxPowerupStartMs := start
        hdxLastTxMs := last } := by
  subst now
  exact .stays place start last hand fresh forward

/-- Every step of `zmq_proxy_lossy` is one of these. -/
theorem mainMove_mainStep
    (config : Config)
    (ops : QueueOps DelayedMsg Queue)
    (readings : Readings)
    (state : ProxyState Queue) :
    MainMove ops state (mainStep config ops readings state) := by
  cases place : state.main with
  | polling =>
      cases front : readings.front with
      | none =>
          simp only [mainStep, place, front]
          exact .ofPlace place rfl (Or.inr rfl) rfl
      | some data =>
          simp only [mainStep, place, front]
          exact .arrives data _ place
  | received msg back =>
      simp only [mainStep, place]
      split
      · exact .ofPlace place rfl (Or.inr rfl) rfl
      · split
        · exact .ofPlace place rfl (Or.inr rfl) rfl
        · exact .ofPlace place rfl (Or.inr rfl) rfl
  | powerup msg =>
      simp only [mainStep, place]
      exact .ofPlace place rfl (Or.inr rfl) rfl
  | readStart msg =>
      simp only [mainStep, place]
      exact .ofPlace place rfl (Or.inl rfl) rfl
  | enqueuing delayed =>
      simp only [mainStep, place]
      exact .enqueues delayed place
  | awake msg back =>
      simp only [mainStep, place]
      exact .ofPlace place rfl (Or.inr rfl) rfl
  | reaching msg back =>
      simp only [mainStep, place]
      split
      · exact .drops msg _ (by rw [place]; rfl) (by rw [place]; rfl)
          (Or.inl rfl)
      · exact .ofPlace place rfl (Or.inr rfl) rfl
  | corrupting msg back =>
      simp only [mainStep, place]
      exact .corrupts msg _ back place
  | losing msg back =>
      simp only [mainStep, place]
      split
      · exact .ofPlace place rfl (Or.inl rfl) rfl
      · exact .drops msg _ (by rw [place]; rfl) (by rw [place]; rfl)
          (Or.inr ⟨back, rfl⟩)
  | delaying msg back =>
      simp only [mainStep, place]
      split
      · exact .ofPlace place rfl (Or.inl rfl) rfl
      · exact .ofPlace place rfl (Or.inl rfl) rfl
  | sending msg back =>
      simp only [mainStep, place]
      exact .sends msg back place
  | frontDone back =>
      cases back with
      | none =>
          simp only [mainStep, place]
          exact .ofPlace place rfl (Or.inl rfl) rfl
      | some data =>
          simp only [mainStep, place]
          exact .takes data place
  | forwarding data =>
      simp only [mainStep, place]
      exact .forwards data place

/-- What a step of `task_delay_send` does with the messages. -/
inductive DelayMove
    (ops : QueueOps DelayedMsg Queue)
    (state : ProxyState Queue) :
    ProxyState Queue → Prop where
  | stays
      (place : DelayPlace)
      (start last : Ms)
      (hand : state.delay.hand = [])
      (afterwards : place = .front ∨ place = .resetStart) :
      DelayMove ops state
        { state with
          delay := place
          hdxPowerupStartMs := start
          hdxLastTxMs := last }
  | counts
      (place : state.delay = .front) :
      DelayMove ops state
        { state with delay := .scanning 0 (ops.size state.queue) }
  | dequeues
      (delayed : DelayedMsg)
      (rest : Queue)
      (i count : Nat)
      (place : state.delay = .scanning i count)
      (more : i < count)
      (queue : ops.dequeue state.queue = some (delayed, rest)) :
      DelayMove ops state
        { state with delay := .holding delayed i count, queue := rest }
  | reads
      (i count : Nat)
      (place : state.delay = .scanning i count)
      (more : i < count)
      (queue : ops.dequeue state.queue = none) :
      DelayMove ops state { state with delay := .undefined }
  | sends
      (delayed : DelayedMsg)
      (i count : Nat)
      (place : state.delay = .holding delayed i count) :
      DelayMove ops state
        { state with
          delay := .sent delayed.hdx
          sent := state.sent ++ [⟨delayed.msg, true⟩] }
  | enqueues
      (delayed : DelayedMsg)
      (i count : Nat)
      (place : state.delay = .holding delayed i count) :
      DelayMove ops state
        { state.enqueue ops delayed with delay := .scanning (i + 1) count }
  | stuck
      (place : state.delay = .undefined) :
      DelayMove ops state state

/-- Every step of `task_delay_send` is one of these. -/
theorem delayMove_delayStep
    (ops : QueueOps DelayedMsg Queue)
    (now : Ms)
    (state : ProxyState Queue) :
    DelayMove ops state (delayStep ops now state) := by
  cases place : state.delay with
  | front =>
      simp only [delayStep, place]
      exact .counts place
  | scanning i count =>
      simp only [delayStep, place]
      split
      · split
        · exact .dequeues _ _ i count place ‹_› ‹_›
        · exact .reads i count place ‹_› ‹_›
      · exact .stays _ _ _ (by rw [place]; rfl) (Or.inl rfl)
  | holding delayed i count =>
      simp only [delayStep, place]
      split
      · exact .sends delayed i count place
      · exact .enqueues delayed i count place
  | sent hdx =>
      simp only [delayStep, place]
      split
      · exact .stays _ _ _ (by rw [place]; rfl) (Or.inr rfl)
      · exact .stays _ _ _ (by rw [place]; rfl) (Or.inl rfl)
  | resetStart =>
      simp only [delayStep, place]
      exact .stays _ _ _ (by rw [place]; rfl) (Or.inl rfl)
  | undefined =>
      simp only [delayStep, place]
      exact .stuck place

/-- Everything that came from the front and has left `zmq_proxy_lossy`. -/
def ProxyState.elsewhere
    (contents : Queue → List DelayedMsg)
    (state : ProxyState Queue) :
    Multiset Message :=
  ↑state.delay.hand + ↑((contents state.queue).map DelayedMsg.msg) +
    ↑(state.sent.map Sent.msg) + ↑state.dropped + ↑state.lost

/-- Everything that came from the front, wherever it is now. -/
def ProxyState.accounted
    (contents : Queue → List DelayedMsg)
    (state : ProxyState Queue) :
    Multiset Message :=
  ↑state.main.hand + state.elsewhere contents

end Moves

section Steps

variable {Queue : Type}
variable {config : Config}
variable {ops : QueueOps DelayedMsg Queue}
variable {contents : Queue → List DelayedMsg}
variable {state next : ProxyState Queue}
variable {delayed : DelayedMsg}

/-- A message that is enqueued is in the queue or lost. -/
theorem ProxyState.enqueue_cases
    (lawful : Lawful ops delayQueueLength contents) :
    (∃ queue,
        contents queue = contents state.queue ++ [delayed] ∧
          state.enqueue ops delayed = { state with queue := queue }) ∨
      (delayQueueLength ≤ (contents state.queue).length ∧
        state.enqueue ops delayed =
          { state with lost := state.lost ++ [delayed.msg] }) := by
  unfold enqueue
  split
  · rename_i queue taken
    exact Or.inl ⟨queue, lawful.contents_of_enqueue taken, rfl⟩
  · rename_i refused
    exact Or.inr ⟨lawful.full_of_refused refused, rfl⟩

/-- The rest of the state is left alone. -/
theorem ProxyState.enqueue_frame :
    ∃ queue lost,
      state.enqueue ops delayed =
        { state with queue := queue, lost := lost } := by
  unfold enqueue
  split
  · exact ⟨_, _, rfl⟩
  · exact ⟨_, _, rfl⟩

theorem ProxyState.elsewhere_enqueue
    (lawful : Lawful ops delayQueueLength contents)
    (place : DelayPlace) :
    { state.enqueue ops delayed with delay := place }.elsewhere contents =
      delayed.msg ::ₘ { state with delay := place }.elsewhere contents := by
  rcases @enqueue_cases _ ops contents state delayed lawful with
    ⟨queue, holds, queued⟩ | ⟨_, lost⟩
  · simp only [queued, elsewhere, holds, List.map_append, ← Multiset.coe_add,
      List.map_cons, List.map_nil, Multiset.coe_singleton,
      ← Multiset.singleton_add]
    abel
  · simp only [lost, elsewhere, ← Multiset.coe_add, Multiset.coe_singleton,
      ← Multiset.singleton_add]
    abel

theorem ProxyState.length_le_enqueue
    (lawful : Lawful ops delayQueueLength contents) :
    (contents state.queue).length ≤
      (contents (state.enqueue ops delayed).queue).length := by
  rcases @enqueue_cases _ ops contents state delayed lawful with
    ⟨queue, holds, queued⟩ | ⟨_, lost⟩
  · simp [queued, holds]
  · rw [lost]

/-- A message that `task_delay_send` moves is not changed. -/
theorem DelayMove.elsewhere
    (lawful : Lawful ops delayQueueLength contents)
    (move : DelayMove ops state next) :
    next.elsewhere contents = state.elsewhere contents := by
  cases move with
  | stays place start last hand afterwards =>
      have nextHand : place.hand = [] := by
        rcases afterwards with rfl | rfl <;> rfl
      simp only [ProxyState.elsewhere, hand, nextHand]
  | counts place =>
      simp only [ProxyState.elsewhere, place, DelayPlace.hand]
  | dequeues delayed rest i count place more queue =>
      simp only [ProxyState.elsewhere, place, DelayPlace.hand,
        lawful.contents_of_dequeue queue, List.map_cons, ← Multiset.cons_coe,
        ← Multiset.singleton_add, Multiset.coe_nil, add_zero, zero_add]
  | reads i count place more queue =>
      simp only [ProxyState.elsewhere, place, DelayPlace.hand]
  | sends delayed i count place =>
      simp only [ProxyState.elsewhere, place, DelayPlace.hand, List.map_append,
        ← Multiset.coe_add, List.map_cons, List.map_nil, Multiset.coe_nil]
      abel
  | enqueues delayed i count place =>
      rw [ProxyState.elsewhere_enqueue lawful]
      simp only [ProxyState.elsewhere, place, DelayPlace.hand,
        Multiset.coe_nil, zero_add, Multiset.coe_singleton,
        Multiset.singleton_add, Multiset.cons_add]
  | stuck place =>
      rfl

/-- What `zmq_proxy_lossy` does with what there is: it moves a message, gets a
new one, or corrupts the one in its hand. -/
theorem MainMove.accounted
    (lawful : Lawful ops delayQueueLength contents)
    (move : MainMove ops state next) :
    (next.accounted contents = state.accounted contents ∧
        next.received = state.received) ∨
      (∃ data,
        next.accounted contents =
            ⟨state.received.length, data⟩ ::ₘ state.accounted contents ∧
          next.received = state.received ++ [data]) ∨
        ∃ msg ∈ state.main.fresh,
          ∃ flip,
            state.accounted contents = msg ::ₘ state.elsewhere contents ∧
              next.accounted contents =
                  { msg with data := corrupt flip msg.data } ::ₘ
                    state.elsewhere contents ∧
                next.received = state.received := by
  cases move with
  | stays place start last hand fresh forward =>
      refine Or.inl ⟨?_, rfl⟩
      simp only [ProxyState.accounted, hand]
      rfl
  | arrives data back polling =>
      refine Or.inr (Or.inl ⟨data, ?_, rfl⟩)
      simp only [ProxyState.accounted, polling, MainPlace.hand]
      rfl
  | corrupts msg flip back place =>
      refine Or.inr (Or.inr ⟨msg, ?_, flip, ?_, ?_, rfl⟩)
      · simp [place, MainPlace.fresh]
      · simp [ProxyState.accounted, place, MainPlace.hand]
      · simp only [ProxyState.accounted, MainPlace.hand]
        rfl
  | enqueues delayed place =>
      have moved :=
        @ProxyState.elsewhere_enqueue _ ops contents state delayed lawful
          state.delay
      obtain ⟨_, _, same⟩ := @ProxyState.enqueue_frame _ ops state delayed
      rw [same] at moved ⊢
      refine Or.inl ⟨?_, rfl⟩
      simp only [ProxyState.accounted, place, MainPlace.hand, Multiset.coe_nil,
        zero_add, Multiset.coe_singleton, Multiset.singleton_add]
      exact moved
  | drops msg place hand forward polls =>
      have nextHand : place.hand = [] := by
        rcases polls with rfl | ⟨back, rfl⟩ <;> rfl
      refine Or.inl ⟨?_, rfl⟩
      simp only [ProxyState.accounted, ProxyState.elsewhere, hand, nextHand,
        ← Multiset.coe_add, Multiset.coe_nil]
      abel
  | sends msg back place =>
      refine Or.inl ⟨?_, rfl⟩
      simp only [ProxyState.accounted, ProxyState.elsewhere, place,
        MainPlace.hand, List.map_append, ← Multiset.coe_add, List.map_cons,
        List.map_nil, Multiset.coe_nil]
      abel
  | takes data place =>
      refine Or.inl ⟨?_, rfl⟩
      simp only [ProxyState.accounted, place, MainPlace.hand]
      rfl
  | forwards data place =>
      refine Or.inl ⟨?_, rfl⟩
      simp only [ProxyState.accounted, place, MainPlace.hand]
      rfl

/-- The bytes are the same, or they differ in a single bit. -/
def AtMostOneBit (sent arrived : Data) : Prop :=
  arrived = sent ∨
    ∃ index bit,
      index < sent.length ∧ bit < 8 ∧ arrived = flipBit index bit sent

theorem atMostOneBit_corrupt
    (flip : Option (Nat × Nat))
    (data : Data) :
    AtMostOneBit data (corrupt flip data) := by
  unfold corrupt
  split
  · rename_i randByte randBit
    split
    · exact
        Or.inr ⟨_, _, Nat.mod_lt _ ‹_›, Nat.mod_lt _ (by decide), rfl⟩
    · exact Or.inl rfl
  · exact Or.inl rfl

/-- What is in hand is the newest message, and nothing sent is as new. -/
structure Ordered (state : ProxyState Queue) : Prop where
  hand : ∀ msg ∈ state.main.hand, msg.serial + 1 = state.received.length
  ahead :
    ∀ sent ∈ state.sent,
      sent.delayed = false →
        ∀ msg ∈ state.main.hand, sent.msg.serial < msg.serial
  inOrder :
    ((state.sent.filter (!·.delayed)).map (·.msg.serial)).Pairwise (· < ·)

/-- The bytes of every message are accounted for, too. -/
structure Intact
    (contents : Queue → List DelayedMsg)
    (state : ProxyState Queue) :
    Prop where
  fresh :
    ∀ msg ∈ state.main.fresh, state.received[msg.serial]? = some msg.data
  nearly :
    ∀ msg ∈ state.accounted contents,
      ∃ data,
        state.received[msg.serial]? = some data ∧ AtMostOneBit data msg.data

/-- The messages to the front are those from the back. -/
def BackIntact (state : ProxyState Queue) : Prop :=
  state.fromBack = state.toFront ++ state.main.toForward

/-- Every message from the front is in exactly one place. -/
def Counted
    (contents : Queue → List DelayedMsg)
    (state : ProxyState Queue) :
    Prop :=
  (state.accounted contents).map Message.serial =
    Multiset.range state.received.length

/-- The queue holds what `task_delay_send` has not looked at yet. -/
def Room
    (contents : Queue → List DelayedMsg)
    (state : ProxyState Queue) :
    Prop :=
  match state.delay with
  | .scanning i count => count ≤ i + (contents state.queue).length
  | .holding _ i count => count ≤ i + 1 + (contents state.queue).length
  | .undefined => False
  | .front | .sent _ | .resetStart => True

/-- What `task_delay_send` leaves alone. -/
theorem DelayMove.frame
    (move : DelayMove ops state next) :
    next.received = state.received ∧
      next.main = state.main ∧
        next.fromBack = state.fromBack ∧ next.toFront = state.toFront := by
  cases move with
  | enqueues delayed i count place =>
      obtain ⟨_, _, same⟩ := @ProxyState.enqueue_frame _ ops state delayed
      rw [same]
      exact ⟨rfl, rfl, rfl, rfl⟩
  | stays | counts | dequeues | reads | sends | stuck =>
      exact ⟨rfl, rfl, rfl, rfl⟩

theorem DelayMove.accounted
    (lawful : Lawful ops delayQueueLength contents)
    (move : DelayMove ops state next) :
    next.accounted contents = state.accounted contents := by
  rw [ProxyState.accounted, move.elsewhere lawful, move.frame.2.1,
    ProxyState.accounted]

theorem MainMove.counted
    (lawful : Lawful ops delayQueueLength contents)
    (move : MainMove ops state next)
    (counted : Counted contents state) :
    Counted contents next := by
  unfold Counted at counted ⊢
  rcases move.accounted lawful with
    ⟨same, received⟩ | ⟨data, more, received⟩ |
      ⟨msg, _, flip, before, after, received⟩
  · rw [same, received, counted]
  · rw [more, received, Multiset.map_cons, counted, List.length_append,
      List.length_singleton, Multiset.range_succ]
  · rw [before, Multiset.map_cons] at counted
    rw [after, received, Multiset.map_cons, counted]

theorem DelayMove.counted
    (lawful : Lawful ops delayQueueLength contents)
    (move : DelayMove ops state next)
    (counted : Counted contents state) :
    Counted contents next := by
  rwa [Counted, move.accounted lawful, move.frame.1]

theorem MainMove.hand
    (move : MainMove ops state next)
    (hand : ∀ msg ∈ state.main.hand, msg.serial + 1 = state.received.length) :
    ∀ msg ∈ next.main.hand, msg.serial + 1 = next.received.length := by
  cases move with
  | stays place start last same fresh forward =>
      rw [same]
      exact hand
  | arrives data back polling =>
      simp [MainPlace.hand]
  | corrupts msg flip back place =>
      simpa [place, MainPlace.hand] using hand
  | drops msg place same forward polls =>
      rcases polls with rfl | ⟨back, rfl⟩ <;> simp [MainPlace.hand]
  | enqueues | sends | takes | forwards =>
      simp [MainPlace.hand]

theorem Counted.serial_lt
    {msg : Message}
    (counted : Counted contents state)
    (member : msg ∈ state.accounted contents) :
    msg.serial < state.received.length :=
  Multiset.mem_range.mp (counted ▸ Multiset.mem_map_of_mem _ member)

theorem mem_accounted_of_sent
    {sent : Sent}
    (member : sent ∈ state.sent) :
    sent.msg ∈ state.accounted contents := by
  have mapped : sent.msg ∈ state.sent.map Sent.msg :=
    List.mem_map_of_mem member
  simp only [ProxyState.accounted, ProxyState.elsewhere, Multiset.mem_add,
    Multiset.mem_coe]
  exact Or.inr (Or.inl (Or.inl (Or.inr mapped)))

theorem MainMove.sent
    (move : MainMove ops state next) :
    next.sent = state.sent ∨
      ∃ msg,
        state.main.hand = [msg] ∧
          next.main.hand = [] ∧ next.sent = state.sent ++ [⟨msg, false⟩] := by
  cases move with
  | sends msg back place =>
      exact Or.inr ⟨msg, by rw [place]; rfl, rfl, rfl⟩
  | enqueues delayed place =>
      obtain ⟨_, _, same⟩ := @ProxyState.enqueue_frame _ ops state delayed
      rw [same]
      exact Or.inl rfl
  | stays | arrives | corrupts | drops | takes | forwards =>
      exact Or.inl rfl

theorem DelayMove.sent
    (move : DelayMove ops state next) :
    next.sent = state.sent ∨
      ∃ msg, next.sent = state.sent ++ [⟨msg, true⟩] := by
  cases move with
  | sends delayed i count place =>
      exact Or.inr ⟨_, rfl⟩
  | enqueues delayed i count place =>
      obtain ⟨_, _, same⟩ := @ProxyState.enqueue_frame _ ops state delayed
      rw [same]
      exact Or.inl rfl
  | stays | counts | dequeues | reads | stuck =>
      exact Or.inl rfl

/-- A message in hand is the one that was in hand, or newly arrived. -/
theorem MainMove.hand_cases
    (move : MainMove ops state next)
    {msg : Message}
    (member : msg ∈ next.main.hand) :
    (∃ before ∈ state.main.hand, before.serial = msg.serial) ∨
      msg.serial = state.received.length := by
  cases move with
  | stays place start last same fresh forward =>
      exact Or.inl ⟨msg, same ▸ member, rfl⟩
  | arrives data back polling =>
      right
      rw [List.mem_singleton.mp member]
  | corrupts before flip back place =>
      refine Or.inl ⟨before, ?_, ?_⟩
      · rw [place]
        exact List.mem_singleton_self before
      · rw [List.mem_singleton.mp member]
  | drops before place same forward polls =>
      rcases polls with rfl | ⟨back, rfl⟩ <;> cases member
  | enqueues | sends | takes | forwards =>
      cases member

theorem MainMove.ordered
    (move : MainMove ops state next)
    (counted : Counted contents state)
    (ordered : Ordered state) :
    Ordered next := by
  refine ⟨move.hand ordered.hand, ?_, ?_⟩
  · intro sent sentMember direct msg member
    rcases move.sent with same | ⟨gone, _, noHand, _⟩
    · rw [same] at sentMember
      rcases move.hand_cases member with ⟨before, inHand, serial⟩ | newest
      · rw [← serial]
        exact ordered.ahead sent sentMember direct before inHand
      · rw [newest]
        exact counted.serial_lt (mem_accounted_of_sent sentMember)
    · rw [noHand] at member
      cases member
  · rcases move.sent with same | ⟨msg, inHand, _, more⟩
    · rw [same]
      exact ordered.inOrder
    · rw [more, List.filter_append, List.map_append, List.pairwise_append]
      refine ⟨ordered.inOrder, List.pairwise_singleton _ _, ?_⟩
      intro serial earlier newest isNewest
      obtain ⟨sent, member, rfl⟩ := List.mem_map.mp earlier
      obtain ⟨sentMember, direct⟩ := List.mem_filter.mp member
      rw [List.mem_singleton.mp isNewest]
      exact
        ordered.ahead sent sentMember (by simpa using direct) msg
          (inHand ▸ List.mem_singleton_self msg)

theorem DelayMove.ordered
    (move : DelayMove ops state next)
    (ordered : Ordered state) :
    Ordered next := by
  obtain ⟨received, main, _⟩ := move.frame
  refine ⟨by rw [main, received]; exact ordered.hand, ?_, ?_⟩
  · intro sent sentMember direct
    rw [main]
    rcases move.sent with same | ⟨msg, more⟩
    · exact ordered.ahead sent (same ▸ sentMember) direct
    · rw [more] at sentMember
      rcases List.mem_append.mp sentMember with earlier | newest
      · exact ordered.ahead sent earlier direct
      · rw [List.mem_singleton.mp newest] at direct
        cases direct
  · rcases move.sent with same | ⟨msg, more⟩
    · rw [same]
      exact ordered.inOrder
    · rw [more, List.filter_append]
      simpa using ordered.inOrder

theorem MainMove.fresh
    (move : MainMove ops state next)
    (fresh :
      ∀ msg ∈ state.main.fresh, state.received[msg.serial]? = some msg.data) :
    ∀ msg ∈ next.main.fresh, next.received[msg.serial]? = some msg.data := by
  cases move with
  | stays place start last hand kept forward =>
      rcases kept with none | same
      · simp [none]
      · rw [same]
        exact fresh
  | arrives data back polling =>
      simp [MainPlace.fresh]
  | drops msg place hand forward polls =>
      rcases polls with rfl | ⟨back, rfl⟩ <;> simp [MainPlace.fresh]
  | corrupts | enqueues | sends | takes | forwards =>
      simp [MainPlace.fresh]

theorem MainMove.intact
    (lawful : Lawful ops delayQueueLength contents)
    (move : MainMove ops state next)
    (intact : Intact contents state) :
    Intact contents next := by
  refine ⟨move.fresh intact.fresh, ?_⟩
  intro msg member
  rcases move.accounted lawful with
    ⟨same, received⟩ | ⟨data, more, received⟩ |
      ⟨before, isFresh, flip, accounted, after, received⟩
  · rw [received]
    exact intact.nearly msg (same ▸ member)
  · rw [more, Multiset.mem_cons] at member
    rw [received]
    rcases member with rfl | member
    · exact ⟨data, by simp, Or.inl rfl⟩
    · obtain ⟨sent, found, nearly⟩ := intact.nearly msg member
      have inside : msg.serial < state.received.length :=
        (List.getElem?_eq_some_iff.mp found).1
      exact
        ⟨sent, by rw [List.getElem?_append_left inside]; exact found, nearly⟩
  · rw [after, Multiset.mem_cons] at member
    rw [received]
    rcases member with rfl | member
    · exact
        ⟨before.data, intact.fresh before isFresh,
          atMostOneBit_corrupt flip before.data⟩
    · exact
        intact.nearly msg
          (accounted ▸ Multiset.mem_cons_of_mem member)

theorem DelayMove.intact
    (lawful : Lawful ops delayQueueLength contents)
    (move : DelayMove ops state next)
    (intact : Intact contents state) :
    Intact contents next := by
  obtain ⟨received, main, _⟩ := move.frame
  exact
    ⟨by rw [main, received]; exact intact.fresh,
      by rw [move.accounted lawful, received]; exact intact.nearly⟩

theorem MainMove.backIntact
    (move : MainMove ops state next)
    (intact : BackIntact state) :
    BackIntact next := by
  unfold BackIntact at intact ⊢
  cases move with
  | stays place start last hand fresh forward =>
      rw [forward]
      exact intact
  | arrives data back polling =>
      simpa [polling, MainPlace.toForward] using intact
  | corrupts msg flip back place =>
      simpa [place, MainPlace.toForward] using intact
  | enqueues delayed place =>
      rw [place] at intact
      obtain ⟨_, _, same⟩ := @ProxyState.enqueue_frame _ ops state delayed
      rw [same]
      exact intact
  | drops msg place hand forward polls =>
      rw [forward] at intact
      rcases polls with rfl | ⟨back, rfl⟩ <;> exact intact
  | sends msg back place =>
      rw [place] at intact
      exact intact
  | takes data place =>
      have kept : state.fromBack = state.toFront := by
        simpa [place, MainPlace.toForward] using intact
      simp only [kept, MainPlace.toForward]
  | forwards data place =>
      rw [place, MainPlace.toForward] at intact
      simp only [intact, MainPlace.toForward, List.append_nil]

theorem DelayMove.backIntact
    (move : DelayMove ops state next)
    (intact : BackIntact state) :
    BackIntact next := by
  obtain ⟨_, main, fromBack, toFront⟩ := move.frame
  rwa [BackIntact, main, fromBack, toFront]

/-- `zmq_proxy_lossy` only adds to the queue. -/
theorem MainMove.queue
    (lawful : Lawful ops delayQueueLength contents)
    (move : MainMove ops state next) :
    next.delay = state.delay ∧
      (contents state.queue).length ≤ (contents next.queue).length := by
  cases move with
  | enqueues delayed place =>
      have more :=
        @ProxyState.length_le_enqueue _ ops contents state delayed lawful
      obtain ⟨_, _, same⟩ := @ProxyState.enqueue_frame _ ops state delayed
      rw [same] at more ⊢
      exact ⟨rfl, more⟩
  | stays | arrives | corrupts | drops | sends | takes | forwards =>
      exact ⟨rfl, Nat.le_refl _⟩

theorem MainMove.room
    (lawful : Lawful ops delayQueueLength contents)
    (move : MainMove ops state next)
    (room : Room contents state) :
    Room contents next := by
  obtain ⟨delay, more⟩ := move.queue lawful
  unfold Room at room ⊢
  rw [delay]
  split at room <;> omega

theorem DelayMove.room
    (lawful : Lawful ops delayQueueLength contents)
    (move : DelayMove ops state next)
    (room : Room contents state) :
    Room contents next := by
  unfold Room at room
  cases move with
  | stays place start last hand afterwards =>
      rcases afterwards with rfl | rfl <;> exact trivial
  | counts place =>
      simp only [Room, lawful.size]
      omega
  | dequeues delayed rest i count place more queue =>
      simp only [place, lawful.contents_of_dequeue queue,
        List.length_cons] at room
      simp only [Room]
      omega
  | reads i count place more queue =>
      simp only [place, lawful.contents_of_dequeue_none queue,
        List.length_nil] at room
      omega
  | sends delayed i count place =>
      exact trivial
  | enqueues delayed i count place =>
      have more :=
        @ProxyState.length_le_enqueue _ ops contents state delayed lawful
      simp only [place] at room
      simp only [Room]
      omega
  | stuck place =>
      simp only [place] at room

/-- A message is lost only after more messages than the queue has room for. -/
def LossLate (state : ProxyState Queue) : Prop :=
  state.lost ≠ [] → delayQueueLength < state.received.length

theorem Counted.length_le
    (counted : Counted contents state) :
    state.main.hand.length + state.delay.hand.length +
        (contents state.queue).length ≤
      state.received.length := by
  have card := congrArg Multiset.card counted
  simp only [Multiset.card_map, Multiset.card_range, ProxyState.accounted,
    ProxyState.elsewhere, Multiset.card_add, Multiset.coe_card,
    List.length_map] at card
  omega

theorem LossLate.enqueue
    (lawful : Lawful ops delayQueueLength contents)
    (late : LossLate state)
    (taken : (contents state.queue).length < state.received.length) :
    LossLate (state.enqueue ops delayed) := by
  rcases @ProxyState.enqueue_cases _ ops contents state delayed lawful with
    ⟨queue, _, queued⟩ | ⟨full, lost⟩
  · rw [queued]
    exact late
  · rw [lost]
    exact fun _ => full.trans_lt taken

theorem MainMove.lossLate
    (lawful : Lawful ops delayQueueLength contents)
    (move : MainMove ops state next)
    (counted : Counted contents state)
    (late : LossLate state) :
    LossLate next := by
  cases move with
  | arrives data back polling =>
      intro lost
      have before := late lost
      simp only [List.length_append]
      omega
  | enqueues delayed place =>
      have inHand := counted.length_le
      simp only [place, MainPlace.hand, List.length_singleton] at inHand
      exact late.enqueue lawful (by omega)
  | stays | corrupts | drops | sends | takes | forwards =>
      exact late

theorem DelayMove.lossLate
    (lawful : Lawful ops delayQueueLength contents)
    (move : DelayMove ops state next)
    (counted : Counted contents state)
    (late : LossLate state) :
    LossLate next := by
  cases move with
  | enqueues delayed i count place =>
      have inHand := counted.length_le
      simp only [place, DelayPlace.hand, List.length_singleton] at inHand
      exact late.enqueue lawful (by omega)
  | stays | counts | dequeues | reads | sends | stuck =>
      exact late

/-- What holds of the proxy at every moment. -/
structure Sound
    (contents : Queue → List DelayedMsg)
    (state : ProxyState Queue) :
    Prop where
  counted : Counted contents state
  ordered : Ordered state
  intact : Intact contents state
  backIntact : BackIntact state
  room : Room contents state
  lossLate : LossLate state

theorem keeps_sound
    (lawful : Lawful ops delayQueueLength contents) :
    Keeps (proxyStep config ops) (Sound contents) := by
  intro action state next sound stepped
  cases action with
  | main readings =>
      obtain rfl := Option.some.inj stepped
      have move := mainMove_mainStep config ops readings state
      exact
        ⟨move.counted lawful sound.counted,
          move.ordered sound.counted sound.ordered,
          move.intact lawful sound.intact, move.backIntact sound.backIntact,
          move.room lawful sound.room,
          move.lossLate lawful sound.counted sound.lossLate⟩
  | delay now =>
      obtain rfl := Option.some.inj stepped
      have move := delayMove_delayStep ops now state
      exact
        ⟨move.counted lawful sound.counted, move.ordered sound.ordered,
          move.intact lawful sound.intact, move.backIntact sound.backIntact,
          move.room lawful sound.room,
          move.lossLate lawful sound.counted sound.lossLate⟩

theorem accounted_proxyStart
    (lawful : Lawful ops delayQueueLength contents) :
    (proxyStart ops).accounted contents = 0 := by
  simp [ProxyState.accounted, ProxyState.elsewhere, proxyStart,
    MainPlace.hand, DelayPlace.hand, lawful.create]

theorem sound_proxyStart
    (lawful : Lawful ops delayQueueLength contents) :
    Sound contents (proxyStart ops) where
  counted := by
    rw [Counted, accounted_proxyStart lawful]
    rfl
  ordered := ⟨by simp [proxyStart, MainPlace.hand], by simp [proxyStart],
    by simp [proxyStart]⟩
  intact := ⟨by simp [proxyStart, MainPlace.fresh], by
    simp [accounted_proxyStart lawful]⟩
  backIntact := rfl
  room := trivial
  lossLate := fun lost => absurd rfl lost

/-- What a user of the proxy can rely on. -/
structure MessagesKept
    (contents : Queue → List DelayedMsg)
    (state : ProxyState Queue) :
    Prop where
  /-- Each message of the front is in a thread's hands, in the queue, sent,
  dropped on purpose or lost to a full queue, and in one of these only. -/
  onePlace :
    (state.accounted contents).map Message.serial =
      Multiset.range state.received.length
  /-- Wherever it is, at most one bit of it has changed. -/
  nearlySame :
    ∀ msg ∈ state.accounted contents,
      ∃ data,
        state.received[msg.serial]? = some data ∧
          AtMostOneBit data msg.data
  /-- What is not delayed goes out in the order of arrival. -/
  inOrder :
    ((state.sent.filter (!·.delayed)).map (·.msg.serial)).Pairwise (· < ·)
  /-- The messages of the back go to the front as they are. -/
  backKept : state.fromBack = state.toFront ++ state.main.toForward
  /-- No message is taken from an empty queue. -/
  defined : state.delay ≠ .undefined
  /-- None is lost before more have come than the queue has room for. -/
  lossLate :
    state.lost ≠ [] → delayQueueLength < state.received.length

/-- The messages are kept in every interleaving of the two threads. -/
theorem proxy_keeps_messages
    (lawful : Lawful ops delayQueueLength contents)
    (reaches : Reaches (proxyStep config ops) (proxyStart ops) state) :
    MessagesKept contents state := by
  have sound :=
    (keeps_sound lawful).reaches (sound_proxyStart lawful) reaches
  refine
    ⟨sound.counted, sound.intact.nearly, sound.ordered.inOrder,
      sound.backIntact, ?_, sound.lossLate⟩
  intro undefined
  have room := sound.room
  simp only [Room, undefined] at room

/-- A message that is corrupted, delayed and sent by `task_delay_send`. -/
def delayedActions : List ProxyAction :=
  List.replicate 6
      (.main ⟨7, some [3#8], none, some (4, 9), true, true⟩) ++
    [.delay 8, .delay 9, .delay 13]

theorem proxy_keeps_messages_delayed :
    ∃ state,
      run
          (proxyStep ⟨0, 0, 0, 5, fun _ => 0, fun _ => 0⟩
            (listQueue DelayedMsg delayQueueLength))
          delayedActions
          (proxyStart (listQueue DelayedMsg delayQueueLength)) =
        some state ∧
        state.sent = [⟨⟨0, [1#8]⟩, true⟩] ∧ MessagesKept id state := by
  have reached :
      run
          (proxyStep ⟨0, 0, 0, 5, fun _ => 0, fun _ => 0⟩
            (listQueue DelayedMsg delayQueueLength))
          delayedActions
          (proxyStart (listQueue DelayedMsg delayQueueLength)) =
        some _ :=
    rfl
  exact
    ⟨_, reached, rfl,
      proxy_keeps_messages (lawful_listQueue _ _) ⟨_, reached⟩⟩

end Steps

end Csh.ZmqProxy
