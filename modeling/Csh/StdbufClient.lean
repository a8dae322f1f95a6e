import Csh.Lib.RingBuffer
import Mathlib.Algebra.Order.Ring.Int
import Mathlib.Logic.Relation
import Mathlib.Logic.Function.Basic

namespace Csh.StdbufClient

open RingBuffer

/-!
# Reading the output of a remote node

`stdbuf_v1` reads a ring buffer in the memory of a node that goes on writing
to it.  One turn of its loop pulls both indexes, peeks at one chunk of memory,
prints it, and pushes the new index; the node may write between any of these.
-/

/-- The buffer that the memory list of the node names. -/
structure Stdbuf where
  vaddr : Nat
  size : Nat
  size_pos : 0 < size
  size_le : size ≤ 65536

/-- The node: its memory and the parameters `stdbuf_in` and `stdbuf_out`. -/
structure Node where
  memory : Nat → UInt8
  stdbufIn : Nat
  stdbufOut : Nat

/-- A 32 bit address at an offset from a base. -/
def address (base : Nat) (offset : Int) : Nat :=
  ((base + offset) % 2 ^ 32).toNat

/-- What the node answers to `csp_cmp_peek`. -/
def Node.peek (node : Node) (addr : Nat) (len : Int) : List UInt8 :=
  (List.range len.toNat).map fun index : Nat =>
    node.memory (address addr index)

/-- `stdbuf_get`: the bytes it prints, and the length it returns. -/
def stdbufGet
    (node : Node)
    (base : Nat)
    (start stop : Int) :
    List UInt8 × Int :=
  let len := if stop - start > 200 then 200 else stop - start
  (node.peek (address base start) len, len)

/-- The chunk that a turn of the loop gets with the indexes it has pulled. -/
def stdbufChunk
    (buffer : Stdbuf)
    (node : Node)
    (into out : Int) :
    List UInt8 × Int :=
  if out < into then
    stdbufGet node buffer.vaddr out into
  else if out > into then
    stdbufGet node buffer.vaddr out buffer.size
  else
    ([], 0)

/-- `out_push`, a 16 bit number reduced modulo the size. -/
def outPush (buffer : Stdbuf) (out got : Int) : Nat :=
  ((out + got) % 65536).toNat % buffer.size

/-- Where the client stands in the loop of `stdbuf_v1`. -/
inductive Client where
  | pulling
  | peeking (into out : Int)
  | pushing (outPush : Nat) (got : Int)
  | waiting
  | left
  deriving Repr, DecidableEq

/-- The node, the client, and the bytes written and printed so far. -/
structure State where
  node : Node
  client : Client
  produced : List UInt8
  printed : List UInt8

/-- The node writes a byte at `in`. -/
def Node.append
    (buffer : Stdbuf)
    (byte : UInt8)
    (node : Node) :
    Node where
  memory :=
    Function.update node.memory (address buffer.vaddr node.stdbufIn) byte
  stdbufIn := (node.stdbufIn + 1) % buffer.size
  stdbufOut := node.stdbufOut

/-- A step of the node or of the client. -/
inductive Step (buffer : Stdbuf) : State → State → Prop where
  | append
      {state : State}
      (byte : UInt8)
      (room :
        unread buffer.size state.node.stdbufOut state.node.stdbufIn + 1 <
          buffer.size) :
      Step buffer state
        { state with
          node := state.node.append buffer byte
          produced := state.produced ++ [byte] }
  | pull
      {state : State}
      (turn : state.client = .pulling) :
      Step buffer state
        { state with
          client := .peeking state.node.stdbufIn state.node.stdbufOut }
  | peek
      {state : State}
      {into out : Int}
      (turn : state.client = .peeking into out) :
      Step buffer state
        { state with
          client :=
            .pushing
              (outPush buffer out
                (stdbufChunk buffer state.node into out).2)
              (stdbufChunk buffer state.node into out).2
          printed :=
            state.printed ++ (stdbufChunk buffer state.node into out).1 }
  | push
      {state : State}
      {newOut : Nat}
      {got : Int}
      (turn : state.client = .pushing newOut got) :
      Step buffer state
        { state with
          node := { state.node with stdbufOut := newOut }
          client := if got > 0 then .pulling else .waiting }
  | wait
      {state : State}
      (interrupted : Bool)
      (turn : state.client = .waiting) :
      Step buffer state
        { state with client := if interrupted then .left else .pulling }

/-- The client starts with an empty buffer, at any of its indexes. -/
structure Initial (buffer : Stdbuf) (state : State) : Prop where
  empty : state.node.stdbufIn = state.node.stdbufOut
  inside : state.node.stdbufOut < buffer.size
  turn : state.client = .pulling
  produced : state.produced = []
  printed : state.printed = []

/-- The bytes written up to an index, as the unread ones tell it. -/
def State.streamUpTo
    (buffer : Stdbuf)
    (index : Nat)
    (state : State) :
    List UInt8 :=
  state.produced.take
    (state.produced.length - unread buffer.size index state.node.stdbufIn)

/--
The index that goes with what is printed: `stdbuf_out`, and behind a chunk,
until it is pushed, the index that will be.
-/
def State.printedOut (state : State) : Nat :=
  match state.client with
  | .pushing newOut _ => newOut
  | _ => state.node.stdbufOut

/-- The cell of the ring with an index. -/
def Node.cell (buffer : Stdbuf) (node : Node) (index : Nat) : UInt8 :=
  node.memory (address buffer.vaddr index)

section Memory

variable {buffer : Stdbuf}
variable {node : Node}

theorem address_add
    (base start : Nat)
    (index : Nat) :
    address (address base start) index = address base (start + index : Nat) := by
  unfold address
  omega

/-- The cells of the ring have different addresses. -/
theorem address_injective
    {index other : Nat}
    (inside : index < buffer.size)
    (inside' : other < buffer.size)
    (same : address buffer.vaddr index = address buffer.vaddr other) :
    index = other := by
  have bound := buffer.size_le
  unfold address at same
  omega

/-- Writing a byte changes one cell of the ring. -/
theorem cell_append
    {byte : UInt8}
    {index : Nat}
    (inside : index < buffer.size)
    (into : node.stdbufIn < buffer.size) :
    (node.append buffer byte).cell buffer index =
      if index = node.stdbufIn then byte else node.cell buffer index := by
  unfold Node.cell Node.append
  by_cases same : index = node.stdbufIn
  · simp [same]
  · have different :
        address buffer.vaddr index ≠ address buffer.vaddr node.stdbufIn :=
      fun equal => same (address_injective inside into equal)
    simp [same, different]

/-- A chunk consists of the cells from its start on. -/
theorem peek_eq_cells
    (start len : Nat) :
    node.peek (address buffer.vaddr start) len =
      (List.range len).map fun index => node.cell buffer (start + index) := by
  simp [Node.peek, Node.cell, address_add]

end Memory

section Invariant

variable {buffer : Stdbuf}
variable {start consumed : Nat}
variable {state next : State}

/-- What the client knows and has printed, at its place in the loop. -/
def ClientTracks
    (buffer : Stdbuf)
    (start consumed : Nat)
    (state : State) :
    Prop :=
  match state.client with
  | .peeking into out =>
      ∃ seen,
        consumed ≤ seen ∧ seen ≤ state.produced.length ∧
          into = slot buffer.size start seen ∧
          out = slot buffer.size start consumed ∧
          state.printed = state.produced.take consumed
  | .pushing newOut got =>
      ∃ len : Nat,
        got = len ∧ consumed + len ≤ state.produced.length ∧
          newOut = slot buffer.size start (consumed + len) ∧
          state.printed = state.produced.take (consumed + len)
  | _ => state.printed = state.produced.take consumed

/--
The indexes are the cells of two positions of the stream less than one round
apart, and the ring holds the stream between them.
-/
structure Tracks
    (buffer : Stdbuf)
    (start consumed : Nat)
    (state : State) :
    Prop where
  out : state.node.stdbufOut = slot buffer.size start consumed
  into :
    state.node.stdbufIn = slot buffer.size start state.produced.length
  order : consumed ≤ state.produced.length
  near : state.produced.length < consumed + buffer.size
  held :
    Holds buffer.size start (state.node.cell buffer) state.produced consumed
  client : ClientTracks buffer start consumed state

/-- What `stdbuf_get` prints, up to a cell that the stream has reached. -/
theorem stdbufGet_eq
    (tracks : Tracks buffer start consumed state)
    (stop : Nat)
    (after : slot buffer.size start consumed ≤ stop)
    (inside : stop ≤ buffer.size)
    (reached :
      consumed + (stop - slot buffer.size start consumed) ≤
        state.produced.length) :
    ∃ len : Nat,
      stdbufGet state.node buffer.vaddr
          (slot buffer.size start consumed) stop =
        ((state.produced.drop consumed).take len, (len : Int)) ∧
        len ≤ stop - slot buffer.size start consumed := by
  let len := min 200 (stop - slot buffer.size start consumed)
  have capped :
      (if (stop : Int) - slot buffer.size start consumed > 200 then 200
        else (stop : Int) - slot buffer.size start consumed) =
        (len : Nat) := by
    simp only [len]
    split <;> omega
  refine ⟨len, ?_, by omega⟩
  simp only [stdbufGet, capped]
  rw [peek_eq_cells, tracks.held.chunk (by omega) (by omega)]

/-- A chunk is a stretch of the stream and ends inside the ring. -/
theorem stdbufChunk_eq
    {seen : Nat}
    (tracks : Tracks buffer start consumed state)
    (order : consumed ≤ seen)
    (seen_le : seen ≤ state.produced.length) :
    ∃ len : Nat,
      stdbufChunk buffer state.node (slot buffer.size start seen)
          (slot buffer.size start consumed) =
        ((state.produced.drop consumed).take len, (len : Int)) ∧
        consumed + len ≤ state.produced.length ∧
        slot buffer.size start consumed + len ≤ buffer.size := by
  have near := tracks.near
  obtain ⟨distance, rfl⟩ := Nat.exists_eq_add_of_le order
  have bound : slot buffer.size start consumed < buffer.size :=
    slot_lt buffer.size_pos consumed
  have later :
      slot buffer.size start (consumed + distance) =
        if slot buffer.size start consumed + distance < buffer.size then
          slot buffer.size start consumed + distance
        else
          slot buffer.size start consumed + distance - buffer.size :=
    slot_add (by omega)
  unfold stdbufChunk
  by_cases straight : slot buffer.size start consumed + distance < buffer.size
  · rw [if_pos straight] at later
    rw [later]
    split
    · obtain ⟨len, got, upTo⟩ :=
        stdbufGet_eq tracks (slot buffer.size start consumed + distance)
          (by omega) (by omega) (by omega)
      exact ⟨len, got, by omega, by omega⟩
    · rw [if_neg (by omega)]
      exact ⟨0, by simp, by omega, by omega⟩
  · rw [if_neg straight] at later
    rw [later, if_neg (by omega), if_pos (by omega)]
    obtain ⟨len, got, upTo⟩ :=
      stdbufGet_eq tracks buffer.size (by omega) (by omega) (by omega)
    exact ⟨len, got, by omega, by omega⟩

/-- The index that is pushed is the cell behind the chunk. -/
theorem outPush_eq
    {len : Nat}
    (inside : slot buffer.size start consumed + len ≤ buffer.size) :
    outPush buffer (slot buffer.size start consumed) len =
      slot buffer.size start (consumed + len) := by
  have bound := buffer.size_le
  have positive := buffer.size_pos
  have sum :
      slot buffer.size start (consumed + len) =
        (slot buffer.size start consumed + len) % buffer.size := by
    simp [slot, Nat.add_assoc]
  rw [sum]
  unfold outPush
  rcases Nat.lt_or_ge (slot buffer.size start consumed + len) 65536 with
    small | full
  · congr 1
    omega
  -- Only a ring of the full 64 KiB wraps in the 16 bit number already.
  · have whole : slot buffer.size start consumed + len = buffer.size := by
      omega
    have wrapped :
        (((slot buffer.size start consumed : Nat) + (len : Int)) %
          65536).toNat = 0 := by
      omega
    rw [wrapped, whole]
    simp

theorem Tracks.initial
    (initial : Initial buffer state) :
    Tracks buffer state.node.stdbufOut 0 state := by
  have positive := buffer.size_pos
  refine ⟨?_, ?_, ?_, ?_, ?_, ?_⟩
  · simp [slot, Nat.mod_eq_of_lt initial.inside]
  · simp [slot, initial.produced, initial.empty,
      Nat.mod_eq_of_lt initial.inside]
  · omega
  · simpa [initial.produced] using positive
  · rw [initial.produced]
    exact .nil
  · simp [ClientTracks, initial.turn, initial.printed]

/-- A byte that the node writes keeps what the client has behind it. -/
theorem Tracks.append
    (tracks : Tracks buffer start consumed state)
    (byte : UInt8)
    (room :
      unread buffer.size state.node.stdbufOut state.node.stdbufIn + 1 <
        buffer.size) :
    Tracks buffer start consumed
      { state with
        node := state.node.append buffer byte
        produced := state.produced ++ [byte] } := by
  have order := tracks.order
  have near := tracks.near
  have inside : state.node.stdbufIn < buffer.size := by
    rw [tracks.into]
    exact slot_lt buffer.size_pos _
  obtain ⟨distance, produced⟩ := Nat.exists_eq_add_of_le order
  rw [tracks.out, tracks.into, produced, unread_slot (by omega)] at room
  refine ⟨tracks.out, ?_, ?_, ?_, ?_, ?_⟩
  · rw [List.length_append, List.length_singleton, slot_succ, ← tracks.into]
    rfl
  · simp only [List.length_append, List.length_singleton]
    omega
  · simp only [List.length_append, List.length_singleton]
    omega
  · refine tracks.held.append near ?_ fun index inRing other => ?_
    · rw [← tracks.into, cell_append inside inside, if_pos rfl]
    · rw [← tracks.into] at other
      rw [cell_append inRing inside, if_neg other]
  · have client := tracks.client
    unfold ClientTracks at client ⊢
    simp only at client ⊢
    have kept :
        ∀ count ≤ state.produced.length,
          (state.produced ++ [byte]).take count =
            state.produced.take count :=
      fun count upTo => List.take_append_of_le_length upTo
    split at client
    · obtain ⟨seen, after, upTo, into, out, printed⟩ := client
      refine ⟨seen, after, ?_, into, out, ?_⟩
      · simp only [List.length_append]
        omega
      · rw [kept _ order, printed]
    · obtain ⟨len, got, upTo, newOut, printed⟩ := client
      refine ⟨len, got, ?_, newOut, ?_⟩
      · simp only [List.length_append]
        omega
      · rw [kept _ upTo, printed]
    · rw [kept _ order, client]

/-- The chunk of a turn continues what has been printed. -/
theorem Tracks.peek
    {into out : Int}
    (tracks : Tracks buffer start consumed state)
    (turn : state.client = .peeking into out) :
    Tracks buffer start consumed
      { state with
        client :=
          .pushing
            (outPush buffer out (stdbufChunk buffer state.node into out).2)
            (stdbufChunk buffer state.node into out).2
        printed :=
          state.printed ++ (stdbufChunk buffer state.node into out).1 } := by
  have client := tracks.client
  rw [ClientTracks, turn] at client
  obtain ⟨seen, after, upTo, rfl, rfl, printed⟩ := client
  obtain ⟨len, chunk, within, inside⟩ := stdbufChunk_eq tracks after upTo
  refine ⟨tracks.out, tracks.into, tracks.order, tracks.near, tracks.held, ?_⟩
  refine ⟨len, ?_, within, ?_, ?_⟩
  · rw [chunk]
  · rw [chunk, outPush_eq inside]
  · rw [chunk, printed, ← List.take_add]

/-- Every step keeps the ring and the client in agreement. -/
theorem Tracks.step
    (tracks : Tracks buffer start consumed state)
    (step : Step buffer state next) :
    ∃ later, Tracks buffer start later next := by
  have client := tracks.client
  cases step with
  | append byte room =>
      exact ⟨consumed, tracks.append byte room⟩
  | pull turn =>
      rw [ClientTracks, turn] at client
      refine
        ⟨consumed, tracks.out, tracks.into, tracks.order, tracks.near,
          tracks.held, ?_⟩
      exact
        ⟨state.produced.length, tracks.order, le_rfl,
          congrArg _ tracks.into, congrArg _ tracks.out, client⟩
  | peek turn =>
      exact ⟨consumed, tracks.peek turn⟩
  | push turn =>
      rw [ClientTracks, turn] at client
      obtain ⟨len, rfl, upTo, newOut, printed⟩ := client
      have near := tracks.near
      refine
        ⟨consumed + len, newOut, tracks.into, upTo, ?_,
          tracks.held.mono (by omega), ?_⟩
      · simp only
        omega
      · by_cases more : (len : Int) > 0
        · simp only [ClientTracks, if_pos more]
          exact printed
        · simp only [ClientTracks, if_neg more]
          exact printed
  | wait interrupted turn =>
      rw [ClientTracks, turn] at client
      refine
        ⟨consumed, tracks.out, tracks.into, tracks.order, tracks.near,
          tracks.held, ?_⟩
      cases interrupted <;> exact client

/-- The ring and the client agree in every state that a run reaches. -/
theorem Tracks.run
    (initial : Initial buffer state)
    (run : Relation.ReflTransGen (Step buffer) state next) :
    ∃ consumed, Tracks buffer state.node.stdbufOut consumed next := by
  induction run with
  | refl =>
      exact ⟨0, .initial initial⟩
  | tail _ step inductionHypothesis =>
      obtain ⟨consumed, tracks⟩ := inductionHypothesis
      exact tracks.step step

/-- The unread bytes tell how much of the stream stands before an index. -/
theorem streamUpTo_slot
    {position : Nat}
    (tracks : Tracks buffer start consumed state)
    (after : consumed ≤ position)
    (upTo : position ≤ state.produced.length) :
    state.streamUpTo buffer (slot buffer.size start position) =
      state.produced.take position := by
  have near := tracks.near
  obtain ⟨distance, produced⟩ := Nat.exists_eq_add_of_le upTo
  rw [State.streamUpTo, tracks.into, produced, unread_slot (by omega)]
  simp

/--
Whatever the node writes between the requests of the client, the bytes printed
so far are the bytes written up to `stdbuf_out`, and that stays in the ring.
-/
theorem printed_eq_streamUpTo_out
    {first : State}
    (initial : Initial buffer first)
    (run : Relation.ReflTransGen (Step buffer) first state) :
    state.node.stdbufOut < buffer.size ∧
      state.printedOut < buffer.size ∧
      state.printed = state.streamUpTo buffer state.printedOut := by
  obtain ⟨consumed, tracks⟩ := Tracks.run initial run
  have client := tracks.client
  have order := tracks.order
  have out : state.node.stdbufOut < buffer.size := by
    rw [tracks.out]
    exact slot_lt buffer.size_pos _
  refine ⟨out, ?_⟩
  cases turn : state.client with
  | pushing newOut got =>
      rw [ClientTracks, turn] at client
      obtain ⟨len, _, upTo, rfl, printed⟩ := client
      simp only [State.printedOut, turn]
      refine ⟨slot_lt buffer.size_pos _, ?_⟩
      rw [printed, streamUpTo_slot tracks (by omega) upTo]
  | peeking into seenOut =>
      rw [ClientTracks, turn] at client
      obtain ⟨seen, _, _, _, _, printed⟩ := client
      simp only [State.printedOut, turn]
      refine ⟨out, ?_⟩
      rw [printed, tracks.out, streamUpTo_slot tracks le_rfl order]
  | pulling | waiting | left =>
      rw [ClientTracks, turn] at client
      simp only [State.printedOut, turn]
      refine ⟨out, ?_⟩
      rw [client, tracks.out, streamUpTo_slot tracks le_rfl order]

/-- A byte in the last cell of a ring of two is printed, and `out` goes round. -/
theorem printed_eq_streamUpTo_out_last_cell :
    ∃ state : State,
      state.printed = [65] ∧ state.node.stdbufOut = 0 ∧
        state.node.stdbufOut < 2 ∧ state.printedOut < 2 ∧
        state.printed =
          state.streamUpTo ⟨4096, 2, by decide, by decide⟩
            state.printedOut := by
  have start :
      Initial ⟨4096, 2, by decide, by decide⟩
        ⟨⟨fun _ => 0, 1, 1⟩, .pulling, [], []⟩ :=
    ⟨rfl, by decide, rfl, rfl, rfl⟩
  have append :
      Step ⟨4096, 2, by decide, by decide⟩
        ⟨⟨fun _ => 0, 1, 1⟩, .pulling, [], []⟩ _ :=
    .append 65 (by decide)
  have run :=
    (((Relation.ReflTransGen.single append).tail (.pull rfl)).tail
      (.peek rfl)).tail (.push rfl)
  exact ⟨_, rfl, rfl, printed_eq_streamUpTo_out start run⟩

end Invariant

end Csh.StdbufClient
