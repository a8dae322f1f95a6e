import Csh.Lib.Steps
import Csh.StdbufClient

namespace Csh.StdbufMon

open RingBuffer Steps StdbufClient

/-!
# Monitoring a node over a link that loses requests

The loop of `stdbuf_mon_slash` looks at the answer of none of its requests.  A
pull without an answer leaves the old copies of both indexes, a peek without
one gets nothing, and a push may be lost on its way or on its way back.  The
copies of fresh parameters hold 0 until a pull is answered.
-/

/--
What becomes of a push: it does not arrive, it arrives, or it arrives and
`param_push_single` sets the copy of `stdbuf_out` as well.
-/
inductive Push where
  | lost
  | stored
  | copied
  deriving Repr, DecidableEq

/-- What the node or the monitor does next, and what comes of it. -/
inductive Action where
  | append (byte : UInt8)
  | pull (answered : Bool)
  | peek (answered : Bool)
  | push (outcome : Push)
  | wait (interrupted : Bool)
  deriving Repr, DecidableEq

/-- The node and the client, with the client's copies of the two indexes. -/
structure State extends StdbufClient.State where
  copyIn : Nat
  copyOut : Nat

/-- The node writes a byte. -/
def State.append
    (buffer : Stdbuf)
    (byte : UInt8)
    (state : State) :
    State :=
  { state with
    node := state.node.append buffer byte
    produced := state.produced ++ [byte] }

/-- `param_pull_queue`, and both copies read behind it. -/
def State.pull
    (answered : Bool)
    (state : State) :
    State :=
  let copyIn := if answered then state.node.stdbufIn else state.copyIn
  let copyOut := if answered then state.node.stdbufOut else state.copyOut
  { state with
    client := .peeking copyIn copyOut
    copyIn := copyIn
    copyOut := copyOut }

/-- The call of `stdbuf_get`, which returns 0 when its peek fails. -/
def State.peek
    (buffer : Stdbuf)
    (answered : Bool)
    (into out : Int)
    (state : State) :
    State :=
  let got :=
    if answered then stdbufChunk buffer state.node into out else ([], 0)
  { state with
    client := .pushing (outPush buffer out got.2) got.2
    printed := state.printed ++ got.1 }

/-- `param_push_single`, and the end of the turn. -/
def State.push
    (outcome : Push)
    (newOut : Nat)
    (got : Int)
    (state : State) :
    State :=
  let client := if got > 0 then Client.pulling else Client.waiting
  let node := { state.node with stdbufOut := newOut }
  match outcome with
  | .lost => { state with client := client }
  | .stored => { state with client := client, node := node }
  | .copied => { state with client := client, node := node, copyOut := newOut }

/-- A step of the node or of the loop of `stdbuf_mon_slash`. -/
def monStep
    (buffer : Stdbuf)
    (action : Action)
    (state : State) :
    Option State :=
  match action, state.client with
  | .append byte, _ =>
      if unread buffer.size state.node.stdbufOut state.node.stdbufIn + 1 <
          buffer.size then
        some (state.append buffer byte)
      else
        none
  | .pull answered, .pulling => some (state.pull answered)
  | .peek answered, .peeking into out =>
      some (state.peek buffer answered into out)
  | .push outcome, .pushing newOut got => some (state.push outcome newOut got)
  | .wait interrupted, .waiting =>
      some
        { state with client := if interrupted then .left else .pulling }
  | _, _ => none

/-- The first pull of a run is answered, if there is one. -/
def firstPullAnswered : List Action → Bool
  | [] => true
  | .pull answered :: _ => answered
  | _ :: rest => firstPullAnswered rest

/-- The copies are the indexes of the node. -/
def State.CopiesRight (state : State) : Prop :=
  state.copyIn = state.node.stdbufIn ∧ state.copyOut = state.node.stdbufOut

/--
The monitor starts with an empty ring, and with any copies that are right or
that its first pull makes right.
-/
structure Initial
    (buffer : Stdbuf)
    (actions : List Action)
    (state : State) :
    Prop where
  ring : StdbufClient.Initial buffer state.toState
  copies : state.CopiesRight ∨ firstPullAnswered actions = true

/--
The monitor is about to peek from an index that is not the node's: its pull was
not answered, and an earlier push has arrived behind its back.
-/
def State.lags (state : State) : Bool :=
  match state.client with
  | .peeking _ out => out ≠ state.node.stdbufOut
  | _ => false

/-- A peek may fail, but not one from an index that lags. -/
def noLostLag : Action → State → Bool
  | .peek false, state => !state.lags
  | _, _ => true

/-- No chunk is fetched from an index that lags, and none loses its push. -/
def noRepeat : Action → State → Bool
  | .peek _, state => !state.lags
  | .push .lost, state =>
      match state.client with
      | .pushing _ got => got ≤ 0
      | _ => true
  | _, _ => true

section Chunks

variable {buffer : Stdbuf}
variable {start : Nat}

/-- The length that `stdbuf_get` caps. -/
def cap (len : Int) : Int :=
  if len > 200 then 200 else len

/-- How much a turn asks for, which the two indexes alone decide. -/
def chunkLength (buffer : Stdbuf) (into out : Int) : Int :=
  if out < into then
    cap (into - out)
  else if out > into then
    cap (buffer.size - out)
  else
    0

/-- A chunk is what stands in the cells from `out` on, whoever wrote it. -/
theorem stdbufChunk_eq_cells
    (node : Node)
    {into : Int}
    {out len : Nat}
    (length : chunkLength buffer into out = len) :
    stdbufChunk buffer node into out =
      ((List.range len).map fun index => node.cell buffer (out + index),
        (len : Int)) := by
  unfold chunkLength cap at length
  unfold stdbufChunk stdbufGet
  split at length
  · rename_i before
    rw [if_pos before]
    simp only [length]
    rw [peek_eq_cells]
  · rename_i notBefore
    rw [if_neg notBefore]
    split at length
    · rename_i behind
      rw [if_pos behind]
      simp only [length]
      rw [peek_eq_cells]
    · rename_i notBehind
      obtain rfl : len = 0 := by
        omega
      simp [if_neg notBehind]

/-- A chunk stays within the ring and within what its indexes speak of. -/
theorem chunkLength_slot
    {consumed seen : Nat}
    (order : consumed ≤ seen)
    (near : seen < consumed + buffer.size) :
    ∃ len : Nat,
      chunkLength buffer (slot buffer.size start seen)
          (slot buffer.size start consumed) = len ∧
        consumed + len ≤ seen ∧
        slot buffer.size start consumed + len ≤ buffer.size := by
  obtain ⟨distance, rfl⟩ := Nat.exists_eq_add_of_le order
  have bound : slot buffer.size start consumed < buffer.size :=
    slot_lt buffer.size_pos consumed
  have later :
      slot buffer.size start (consumed + distance) =
        if slot buffer.size start consumed + distance < buffer.size then
          slot buffer.size start consumed + distance
        else
          slot buffer.size start consumed + distance - buffer.size :=
    slot_add (by omega)
  generalize slot buffer.size start consumed = out at *
  rw [later]
  refine ⟨(chunkLength buffer _ _).toNat, Eq.symm (Int.toNat_of_nonneg ?_), ?_⟩
  · unfold chunkLength cap
    split <;> split <;> try split
    all_goals omega
  · unfold chunkLength cap
    split <;> split <;> try split
    all_goals omega

end Chunks

section Invariant

variable {buffer : Stdbuf}
variable {start consumed copied seen excess : Nat}
variable {state next : State}
variable {action : Action}
variable {actions : List Action}

/-- A client of the same node that has printed just what is consumed. -/
def State.reader (consumed : Nat) (state : State) : StdbufClient.State :=
  ⟨state.node, .pulling, state.produced, state.produced.take consumed⟩

/--
The stream up to a position has been printed in order, and `excess` bytes
besides.
-/
structure PrintedUpTo
    (position excess : Nat)
    (produced printed : List UInt8) :
    Prop where
  sublist : (produced.take position).Sublist printed
  length : printed.length = position + excess

/-- The node has all of the client's last chunk behind it, or none of it. -/
def OneChunk
    (buffer : Stdbuf)
    (consumed copied : Nat)
    (state : State) :
    Prop :=
  consumed = copied ∨
    (consumed : Int) =
      copied + chunkLength buffer state.copyIn state.copyOut

/-- What the client holds and has printed, at its place in the loop. -/
def ClientFollows
    (buffer : Stdbuf)
    (start consumed copied seen excess : Nat)
    (state : State) :
    Prop :=
  match state.client with
  | .peeking into out =>
      into = state.copyIn ∧ out = state.copyOut ∧
        OneChunk buffer consumed copied state ∧
        PrintedUpTo consumed excess state.produced state.printed
  | .pushing newOut got =>
      ∃ len : Nat,
        got = len ∧ newOut = slot buffer.size start (copied + len) ∧
          copied + len ≤ seen ∧
          (len = 0 ∨
            chunkLength buffer state.copyIn state.copyOut = len) ∧
          (consumed = copied ∨ consumed = copied + len ∧ 0 < excess) ∧
          PrintedUpTo (copied + len) excess state.produced state.printed
  | _ =>
      OneChunk buffer consumed copied state ∧
        PrintedUpTo consumed excess state.produced state.printed

/--
The ring holds the stream from `consumed` on, and the copies of the indexes
are positions of the stream that were less than one round apart.
-/
structure Follows
    (buffer : Stdbuf)
    (start consumed copied seen excess : Nat)
    (state : State) :
    Prop where
  ring : Tracks buffer start consumed (state.reader consumed)
  copyIn : state.copyIn = slot buffer.size start seen
  copyOut : state.copyOut = slot buffer.size start copied
  order : copied ≤ seen
  written : seen ≤ state.produced.length
  near : seen < copied + buffer.size
  client : ClientFollows buffer start consumed copied seen excess state

/-- A state follows the ring with some positions, and this much excess. -/
def FollowsWith
    (buffer : Stdbuf)
    (start excess : Nat)
    (state : State) :
    Prop :=
  ∃ consumed copied seen,
    Follows buffer start consumed copied seen excess state

/-- Writing behind what is printed keeps it. -/
theorem PrintedUpTo.append
    {position : Nat}
    {produced printed : List UInt8}
    (upTo : PrintedUpTo position excess produced printed)
    (written : position ≤ produced.length)
    (byte : UInt8) :
    PrintedUpTo position excess (produced ++ [byte]) printed := by
  refine ⟨?_, upTo.length⟩
  rw [List.take_append_of_le_length written]
  exact upTo.sublist

/-- Going back to an earlier position turns what lies between into excess. -/
theorem PrintedUpTo.back
    {position count : Nat}
    {produced printed : List UInt8}
    (upTo : PrintedUpTo (position + count) excess produced printed) :
    PrintedUpTo position (excess + count) produced printed := by
  refine ⟨?_, ?_⟩
  · exact
      (List.take_sublist_take_left (Nat.le_add_right position count)).trans
        upTo.sublist
  · rw [upTo.length]
    omega

theorem FollowsWith.initial
    (ring : StdbufClient.Initial buffer state.toState)
    (right : state.CopiesRight) :
    FollowsWith buffer state.node.stdbufOut 0 state := by
  have positive := buffer.size_pos
  have index :
      state.node.stdbufOut = slot buffer.size state.node.stdbufOut 0 := by
    simp [slot, Nat.mod_eq_of_lt ring.inside]
  have reader :
      StdbufClient.Initial buffer (state.reader 0) :=
    ⟨ring.empty, ring.inside, rfl, ring.produced, by simp [State.reader]⟩
  refine ⟨0, 0, 0, .initial reader, ?_, ?_, le_rfl, by omega, by omega, ?_⟩
  · rw [right.1, ring.empty, ← index]
  · rw [right.2, ← index]
  · rw [ClientFollows, ring.turn]
    exact ⟨.inl rfl, by simp, by simp [ring.printed]⟩

/-- A byte that the node writes changes nothing of what the client holds. -/
theorem Follows.append
    (follows : Follows buffer start consumed copied seen excess state)
    (byte : UInt8)
    (room :
      unread buffer.size state.node.stdbufOut state.node.stdbufIn + 1 <
        buffer.size) :
    Follows buffer start consumed copied seen excess
      (state.append buffer byte) := by
  have behind : consumed ≤ state.produced.length := follows.ring.order
  have written := follows.written
  have ring := follows.ring.append byte room
  have reader :
      (state.append buffer byte).reader consumed =
        { state.reader consumed with
          node := state.node.append buffer byte
          produced := state.produced ++ [byte] } := by
    simp only [State.reader, State.append,
      List.take_append_of_le_length behind]
  refine
    ⟨reader ▸ ring, follows.copyIn, follows.copyOut, follows.order, ?_,
      follows.near, ?_⟩
  · simp only [State.append, List.length_append]
    omega
  · have client := follows.client
    unfold ClientFollows at client ⊢
    simp only [State.append] at client ⊢
    split at client
    · obtain ⟨into, out, chunk, printed⟩ := client
      exact ⟨into, out, chunk, printed.append behind byte⟩
    · obtain ⟨len, got, newOut, within, length, place, printed⟩ := client
      exact
        ⟨len, got, newOut, within, length, place,
          printed.append (by omega) byte⟩
    · exact ⟨client.1, client.2.append behind byte⟩

/-- A pull makes the copies right, or leaves them as they were. -/
theorem Follows.pull
    (follows : Follows buffer start consumed copied seen excess state)
    (turn : state.client = .pulling)
    (answered : Bool) :
    FollowsWith buffer start excess (state.pull answered) := by
  have client := follows.client
  rw [ClientFollows, turn] at client
  cases answered with
  | true =>
      exact
        ⟨consumed, consumed, state.produced.length, follows.ring,
          follows.ring.into, follows.ring.out, follows.ring.order, le_rfl,
          follows.ring.near, rfl, rfl, .inl rfl, client.2⟩
  | false =>
      exact
        ⟨consumed, copied, seen, follows.ring, follows.copyIn,
          follows.copyOut, follows.order, follows.written, follows.near,
          rfl, rfl, client.1, client.2⟩

/-- Before a peek the index lags just when a push has arrived unnoticed. -/
theorem Follows.lags_iff
    {into out : Int}
    (follows : Follows buffer start consumed copied seen excess state)
    (turn : state.client = .peeking into out) :
    state.lags = true ↔ consumed ≠ copied := by
  have client := follows.client
  rw [ClientFollows, turn] at client
  obtain ⟨-, rfl, chunk, -⟩ := client
  have nodeOut : state.node.stdbufOut = slot buffer.size start consumed :=
    follows.ring.out
  have lags :
      state.lags = true ↔
        slot buffer.size start copied ≠ slot buffer.size start consumed := by
    simp [State.lags, turn, follows.copyOut, nodeOut]
  rw [lags]
  refine ⟨fun different same => different (by rw [same]), fun apart => ?_⟩
  obtain ⟨len, length, within, -⟩ :=
    @chunkLength_slot buffer start _ _ follows.order follows.near
  have ahead : consumed = copied + len := by
    rcases chunk with same | ahead
    · exact absurd same apart
    · rw [follows.copyIn, follows.copyOut, length] at ahead
      omega
  have near := follows.near
  rw [ahead]
  exact (slot_ne (by omega) (by omega)).symm

/-- A failed peek prints nothing and leads back to the index it was made at. -/
theorem Follows.peek_failed
    {into out : Int}
    (follows : Follows buffer start consumed copied seen excess state)
    (turn : state.client = .peeking into out)
    (allowed : noLostLag (.peek false) state = true) :
    FollowsWith buffer start excess (state.peek buffer false into out) := by
  have noLag : state.lags = false := by
    simpa [noLostLag] using allowed
  have same : consumed = copied := by
    by_contra apart
    have lags := (follows.lags_iff turn).mpr apart
    rw [noLag] at lags
    cases lags
  have client := follows.client
  rw [ClientFollows, turn] at client
  obtain ⟨-, rfl, -, printed⟩ := client
  have bound : slot buffer.size start copied < buffer.size :=
    slot_lt buffer.size_pos copied
  refine
    ⟨consumed, copied, seen, follows.ring, follows.copyIn, follows.copyOut,
      follows.order, follows.written, follows.near, 0, rfl, ?_,
      follows.order, .inl rfl, .inl same, ?_⟩
  · rw [follows.copyOut]
    exact @outPush_eq buffer start copied 0 (by omega)
  · refine ⟨?_, ?_⟩
    · simpa [State.peek, same] using printed.sublist
    · simpa [State.peek, same] using printed.length

/-- The next stretch of the stream continues what has been printed. -/
theorem PrintedUpTo.stretch
    {position count : Nat}
    {produced printed : List UInt8}
    (upTo : PrintedUpTo position excess produced printed)
    (within : position + count ≤ produced.length) :
    PrintedUpTo (position + count) excess produced
      (printed ++ (produced.drop position).take count) := by
  refine ⟨?_, ?_⟩
  · rw [List.take_add]
    exact upTo.sublist.append_right _
  · rw [List.length_append, List.length_take, List.length_drop, upTo.length]
    omega

/-- Anything else that is printed is excess. -/
theorem PrintedUpTo.besides
    {position : Nat}
    {produced printed : List UInt8}
    (upTo : PrintedUpTo position excess produced printed)
    (bytes : List UInt8) :
    PrintedUpTo position (excess + bytes.length) produced
      (printed ++ bytes) := by
  refine ⟨upTo.sublist.trans (List.sublist_append_left _ _), ?_⟩
  rw [List.length_append, upTo.length]
  omega

/--
An answered peek prints the next stretch of the stream, unless its index lags:
then it prints whatever the cells of the last chunk hold by now.
-/
theorem Follows.peek_answered
    {into out : Int}
    (follows : Follows buffer start consumed copied seen excess state)
    (turn : state.client = .peeking into out) :
    ∃ later,
      FollowsWith buffer start later (state.peek buffer true into out) ∧
        Grows excess later (noRepeat (.peek true) state) := by
  have lags := follows.lags_iff turn
  have client := follows.client
  rw [ClientFollows, turn] at client
  obtain ⟨rfl, rfl, chunk, printed⟩ := client
  obtain ⟨len, length, within, inside⟩ :=
    @chunkLength_slot buffer start _ _ follows.order follows.near
  have written := follows.written
  rw [← follows.copyIn, ← follows.copyOut] at length
  have bytes := stdbufChunk_eq_cells state.node length
  have got :
      state.peek buffer true state.copyIn state.copyOut =
        { state with
          client := .pushing (slot buffer.size start (copied + len)) len
          printed :=
            state.printed ++
              (List.range len).map fun index =>
                state.node.cell buffer (state.copyOut + index) } := by
    simp only [State.peek, if_true, bytes]
    rw [follows.copyOut, outPush_eq inside]
  rw [got]
  rcases Decidable.em (consumed = copied) with same | apart
  · subst same
    have stretch :
        (List.range len).map
            (fun index => state.node.cell buffer (state.copyOut + index)) =
          (state.produced.drop consumed).take len := by
      rw [follows.copyOut]
      exact follows.ring.held.chunk inside (by simp only [State.reader]; omega)
    refine
      ⟨excess,
        ⟨consumed, consumed, seen, follows.ring, follows.copyIn,
          follows.copyOut, follows.order, follows.written, follows.near,
          len, rfl, rfl, within, .inr length, .inl rfl, ?_⟩, ?_⟩
    · rw [stretch]
      exact printed.stretch (by omega)
    · have noLag : state.lags = false := by
        simpa using lags
      rw [noRepeat, noLag]
      exact .same
  · have ahead : consumed = copied + len := by
      rcases chunk with same | ahead
      · exact absurd same apart
      · rw [length] at ahead
        omega
    have printed :=
      printed.besides
        ((List.range len).map fun index =>
          state.node.cell buffer (state.copyOut + index))
    rw [List.length_map, List.length_range] at printed
    refine
      ⟨excess + len,
        ⟨consumed, copied, seen, follows.ring, follows.copyIn,
          follows.copyOut, follows.order, follows.written, follows.near,
          len, rfl, rfl, within, .inr length, .inr ⟨ahead, by omega⟩, ?_⟩, ?_⟩
    · rw [← ahead]
      exact printed
    · rw [noRepeat, lags.mpr apart]
      refine ⟨by omega, fun _ => ⟨fun zero => ?_, fun kept => ?_⟩⟩
      · omega
      · simp at kept

/-- Moving the node's index on keeps what the ring holds behind it. -/
theorem tracks_push
    {len : Nat}
    (ring : Tracks buffer start consumed (state.reader consumed))
    (upTo : consumed + len ≤ state.produced.length)
    (client : Client)
    (copyOut : Nat) :
    Tracks buffer start (consumed + len)
      (State.reader (consumed + len)
        { state with
          client := client
          node :=
            { state.node with
              stdbufOut := slot buffer.size start (consumed + len) }
          copyOut := copyOut }) := by
  have near : state.produced.length < consumed + buffer.size := ring.near
  refine
    ⟨rfl, ring.into, upTo, ?_, ring.held.mono (Nat.le_add_right _ _), rfl⟩
  simp only [State.reader]
  omega

/-- The loop ends a turn where the next one starts, or in the delay. -/
theorem clientFollows_turn
    {got : Int}
    (client :
      state.client = if got > 0 then Client.pulling else Client.waiting)
    (chunk : OneChunk buffer consumed copied state)
    (printed :
      PrintedUpTo consumed excess state.produced state.printed) :
    ClientFollows buffer start consumed copied seen excess state := by
  rw [ClientFollows, client]
  by_cases more : got > 0
  · rw [if_pos more]
    exact ⟨chunk, printed⟩
  · rw [if_neg more]
    exact ⟨chunk, printed⟩

/-- A push that arrives moves the node's index behind what is printed. -/
theorem Follows.push_arrives
    {newOut : Nat}
    {got : Int}
    (follows : Follows buffer start consumed copied seen excess state)
    (turn : state.client = .pushing newOut got) :
    FollowsWith buffer start excess (state.push .stored newOut got) ∧
      FollowsWith buffer start excess (state.push .copied newOut got) := by
  have client := follows.client
  rw [ClientFollows, turn] at client
  obtain ⟨len, rfl, rfl, within, length, place, printed⟩ := client
  have written := follows.written
  have near := follows.near
  have ring :
      ∀ client copyOut,
        Tracks buffer start (copied + len)
          (State.reader (copied + len)
            { state with
              client := client
              node :=
                { state.node with
                  stdbufOut := slot buffer.size start (copied + len) }
              copyOut := copyOut }) := by
    intro client copyOut
    rcases place with rfl | ⟨rfl, -⟩
    · exact tracks_push follows.ring (by omega) client copyOut
    · exact
        @tracks_push buffer start _ state 0 follows.ring (by omega) client
          copyOut
  refine
    ⟨⟨copied + len, copied, seen, ring _ _, follows.copyIn, follows.copyOut,
        follows.order, written, near, clientFollows_turn rfl ?_ printed⟩,
      ⟨copied + len, copied + len, seen, ring _ _, follows.copyIn, rfl,
        within, written, ?_, clientFollows_turn rfl (.inl rfl) printed⟩⟩
  · rcases length with rfl | length
    · exact .inl rfl
    · refine .inr ?_
      simp only [State.push]
      rw [length]
      omega
  · omega

/-- A chunk whose push is lost will be printed once more. -/
theorem Follows.push_lost
    {newOut : Nat}
    {got : Int}
    (follows : Follows buffer start consumed copied seen excess state)
    (turn : state.client = .pushing newOut got) :
    ∃ later,
      FollowsWith buffer start later (state.push .lost newOut got) ∧
        Grows excess later (noRepeat (.push .lost) state) := by
  have client := follows.client
  rw [ClientFollows, turn] at client
  obtain ⟨len, rfl, rfl, within, length, place, printed⟩ := client
  have kept :
      noRepeat (.push .lost) state = true ↔ len = 0 := by
    simp [noRepeat, turn]
  rcases place with rfl | ⟨ahead, positive⟩
  · refine
      ⟨excess + len,
        ⟨consumed, consumed, seen, follows.ring, follows.copyIn,
          follows.copyOut, follows.order, follows.written, follows.near,
          clientFollows_turn rfl (.inl rfl) printed.back⟩, ?_⟩
    refine ⟨by omega, fun none => ?_⟩
    rw [kept]
    omega
  -- The node has the index already; the excess is there since the lag.
  · refine
      ⟨excess,
        ⟨consumed, copied, seen, follows.ring, follows.copyIn,
          follows.copyOut, follows.order, follows.written, follows.near,
          clientFollows_turn rfl ?_ (ahead ▸ printed)⟩, ?_⟩
    · rcases length with rfl | length
      · exact .inl ahead
      · refine .inr ?_
        simp only [State.push]
        rw [length]
        omega
    · exact ⟨le_rfl, fun none => absurd none (by omega)⟩

/-- Every step that is allowed keeps the ring and the copies in order. -/
theorem Follows.step
    (follows : Follows buffer start consumed copied seen excess state)
    (allowed : noLostLag action state = true)
    (stepped : monStep buffer action state = some next) :
    ∃ later,
      FollowsWith buffer start later next ∧
        Grows excess later (noRepeat action state) := by
  unfold monStep at stepped
  split at stepped
  case h_1 byte =>
    split at stepped
    · rename_i room
      obtain rfl := Option.some.inj stepped
      exact
        ⟨excess, ⟨consumed, copied, seen, follows.append byte room⟩, .same⟩
    · cases stepped
  case h_2 answered turn =>
    obtain rfl := Option.some.inj stepped
    exact ⟨excess, follows.pull turn answered, .same⟩
  case h_3 answered into out turn =>
    obtain rfl := Option.some.inj stepped
    cases answered with
    | true =>
        exact follows.peek_answered turn
    | false =>
        refine ⟨excess, follows.peek_failed turn allowed, ?_⟩
        have noLag : noRepeat (.peek false) state = true := allowed
        rw [noLag]
        exact .same
  case h_4 outcome newOut got turn =>
    obtain rfl := Option.some.inj stepped
    cases outcome with
    | lost =>
        exact follows.push_lost turn
    | stored =>
        exact ⟨excess, (follows.push_arrives turn).1, .same⟩
    | copied =>
        exact ⟨excess, (follows.push_arrives turn).2, .same⟩
  case h_5 interrupted turn =>
    obtain rfl := Option.some.inj stepped
    have client := follows.client
    rw [ClientFollows, turn] at client
    refine
      ⟨excess,
        ⟨consumed, copied, seen, follows.ring, follows.copyIn,
          follows.copyOut, follows.order, follows.written, follows.near, ?_⟩,
        .same⟩
    cases interrupted <;> exact client
  case h_6 =>
    cases stepped

theorem accounts_monStep
    (buffer : Stdbuf)
    (start : Nat) :
    Accounts (within noLostLag (monStep buffer)) noRepeat
      (FollowsWith buffer start) := by
  intro action state next excess follows stepped
  obtain ⟨allowed, stepped⟩ := within_eq_some_iff.mp stepped
  obtain ⟨consumed, copied, seen, follows⟩ := follows
  exact follows.step allowed stepped

/-- A step that repeats nothing is allowed. -/
theorem noLostLag_of_noRepeat
    (action : Action)
    (state : State)
    (kept : noRepeat action state = true) :
    noLostLag action state = true := by
  cases action with
  | peek answered =>
      cases answered with
      | true => rfl
      | false => exact kept
  | append byte => rfl
  | pull answered => rfl
  | push outcome => rfl
  | wait interrupted => rfl

/-- What the indexes of the node say is printed, and how it was printed. -/
theorem FollowsWith.printed
    (follows : FollowsWith buffer start excess state) :
    ∃ position ≤ state.produced.length,
      state.streamUpTo buffer state.printedOut =
          state.produced.take position ∧
        PrintedUpTo position excess state.produced state.printed := by
  obtain ⟨consumed, copied, seen, follows⟩ := follows
  have client := follows.client
  have written := follows.written
  have order : consumed ≤ state.produced.length := follows.ring.order
  have nodeOut : state.node.stdbufOut = slot buffer.size start consumed :=
    follows.ring.out
  have stream :
      ∀ position, consumed ≤ position → position ≤ state.produced.length →
        (state.reader consumed).streamUpTo buffer
            (slot buffer.size start position) =
          state.produced.take position :=
    fun position after upTo => streamUpTo_slot follows.ring after upTo
  cases turn : state.client with
  | pushing newOut got =>
      rw [ClientFollows, turn] at client
      obtain ⟨len, -, rfl, within, -, place, printed⟩ := client
      refine ⟨copied + len, by omega, ?_, printed⟩
      simp only [State.printedOut, turn]
      exact stream _ (by omega) (by omega)
  | peeking into out =>
      rw [ClientFollows, turn] at client
      refine ⟨consumed, order, ?_, client.2.2.2⟩
      simp only [State.printedOut, turn, nodeOut]
      exact stream _ le_rfl order
  | pulling | waiting | left =>
      rw [ClientFollows, turn] at client
      refine ⟨consumed, order, ?_, client.2⟩
      simp only [State.printedOut, turn, nodeOut]
      exact stream _ le_rfl order

/-- The same state with other copies. -/
def State.withCopies (copyIn copyOut : Nat) (state : State) : State :=
  { state with copyIn := copyIn, copyOut := copyOut }

theorem monStep_append_eq_some_iff
    {byte : UInt8} :
    monStep buffer (.append byte) state = some next ↔
      unread buffer.size state.node.stdbufOut state.node.stdbufIn + 1 <
          buffer.size ∧
        state.append buffer byte = next := by
  simp [monStep]

/--
What the copies were does not matter where the first pull is answered: until
then only the node acts, and from then on they are its indexes.
-/
theorem run_withCopies
    {allowed : Action → State → Bool}
    {first : State}
    (copyIn copyOut : Nat)
    (appends : ∀ byte state, allowed (.append byte) state = true)
    (pulls : ∀ state, allowed (.pull true) state = true)
    (turn : first.client = .pulling)
    (answered : firstPullAnswered actions = true)
    (reached :
      run (within allowed (monStep buffer)) actions first = some state) :
    ∃ other,
      run (within allowed (monStep buffer)) actions
          (first.withCopies copyIn copyOut) =
        some other ∧
      other.toState = state.toState := by
  induction actions generalizing first with
  | nil =>
      obtain rfl := Option.some.inj reached
      exact ⟨_, rfl, rfl⟩
  | cons action rest inductionHypothesis =>
      obtain ⟨middle, stepped, restReached⟩ := run_cons_eq_some_iff.mp reached
      rw [within_eq_some_iff] at stepped
      simp only [run_cons_eq_some_iff, within_eq_some_iff]
      cases action with
      | append byte =>
          obtain ⟨room, rfl⟩ := monStep_append_eq_some_iff.mp stepped.2
          obtain ⟨other, otherReached, same⟩ :=
            @inductionHypothesis (first.append buffer byte) turn answered
              restReached
          exact
            ⟨other,
              ⟨_, ⟨appends _ _, monStep_append_eq_some_iff.mpr ⟨room, rfl⟩⟩,
                otherReached⟩, same⟩
      | pull given =>
          obtain rfl : given = true := answered
          have pulled := stepped.2
          simp only [monStep, turn, Option.some.injEq] at pulled
          obtain rfl := pulled
          refine ⟨state, ⟨_, ⟨pulls _, ?_⟩, restReached⟩, rfl⟩
          simp only [monStep, State.withCopies, turn]
          rfl
      | peek given =>
          simp [monStep, turn] at stepped
      | push outcome =>
          simp [monStep, turn] at stepped
      | wait interrupted =>
          simp [monStep, turn] at stepped

/--
A run is accounted for by the positions of the stream in a state that differs
at most in the copies, and repeats nothing exactly if nothing is in excess.
-/
theorem followsWith_of_reached
    {first : State}
    (initial : Initial buffer actions first)
    (reached :
      run (within noLostLag (monStep buffer)) actions first = some state) :
    ∃ excess other,
      FollowsWith buffer first.node.stdbufOut excess other ∧
        other.toState = state.toState ∧
        (excess = 0 ↔
          run (within noRepeat (monStep buffer)) actions first =
            some state) := by
  have weaker := @within_within _ _ (monStep buffer) _ _ noLostLag_of_noRepeat
  rcases initial.copies with right | answered
  · obtain ⟨excess, follows, -, appears⟩ :=
      (accounts_monStep buffer _).run (.initial initial.ring right) reached
    rw [weaker] at appears
    exact ⟨excess, state, follows, rfl, appears rfl⟩
  · obtain ⟨other, otherReached, same⟩ :=
      run_withCopies first.node.stdbufIn first.node.stdbufOut
        (fun _ _ => rfl) (fun _ => rfl) initial.ring.turn answered reached
    set right := first.withCopies first.node.stdbufIn first.node.stdbufOut
    have start := @FollowsWith.initial buffer right initial.ring ⟨rfl, rfl⟩
    obtain ⟨excess, follows, -, appears⟩ :=
      (accounts_monStep buffer _).run start otherReached
    rw [weaker] at appears
    refine ⟨excess, other, follows, same, (appears rfl).trans ⟨?_, ?_⟩⟩
    · intro kept
      obtain ⟨again, againReached, -⟩ :=
        @run_withCopies buffer other actions noRepeat right first.copyIn
          first.copyOut (fun _ _ => rfl) (fun _ => rfl) initial.ring.turn
          answered kept
      have unique := run_of_within (weaker ▸ againReached)
      rw [show right.withCopies first.copyIn first.copyOut = first from rfl,
        reached] at unique
      obtain rfl := Option.some.inj unique
      exact againReached
    · intro kept
      obtain ⟨again, againReached, -⟩ :=
        run_withCopies first.node.stdbufIn first.node.stdbufOut
          (fun _ _ => rfl) (fun _ => rfl) initial.ring.turn answered kept
      have unique := run_of_within (weaker ▸ againReached)
      rw [otherReached] at unique
      obtain rfl := Option.some.inj unique
      exact againReached

/--
Whichever requests and answers are lost, and whatever the node writes between
them, all that the node has been told is printed has been printed, in order;
only a peek from an index that lags must not fail.
-/
theorem monitor_loses_nothing
    {first : State}
    (initial : Initial buffer actions first)
    (reached :
      run (within noLostLag (monStep buffer)) actions first = some state) :
    (state.streamUpTo buffer state.printedOut).Sublist state.printed := by
  obtain ⟨excess, other, follows, same, -⟩ :=
    followsWith_of_reached initial reached
  obtain ⟨position, -, stream, printed⟩ := follows.printed
  rw [← same, stream]
  exact printed.sublist

/-- Fresh copies beside the indexes of a node whose ring is empty. -/
theorem initial_fresh
    {actions : List Action}
    (answered : firstPullAnswered actions = true) :
    Initial ⟨4096, 2, by decide, by decide⟩ actions
      ⟨⟨⟨fun _ => 0, 1, 1⟩, .pulling, [], []⟩, 0, 0⟩ :=
  ⟨⟨rfl, by decide, rfl, rfl, rfl⟩, .inr answered⟩

/-- A push is lost, and the byte is printed once more. -/
theorem monitor_loses_nothing_lost_push :
    ∃ state : State,
      state.printed = [65, 65] ∧ state.node.stdbufOut = 0 ∧
        (state.streamUpTo ⟨4096, 2, by decide, by decide⟩
          state.printedOut).Sublist state.printed := by
  have reached :
      run (within noLostLag (monStep ⟨4096, 2, by decide, by decide⟩))
          [.append 65, .pull true, .peek true, .push .lost, .pull true,
            .peek true, .push .stored]
          ⟨⟨⟨fun _ => 0, 1, 1⟩, .pulling, [], []⟩, 0, 0⟩ =
        some _ :=
    rfl
  exact ⟨_, rfl, rfl, monitor_loses_nothing (initial_fresh rfl) reached⟩

/--
The output is the stream the node has written, each byte once, in exactly the
runs that lose no push behind a chunk and peek from no index that lags.
-/
theorem monitor_prints_once_iff
    {first : State}
    (initial : Initial buffer actions first)
    (reached :
      run (within noLostLag (monStep buffer)) actions first = some state) :
    state.printed = state.streamUpTo buffer state.printedOut ↔
      run (within noRepeat (monStep buffer)) actions first = some state := by
  obtain ⟨excess, other, follows, same, appears⟩ :=
    followsWith_of_reached initial reached
  obtain ⟨position, written, stream, printed⟩ := follows.printed
  rw [← appears, ← same, stream]
  have upTo : (other.produced.take position).length = position := by
    rw [List.length_take]
    omega
  have length := printed.length
  constructor
  · intro isStream
    rw [isStream, upTo] at length
    omega
  · intro none
    exact (printed.sublist.eq_of_length (by omega)).symm

/-- A failed peek and a lost answer to a push leave the output as it is. -/
theorem monitor_prints_once_iff_lost_answers :
    ∃ state : State,
      state.printed = [65] ∧ state.node.stdbufOut = 0 ∧
        state.printed =
          state.streamUpTo ⟨4096, 2, by decide, by decide⟩
            state.printedOut := by
  have reached :
      run (within noLostLag (monStep ⟨4096, 2, by decide, by decide⟩))
          [.append 65, .pull true, .peek false, .push .copied, .wait false,
            .pull false, .peek true, .push .copied]
          ⟨⟨⟨fun _ => 0, 1, 1⟩, .pulling, [], []⟩, 0, 0⟩ =
        some _ :=
    rfl
  exact
    ⟨_, rfl, rfl, (monitor_prints_once_iff (initial_fresh rfl) reached).mpr rfl⟩

end Invariant

end Csh.StdbufMon
