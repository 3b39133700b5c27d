import ReplicaCluster.Admin.Endpoint
import ReplicaCluster.Proofs.Admin.Frame
import ReplicaCluster.Proofs.Wire.Management

/-!
# What arrives on a connection

Any bytes may arrive on an admin connection.  `Requests bytes requests rest` says that they begin
with frames that hold the given requests and go on with `rest`; the longest such beginning is all
that a node makes of them.  It handles these requests in their order, each at its time, and sends
one frame for each reply.  Whatever comes after them, cut off, too long or no request at all, is
neither answered nor does it touch the store (`longest_prefix_is_answered`).
-/

namespace ReplicaCluster

/-! ## Messages that frames carry -/

/-- The numbers of the request have their widths, and its form is within the limit of frames. -/
def Request.Carried (r : Request) : Prop := r.Fits ∧ r.write.length ≤ Frame.limit

def Reply.Carried (answer : Reply) : Prop :=
  Reply.Fits answer ∧ (Reply.write answer).length ≤ Frame.limit

instance (r : Request) : Decidable r.Carried := inferInstanceAs (Decidable (_ ∧ _))

instance (answer : Reply) : Decidable (Reply.Carried answer) :=
  inferInstanceAs (Decidable (_ ∧ _))

namespace Admin

/-! ## Requests handled without a connection -/

/-- Handles requests on a store, each at its time, one after the other. -/
def handleAll (settings : Settings) : List (Int × Request) → Store → List Reply × Store
  | [], store => ([], store)
  | (now, request) :: rest, store =>
      let (answer, store) := (request.handle settings now).run Store.host store
      let (others, store) := handleAll settings rest store
      (answer :: others, store)

theorem length_handleAll (settings : Settings) (requests : List (Int × Request)) (store : Store) :
    (handleAll settings requests store).1.length = requests.length := by
  induction requests generalizing store with
  | nil => rfl
  | cons first rest ih => simp [handleAll, ih]

/-- Requests with the times at which they are handled. -/
def timed (clock : Nat → Int) (requests : List Request) : List (Int × Request) :=
  requests.mapIdx fun i request => (clock i, request)

@[simp]
theorem timed_nil (clock : Nat → Int) : timed clock [] = [] := rfl

@[simp]
theorem timed_cons (clock : Nat → Int) (request : Request) (requests : List Request) :
    timed clock (request :: requests) =
      (clock 0, request) :: timed (fun i => clock (i + 1)) requests :=
  List.mapIdx_cons

@[simp]
theorem length_timed (clock : Nat → Int) (requests : List Request) :
    (timed clock requests).length = requests.length :=
  List.length_mapIdx

/-! ## Requests at the front of the bytes -/

/-- The bytes are frames that hold the requests, in their order, and the rest. -/
inductive Requests : Bytes → List Request → Bytes → Prop
  | nil (bytes : Bytes) : Requests bytes [] bytes
  /-- What a payload has beyond its request does not matter. -/
  | cons {frame payload bytes rest : Bytes} {request : Request} {requests : List Request}
      (encloses : Frame.Encloses frame payload) (accepted : payload.length ≤ Frame.limit)
      (decoded : Wire.decode? Request.read payload = some request)
      (others : Requests bytes requests rest) :
      Requests (frame ++ bytes) (request :: requests) rest

/-- No more requests are at the front of the bytes than these. -/
def LongestPrefix (bytes : Bytes) (requests : List Request) (rest : Bytes) : Prop :=
  Requests bytes requests rest ∧
    ∀ requests' rest', Requests bytes requests' rest' → requests'.length ≤ requests.length

/-- The request in the frame at the front of the bytes, and the bytes after that. -/
def next? (bytes : Bytes) : Option (Request × Bytes) :=
  match Frame.read bytes with
  | .message payload rest => (Wire.decode? Request.read payload).map fun request => (request, rest)
  | _ => none

variable {bytes rest rest' : Bytes} {request : Request} {requests requests' : List Request}

theorem next?_eq_some_iff :
    next? bytes = some (request, rest) ↔
      ∃ payload, Frame.read bytes = .message payload rest ∧
        Wire.decode? Request.read payload = some request := by
  unfold next?
  cases hread : Frame.read bytes with
  | message payload tail =>
      simp only [Option.map_eq_some_iff, Prod.mk.injEq, Frame.Arrival.message.injEq]
      constructor
      · rintro ⟨r, hdecode, rfl, rfl⟩
        exact ⟨payload, ⟨rfl, rfl⟩, hdecode⟩
      · rintro ⟨payload', ⟨rfl, rfl⟩, hdecode⟩
        exact ⟨request, hdecode, rfl, rfl⟩
  | _ => simp

namespace Requests

theorem cons_iff :
    Requests bytes (request :: requests) rest ↔
      ∃ tail, next? bytes = some (request, tail) ∧ Requests tail requests rest := by
  simp only [next?_eq_some_iff, Frame.read_eq_message_iff]
  constructor
  · intro h
    cases h with
    | @cons frame payload tail rest request requests encloses accepted decoded others =>
        exact ⟨tail, ⟨payload, ⟨accepted, frame, encloses, rfl⟩, decoded⟩, others⟩
  · rintro ⟨tail, ⟨payload, ⟨accepted, frame, encloses, rfl⟩, decoded⟩, others⟩
    exact .cons encloses accepted decoded others

theorem concat {tail : Bytes} (h : Requests bytes requests rest)
    (next : next? rest = some (request, tail)) :
    Requests bytes (requests ++ [request]) tail := by
  induction h with
  | nil bytes => exact cons_iff.2 ⟨tail, next, .nil tail⟩
  | cons encloses accepted decoded others ih => exact .cons encloses accepted decoded (ih next)

/-- Where no request follows, no other requests are at the front but the first ones of these. -/
theorem isPrefix (h : Requests bytes requests rest) (last : next? rest = none)
    (h' : Requests bytes requests' rest') : requests' <+: requests := by
  induction requests generalizing bytes requests' with
  | nil =>
      cases h with
      | nil =>
          cases requests' with
          | nil => exact List.prefix_rfl
          | cons request' requests' =>
              rcases cons_iff.1 h' with ⟨tail, hnext, -⟩
              simp [last] at hnext
  | cons request requests ih =>
      cases requests' with
      | nil => exact List.nil_prefix
      | cons request' requests' =>
          rcases cons_iff.1 h with ⟨tail, hnext, hothers⟩
          rcases cons_iff.1 h' with ⟨tail', hnext', hothers'⟩
          have hsame : request = request' ∧ tail = tail' := by simpa [hnext] using hnext'
          rcases hsame with ⟨rfl, rfl⟩
          exact List.cons_prefix_cons.2 ⟨rfl, ih hothers hothers'⟩

end Requests

theorem longestPrefix_iff :
    LongestPrefix bytes requests rest ↔ Requests bytes requests rest ∧ next? rest = none := by
  constructor
  · rintro ⟨h, longest⟩
    refine ⟨h, ?_⟩
    cases hnext : next? rest with
    | none => rfl
    | some found =>
        rcases found with ⟨request, tail⟩
        -- One more request would make a longer beginning.
        have hlength := longest _ _ (h.concat hnext)
        rw [List.length_append, List.length_singleton] at hlength
        omega
  · rintro ⟨h, last⟩
    exact ⟨h, fun requests' rest' h' => (h.isPrefix last h').length_le⟩

theorem exists_longestPrefix (bytes : Bytes) :
    ∃ requests rest, LongestPrefix bytes requests rest := by
  simp only [longestPrefix_iff]
  -- By induction on the number of bytes, since a frame takes some of them.
  induction hlength : bytes.length using Nat.strong_induction_on generalizing bytes with
  | h length ih =>
      cases hnext : next? bytes with
      | none => exact ⟨[], bytes, .nil bytes, hnext⟩
      | some found =>
          rcases found with ⟨request, tail⟩
          rcases next?_eq_some_iff.1 hnext with ⟨payload, hread, -⟩
          have hshorter : tail.length < length := hlength ▸ Frame.length_lt_of_read hread
          rcases ih _ hshorter tail rfl with ⟨requests, rest, hrequests, hlast⟩
          exact ⟨request :: requests, rest, Requests.cons_iff.2 ⟨tail, hnext, hrequests⟩, hlast⟩

/-! ## What the node makes of them -/

variable {settings : Settings} {clock : Nat → Int} {store : Store}

/-- One turn of the connection.  Without a request at the front of the bytes it is the last one. -/
theorem serve_eq (settings : Settings) (clock : Nat → Int) (bytes : Bytes) (store : Store) :
    serve settings clock bytes store =
      match next? bytes with
      | none => ([], store)
      | some (request, rest) =>
          let (answer, store) := reply settings (clock 0) request store
          match Frame.write (Reply.write answer) with
          | none => ([], store)
          | some frame =>
              let (others, store) := serve settings (fun i => clock (i + 1)) rest store
              (frame :: others, store) := by
  rw [serve]
  split
  · next payload rest hread =>
      have hnext : next? bytes =
          (Wire.decode? Request.read payload).map fun request => (request, rest) := by
        simp [next?, hread]
      rw [hnext]
      cases Wire.decode? Request.read payload with
      | none => rfl
      | some request =>
          cases hframe : Frame.write (Reply.write (reply settings (clock 0) request store).1) with
          | none => simp [hframe]
          | some frame => simp [hframe]
  · next hread => simp [next?, hread]
  · next hread => simp [next?, hread]
  · next hread => simp [next?, hread]

theorem serve_of_none (h : next? bytes = none) :
    serve settings clock bytes store = ([], store) := by
  rw [serve_eq, h]

theorem serve_of_some {frame : Bytes} (h : next? bytes = some (request, rest))
    (written :
      Frame.write (Reply.write (reply settings (clock 0) request store).1) = some frame) :
    serve settings clock bytes store =
      let others := serve settings (fun i => clock (i + 1)) rest
        (reply settings (clock 0) request store).2
      (frame :: others.1, others.2) := by
  rw [serve_eq, h]
  simp [written]

/-- A request whose reply fits into no frame is handled all the same, and is the last one. -/
theorem serve_of_unwritable (h : next? bytes = some (request, rest))
    (unwritten : Frame.write (Reply.write (reply settings (clock 0) request store).1) = none) :
    serve settings clock bytes store = ([], (reply settings (clock 0) request store).2) := by
  rw [serve_eq, h]
  simp [unwritten]

/-- The replies fit into frames, whose headers have four bytes. -/
def Writable (replies : List Reply) : Prop :=
  ∀ answer ∈ replies, (Reply.write answer).length < 0x100000000

instance (replies : List Reply) : Decidable (Writable replies) :=
  inferInstanceAs (Decidable (∀ answer ∈ replies, _))

theorem serve_of_requests (h : Requests bytes requests rest) (last : next? rest = none)
    (writable : Writable (handleAll settings (timed clock requests) store).1) :
    ∃ frames, serve settings clock bytes store =
        (frames, (handleAll settings (timed clock requests) store).2) ∧
      List.Forall₂ (fun frame answer => Frame.write (Reply.write answer) = some frame) frames
        (handleAll settings (timed clock requests) store).1 := by
  -- By induction on the requests, for every store that they may find, and at any time.
  induction requests generalizing bytes store clock with
  | nil =>
      cases h with
      | nil => exact ⟨[], serve_of_none last, .nil⟩
  | cons request requests ih =>
      rcases Requests.cons_iff.1 h with ⟨tail, hnext, hothers⟩
      rw [timed_cons] at writable ⊢
      have hfirst :
          (Reply.write (reply settings (clock 0) request store).1).length < 0x100000000 :=
        writable _ List.mem_cons_self
      rcases Frame.exists_write hfirst with ⟨frame, hframe⟩
      have hwritable :
          Writable (handleAll settings (timed (fun i => clock (i + 1)) requests)
            (reply settings (clock 0) request store).2).1 :=
        fun answer hanswer => writable answer (List.mem_cons_of_mem _ hanswer)
      rcases ih hothers hwritable with ⟨frames, hserve, hframes⟩
      refine ⟨frame :: frames, ?_, .cons hframe hframes⟩
      rw [serve_of_some hnext hframe, hserve]
      rfl

/-! ## What the peer makes of the replies -/

theorem received_of_encloses {frame : Bytes} {answer : Reply} (carried : Reply.Carried answer)
    (encloses : Frame.Encloses frame (Reply.write answer)) :
    received frame = .answered (Reply.write answer) answer := by
  have hread : Frame.read frame = .message (Reply.write answer) [] :=
    Frame.read_eq_message_iff.2 ⟨carried.2, frame, encloses, (List.append_nil frame).symm⟩
  simp [received, hread, Reply.inverts_read.decode carried.1]

/-- Whatever arrives on a connection, there is a longest beginning of it that is made of requests.
If the replies to these can be written, the node handles them one after the other, each at its time,
and does nothing else: it sends one frame for each of them, with the reply to it, and leaves the
store as they leave it.  The peer reads that very reply, unless it is above the limit of frames. -/
theorem longest_prefix_is_answered (settings : Settings) (clock : Nat → Int) (bytes : Bytes)
    (store : Store) :
    (∃ requests rest, LongestPrefix bytes requests rest) ∧
      ∀ requests rest, LongestPrefix bytes requests rest →
        Writable (handleAll settings (timed clock requests) store).1 →
        ∃ frames, serve settings clock bytes store =
            (frames, (handleAll settings (timed clock requests) store).2) ∧
          frames.length = requests.length ∧
          List.Forall₂ (fun frame answer => Frame.Encloses frame (Reply.write answer) ∧
              (Reply.Carried answer → received frame = .answered (Reply.write answer) answer))
            frames (handleAll settings (timed clock requests) store).1 := by
  refine ⟨exists_longestPrefix bytes, ?_⟩
  intro requests rest longest writable
  rcases longestPrefix_iff.1 longest with ⟨hrequests, hlast⟩
  rcases serve_of_requests hrequests hlast writable with ⟨frames, hserve, hframes⟩
  refine ⟨frames, hserve, ?_, ?_⟩
  · rw [hframes.length_eq, length_handleAll, length_timed]
  · refine hframes.imp ?_
    intro frame answer written
    have hencloses := Frame.encloses_of_write written
    exact ⟨hencloses, fun carried => received_of_encloses carried hencloses⟩

/-- A question for the topology, in a payload with one byte too many, and a cancellation; then a
frame that holds no request, and a request that comes too late. -/
def litter : Bytes := [0, 0, 0, 2, 8, 99, 0, 0, 0, 2, 6, 1] ++ [0, 0, 0, 1, 9, 0, 0, 0, 1, 8]

/-- The topology is told as it was found, and then as it is when the pending change was cancelled,
at the time of the second request. -/
theorem longest_prefix_is_answered_litter :
    let pending : Topology :=
      { Topology.initial with pending := some ⟨1, [⟨"a", .joinCluster⟩], []⟩ }
    let clock : Nat → Int := fun i => 10 * i + 7
    let replies : List Reply := [.ok (.topology pending), .ok (.topology (pending.cancelChange 17))]
    LongestPrefix litter [.topology, .cancel 1] [0, 0, 0, 1, 9, 0, 0, 0, 1, 8] ∧
      handleAll {} (timed clock [.topology, .cancel 1]) (.memory pending) =
        (replies, .memory (pending.cancelChange 17)) ∧
      Writable replies ∧
      ∃ first second,
        serve {} clock litter (.memory pending) =
          ([first, second], .memory (pending.cancelChange 17)) ∧
        Frame.Encloses first (Reply.write (.ok (.topology pending))) ∧
        Frame.Encloses second (Reply.write (.ok (.topology (pending.cancelChange 17)))) ∧
        [first, second].map received =
          replies.map fun answer => .answered (Reply.write answer) answer := by
  intro pending clock replies
  have hlongest :
      LongestPrefix litter [.topology, .cancel 1] [0, 0, 0, 1, 9, 0, 0, 0, 1, 8] := by
    refine longestPrefix_iff.2 ⟨?_, by decide +kernel⟩
    refine Requests.cons_iff.2 ⟨[0, 0, 0, 2, 6, 1, 0, 0, 0, 1, 9, 0, 0, 0, 1, 8],
      by decide +kernel, ?_⟩
    exact Requests.cons_iff.2 ⟨[0, 0, 0, 1, 9, 0, 0, 0, 1, 8], by decide +kernel, .nil _⟩
  have hhandled : handleAll {} (timed clock [.topology, .cancel 1]) (.memory pending) =
      (replies, .memory (pending.cancelChange 17)) := rfl
  have hwritable : Writable replies := by decide +kernel
  have hcarried : ∀ answer ∈ replies, Reply.Carried answer := by decide +kernel
  rcases (longest_prefix_is_answered {} clock litter (.memory pending)).2 _ _ hlongest
    (hhandled ▸ hwritable) with ⟨frames, hserve, -, hframes⟩
  rw [hhandled] at hserve hframes
  rcases hframes with _ | ⟨hfirst, _ | ⟨hsecond, hnone⟩⟩
  cases hnone
  refine ⟨hlongest, hhandled, hwritable, _, _, hserve, hfirst.1, hsecond.1, ?_⟩
  have hfound := hfirst.2 (hcarried _ List.mem_cons_self)
  have hcancelled := hsecond.2 (hcarried _ (List.mem_cons_of_mem _ List.mem_cons_self))
  rw [List.map_cons, List.map_singleton, hfound, hcancelled]
  rfl

end Admin

end ReplicaCluster
