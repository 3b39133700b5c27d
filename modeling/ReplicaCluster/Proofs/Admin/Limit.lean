import ReplicaCluster.Proofs.Admin.Transparency

/-!
# Messages above the limit

Whoever writes a frame has 32 bits for the length of the message; whoever reads one refuses a
message above `Frame.limit`.  So there are messages that are written and never read
(`Frame.read_written`).  A request of that kind is lost before it is handled.  A reply of that kind
is lost after its request was handled: the client finds the connection failed, and the store has
changed (`Admin.Endpoint.answered_within_limit`).
-/

namespace ReplicaCluster

namespace Wire

theorem length_nat {n : Nat} (h : n < 251) : (nat n).length = 1 := by
  simp [nat, h]

/-- A text of some length, which takes 32 bits, needs five bytes besides its own. -/
theorem length_text {s : String} (low : 0x10000 ≤ s.toUTF8.size)
    (high : s.toUTF8.size < 0x100000000) :
    (text s).length = s.toUTF8.size + 5 := by
  have h8 : ¬ s.toUTF8.size < 251 := by omega
  have h16 : ¬ s.toUTF8.size < 0x10000 := by omega
  have hcount : (nat s.toUTF8.size).length = 5 := by
    simp only [nat, h8, h16, high, if_true, if_false, List.length_cons,
      length_littleEndian]
  have hbytes : s.toUTF8.data.toList.length = s.toUTF8.size := rfl
  rw [text, List.length_append, hcount, hbytes, Nat.add_comm]

end Wire

namespace Frame

variable {frame message : Bytes}

theorem read_of_announced {header rest : Bytes} (four : header.length = 4)
    (above : limit < bigEndian header) : read (header ++ rest) = .oversized := by
  have hheader : Wire.readBytes 4 (header ++ rest) = some (header, rest) :=
    Wire.readBytes_eq_some_iff.2 ⟨rfl, four⟩
  simp only [read, hheader, ofLittleEndian_reverse, above, if_true]

/-- What was written is read again unless it is above the limit, whatever follows it. -/
theorem read_written (h : write message = some frame) (rest : Bytes) :
    read (frame ++ rest) =
      if message.length ≤ limit then .message message rest else .oversized := by
  by_cases hlimit : message.length ≤ limit
  · rw [if_pos hlimit, read_write h hlimit]
  · rw [if_neg hlimit]
    rcases encloses_of_write h with ⟨header, rfl, hfour, hlength⟩
    rw [List.append_assoc]
    exact read_of_announced hfour (hlength ▸ Nat.lt_of_not_le hlimit)

/-- A message of a length between the two bounds is written and not read. -/
theorem exists_oversized (above : limit < message.length)
    (below : message.length < 0x100000000) :
    ∃ frame, write message = some frame ∧ read frame = .oversized := by
  rcases exists_write below with ⟨frame, hframe⟩
  have hread := read_written hframe []
  rw [List.append_nil, if_neg (Nat.not_le.2 above)] at hread
  exact ⟨frame, hframe, hread⟩

theorem write_eq_none_iff : write message = none ↔ 0x100000000 ≤ message.length := by
  simp [write]

end Frame

namespace Admin

variable {settings : Settings} {clock : Nat → Int} {store : Store} {request : Request}
  {answer : Reply} {frame : Bytes}

/-- A node drops a connection over which too long a message arrives. -/
theorem serve_of_limit_lt (above : Frame.limit < request.write.length)
    (written : Frame.write request.write = some frame) :
    serve settings clock frame store = ([], store) := by
  have hread := Frame.read_written written []
  rw [List.append_nil, if_neg (Nat.not_le.2 above)] at hread
  exact serve_of_none (by simp [next?, hread])

theorem received_written (fits : Reply.Fits answer)
    (written : Frame.write (Reply.write answer) = some frame) :
    received frame =
      if (Reply.write answer).length ≤ Frame.limit then .answered (Reply.write answer) answer
      else .closed := by
  by_cases hlimit : (Reply.write answer).length ≤ Frame.limit
  · rw [if_pos hlimit, received_of_encloses ⟨fits, hlimit⟩ (Frame.encloses_of_write written)]
  · have hread := Frame.read_written written []
    rw [List.append_nil, if_neg hlimit] at hread
    simp [received, hread, hlimit]

namespace Endpoint

variable {e : Endpoint} {q : Inquiry}

/-- What a client is told, and what the store is left as, when the node serves its frame so. -/
theorem ask_of_serve {frames : List Bytes} {store : Store} (listening : e.listening = true)
    (opened : q.connection ∉ e.closed) (written : Frame.write q.request.write = some frame)
    (served : serve e.settings (fun _ => q.now) frame e.store = (frames, store)) :
    (e.ask q).1 = (frames.head?.map received).getD .closed ∧ (e.ask q).2.store = store := by
  rcases exists_use_eq listening opened with ⟨active, huse⟩
  simp only [ask, sendPayload, written]
  rw [send, huse]
  cases frames with
  | nil => simp [served, close]
  | cons first others => simp [served]

theorem ask_of_limit_lt (listening : e.listening = true) (opened : q.connection ∉ e.closed)
    (above : Frame.limit < q.request.write.length) :
    (e.ask q).1 = .closed ∧ (e.ask q).2.store = e.store := by
  cases hframe : Frame.write q.request.write with
  | none => simp [ask, sendPayload, hframe]
  | some frame =>
      exact ask_of_serve listening opened hframe (serve_of_limit_lt above hframe)

theorem ask_of_le_limit (listening : e.listening = true) (opened : q.connection ∉ e.closed)
    (asked : q.request.Carried)
    (fits : Reply.Fits (reply e.settings q.now q.request e.store).1) :
    ((e.ask q).1 =
        if (Reply.write (reply e.settings q.now q.request e.store).1).length ≤ Frame.limit then
          .answered (Reply.write (reply e.settings q.now q.request e.store).1)
            (reply e.settings q.now q.request e.store).1
        else .closed) ∧
      (e.ask q).2.store = (reply e.settings q.now q.request e.store).2 := by
  rcases Frame.exists_write_of_le asked.2 with ⟨frame, hframe, -⟩
  rcases ask_of_serve listening opened hframe (serve_request asked.1 asked.2 hframe) with
    ⟨houtcome, hstore⟩
  refine ⟨?_, hstore⟩
  rw [houtcome]
  cases hsent : Frame.write (Reply.write (reply e.settings q.now q.request e.store).1) with
  | none =>
      -- A reply that fits into no frame is above the limit too.
      have hlong := Frame.write_eq_none_iff.1 hsent
      have habove : ¬ (Reply.write (reply e.settings q.now q.request e.store).1).length ≤
          Frame.limit := by
        unfold Frame.limit
        omega
      simp [habove]
  | some sent => simpa using received_written fits hsent

/-- A message is written if 32 bits hold its length, and read again, off the front of whatever
follows it, if it is not above the limit; above it the reader refuses it.

So a client that asks a node over a connection is told the reply if the request and the reply are
both within the limit, and finds the connection closed otherwise.  Its request has been handled
just if the request itself is within the limit, whether the reply is or not. -/
theorem answered_within_limit (e : Endpoint) (q : Inquiry) (listening : e.listening = true)
    (opened : q.connection ∉ e.closed) (asked : q.request.Fits)
    (fits : Reply.Fits (reply e.settings q.now q.request e.store).1) :
    (∀ message : Bytes,
      (∃ frame, Frame.write message = some frame) ↔ message.length < 0x100000000) ∧
      (∀ message frame : Bytes, Frame.write message = some frame → ∀ rest,
        Frame.read (frame ++ rest) =
          if message.length ≤ Frame.limit then .message message rest else .oversized) ∧
      ((e.ask q).1 =
        if q.request.write.length ≤ Frame.limit ∧
            (Reply.write (reply e.settings q.now q.request e.store).1).length ≤ Frame.limit then
          .answered (Reply.write (reply e.settings q.now q.request e.store).1)
            (reply e.settings q.now q.request e.store).1
        else .closed) ∧
      (e.ask q).2.store =
        if q.request.write.length ≤ Frame.limit then (reply e.settings q.now q.request e.store).2
        else e.store := by
  refine ⟨?_, fun message frame h rest => Frame.read_written h rest, ?_⟩
  · intro message
    constructor
    · rintro ⟨frame, hframe⟩
      exact (Frame.write_eq_some_iff.1 hframe).1
    · exact Frame.exists_write
  · by_cases hlimit : q.request.write.length ≤ Frame.limit
    · simpa [hlimit] using ask_of_le_limit listening opened ⟨asked, hlimit⟩ fits
    · simpa [hlimit] using ask_of_limit_lt listening opened (Nat.lt_of_not_le hlimit)

theorem answered_within_limit_addition :
    (start {} .initial true).listening = true ∧
      ∃ answer store,
        reply {} 0 (.addMembers ["a"] false) (.memory .initial) = (answer, store) ∧
        store.topology.toOption.map Topology.hasPendingChange = some true ∧
        ((start {} .initial true).ask ⟨⟨true, 0⟩, 0, .addMembers ["a"] false⟩).1 =
          .answered (Reply.write answer) answer ∧
        ((start {} .initial true).ask ⟨⟨true, 0⟩, 0, .addMembers ["a"] false⟩).2.store =
          store := by
  have hasked : (Request.addMembers ["a"] false).Carried := by decide +kernel
  have hanswered :
      Reply.Carried (reply {} 0 (.addMembers ["a"] false) (.memory .initial)).1 := by
    decide +kernel
  rcases answered_within_limit (start {} .initial true) ⟨⟨true, 0⟩, 0, .addMembers ["a"] false⟩
    rfl (by decide) hasked.1 hanswered.1 with ⟨-, -, houtcome, hstore⟩
  rw [if_pos ⟨hasked.2, hanswered.2⟩] at houtcome
  rw [if_pos hasked.2] at hstore
  exact ⟨rfl, _, _, rfl, by decide +kernel, houtcome, hstore⟩

/-! ## A reply that is lost -/

/-- The id of a member that is as long as a whole message may be. -/
def longId : MemberId := String.ofList (List.replicate Frame.limit 'a')

theorem size_replicate (size : Nat) :
    (String.ofList (List.replicate size 'a')).toUTF8.size = size := by
  have hencoded : (List.replicate size 'a').utf8Encode.size = size := by
    induction size with
    | zero => rfl
    | succ size ih =>
        have hletter : ['a'].utf8Encode.size = 1 := by decide
        rw [List.replicate_succ, List.utf8Encode_cons, ByteArray.size_append, ih, hletter,
          Nat.add_comm]
  simpa using hencoded

theorem size_longId : longId.toUTF8.size = Frame.limit := size_replicate Frame.limit

/-- One member has left, and another one is still to join. -/
def halfway (member : MemberId) : Topology :=
  { Topology.initial with pending := some ⟨1, [⟨"b", .joinCluster⟩], [⟨member, .leaveCluster⟩]⟩ }

theorem length_text_longId : (Wire.text longId).length = Frame.limit + 5 := by
  have hlow : 0x10000 ≤ longId.toUTF8.size := size_longId ▸ (by decide : 0x10000 ≤ Frame.limit)
  have hhigh : longId.toUTF8.size < 0x100000000 :=
    size_longId ▸ (by decide : Frame.limit < 0x100000000)
  rw [Wire.length_text hlow hhigh, size_longId]

theorem length_reply_cancelled (member : MemberId) :
    (Reply.write (.ok (.topology ((halfway member).cancelChange 0)))).length =
      (Wire.text member).length + 12 := by
  have hversion : (Wire.nat (Topology.initial.version + 1)).length = 1 := rfl
  have hmembers : (Wire.map Wire.text Member.write Topology.initial.members).length = 1 := rfl
  simp [Reply.write, Response.write, Topology.write, halfway, Topology.cancelChange,
    EndedChange.write, Outcome.write, Operation.write, Wire.option, Wire.list, Wire.bool, Wire.int,
    Wire.zigzag, Wire.length_nat, hversion, hmembers]
  omega

theorem length_request_overwrite (member : MemberId) :
    (Request.write (.forceOverwrite [member])).length = (Wire.text member).length + 2 := by
  simp [Request.write, Wire.list, Wire.length_nat]
  omega

/-- Cancelling a change is carried out, and answered with a topology that names the operations
which the change has done.  With a long id among them the reply is written, and the client refuses
it.  A request that names the long id is written, too, and the node refuses that. -/
theorem exists_reply_refused :
    reply {} 0 (.cancel 1) (.memory (halfway longId)) =
        (.ok (.topology ((halfway longId).cancelChange 0)),
          .memory ((halfway longId).cancelChange 0)) ∧
      (halfway longId).hasPendingChange = true ∧
      ((halfway longId).cancelChange 0).hasPendingChange = false ∧
      (∃ frame,
        Frame.write (Reply.write (.ok (.topology ((halfway longId).cancelChange 0)))) = some frame ∧
          Frame.read frame = .oversized) ∧
      ((start {} (halfway longId) true).ask ⟨⟨true, 0⟩, 0, .cancel 1⟩).1 = .closed ∧
      ((start {} (halfway longId) true).ask ⟨⟨true, 0⟩, 0, .cancel 1⟩).2.store =
        .memory ((halfway longId).cancelChange 0) ∧
      ∃ frame, Frame.write (Request.forceOverwrite [longId]).write = some frame ∧
        Frame.read frame = .oversized := by
  have hreply (member : MemberId) : reply {} 0 (.cancel 1) (.memory (halfway member)) =
      (.ok (.topology ((halfway member).cancelChange 0)),
        .memory ((halfway member).cancelChange 0)) := rfl
  have hlength : (Reply.write (.ok (.topology ((halfway longId).cancelChange 0)))).length =
      Frame.limit + 17 := by
    rw [length_reply_cancelled, length_text_longId]
  have hoverwrite : (Request.forceOverwrite [longId]).write.length = Frame.limit + 7 := by
    rw [length_request_overwrite, length_text_longId]
  have hsent : ∃ sent,
      Frame.write (Reply.write (.ok (.topology ((halfway longId).cancelChange 0)))) = some sent ∧
        Frame.read sent = .oversized :=
    Frame.exists_oversized (hlength ▸ by decide) (hlength ▸ by decide)
  have hasked : ∃ asked, Frame.write (Request.cancel 1).write = some asked :=
    Frame.exists_write (by decide)
  rcases hsent with ⟨sent, hsent, hread⟩
  rcases hasked with ⟨asked, hasked⟩
  have hserve : serve {} (fun _ => 0) asked (.memory (halfway longId)) =
      ([sent], .memory ((halfway longId).cancelChange 0)) := by
    rw [serve_request (by decide) (by decide) hasked, hreply, hsent, Option.toList_some]
  have hask : ((start {} (halfway longId) true).ask ⟨⟨true, 0⟩, 0, .cancel 1⟩).1 =
        (([sent].head?.map received).getD .closed) ∧
      ((start {} (halfway longId) true).ask ⟨⟨true, 0⟩, 0, .cancel 1⟩).2.store =
        .memory ((halfway longId).cancelChange 0) :=
    ask_of_serve rfl (by decide) hasked hserve
  rcases hask with ⟨houtcome, hstore⟩
  refine ⟨hreply longId, rfl, rfl, ⟨sent, hsent, hread⟩, ?_, hstore, ?_⟩
  · rw [houtcome]
    simp [received, hread]
  · exact Frame.exists_oversized (hoverwrite ▸ by decide) (hoverwrite ▸ by decide)

end Endpoint

end Admin

end ReplicaCluster
