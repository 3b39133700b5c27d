import ReplicaCluster.Proofs.Admin.Connection

/-!
# The admin endpoint is transparent

Clients ask over any number of connections, one request at a time.  As long as requests and replies
fit into frames that are accepted, each client is told just what handling its request without a
connection comes to, and the store is left as that leaves it (`endpoint_is_transparent`).
-/

namespace ReplicaCluster

theorem Frame.exists_write_of_le {message : Bytes} (h : message.length ≤ Frame.limit) :
    ∃ frame, Frame.write message = some frame ∧
      ∀ rest, Frame.read (frame ++ rest) = .message message rest := by
  have hheader : message.length < 0x100000000 := h.trans_lt (by decide)
  rcases Frame.exists_write hheader with ⟨frame, hframe⟩
  exact ⟨frame, hframe, Frame.read_write hframe h⟩

namespace Admin

/-! ## One request -/

/-- A request that a client makes over one of its connections, and when it is handled. -/
structure Inquiry where
  connection : ConnectionId
  now : Int
  request : Request

namespace Endpoint

/-- Asks, and waits for the reply. -/
def ask (e : Endpoint) (q : Inquiry) : Outcome × Endpoint :=
  e.sendPayload q.now q.connection q.request.write

/-- Makes inquiries one after the other. -/
def askAll (e : Endpoint) : List Inquiry → List Outcome × Endpoint
  | [] => ([], e)
  | q :: rest =>
      let (outcome, e) := e.ask q
      let (others, e) := e.askAll rest
      (outcome :: others, e)

end Endpoint

variable {settings : Settings} {clock : Nat → Int} {store : Store} {request : Request}
  {answer : Reply} {e : Endpoint} {q : Inquiry}

theorem next?_of_written {frame : Bytes} (fits : request.Fits)
    (accepted : request.write.length ≤ Frame.limit)
    (written : Frame.write request.write = some frame) : next? frame = some (request, []) := by
  have hread := Frame.read_write written accepted []
  rw [List.append_nil] at hread
  exact next?_eq_some_iff.2 ⟨_, hread, Request.inverts_read.decode fits⟩

/-- A frame with a request is answered by one frame, if the reply fits into one. -/
theorem serve_request {frame : Bytes} (fits : request.Fits)
    (accepted : request.write.length ≤ Frame.limit)
    (written : Frame.write request.write = some frame) :
    serve settings clock frame store =
      ((Frame.write (Reply.write (reply settings (clock 0) request store).1)).toList,
        (reply settings (clock 0) request store).2) := by
  have hnext := next?_of_written fits accepted written
  cases hsent : Frame.write (Reply.write (reply settings (clock 0) request store).1) with
  | none => rw [serve_of_unwritable hnext hsent, Option.toList_none]
  | some sent =>
      have hend : next? [] = none := rfl
      rw [serve_of_some hnext hsent, serve_of_none hend, Option.toList_some]

namespace Endpoint

/-- A connection that is open, or can be opened, carries whatever is exchanged. -/
theorem exists_use_eq {id : ConnectionId} (listening : e.listening = true)
    (opened : id ∉ e.closed) :
    ∃ active, ∀ exchange, e.use id exchange = exchange { e with active } := by
  by_cases hactive : id ∈ e.active
  · exact ⟨e.active, fun exchange => by simp [use, opened, hactive]⟩
  · exact ⟨id :: e.active, fun exchange => by simp [use, opened, hactive, listening]⟩

theorem ask_of_carried (listening : e.listening = true) (opened : q.connection ∉ e.closed)
    (asked : q.request.Carried)
    (answered : Reply.Carried (reply e.settings q.now q.request e.store).1) :
    ∃ active, e.ask q =
      (.answered (Reply.write (reply e.settings q.now q.request e.store).1)
          (reply e.settings q.now q.request e.store).1,
        { e with active, store := (reply e.settings q.now q.request e.store).2 }) := by
  rcases Frame.exists_write_of_le asked.2 with ⟨frame, hframe, -⟩
  rcases Frame.exists_write_of_le answered.2 with ⟨sent, hsent, -⟩
  rcases exists_use_eq listening opened with ⟨active, huse⟩
  refine ⟨active, ?_⟩
  simp only [ask, sendPayload, hframe]
  rw [send, huse]
  simp only [serve_request asked.1 asked.2 hframe, hsent, Option.toList_some,
    received_of_encloses answered (Frame.encloses_of_write hsent), Bool.false_eq_true, if_false]

/-! ## Any number of requests -/

theorem askAll_of_carried (inquiries : List Inquiry) :
    ∀ e : Endpoint, e.listening = true → (∀ q ∈ inquiries, q.connection ∉ e.closed) →
      (∀ q ∈ inquiries, q.request.Carried) →
      (∀ answer ∈ (handleAll e.settings (inquiries.map fun q => (q.now, q.request)) e.store).1,
        Reply.Carried answer) →
      (e.askAll inquiries).1 =
          (handleAll e.settings (inquiries.map fun q => (q.now, q.request)) e.store).1.map
            (fun answer => .answered (Reply.write answer) answer) ∧
        (e.askAll inquiries).2.store =
          (handleAll e.settings (inquiries.map fun q => (q.now, q.request)) e.store).2 := by
  -- By induction on the inquiries, for every endpoint that they may find.
  induction inquiries with
  | nil =>
      intro e _ _ _ _
      exact ⟨rfl, rfl⟩
  | cons q rest ih =>
      intro e listening opened asked answered
      rw [List.forall_mem_cons] at opened asked
      have hfirst : Reply.Carried (reply e.settings q.now q.request e.store).1 :=
        answered _ List.mem_cons_self
      rcases ask_of_carried listening opened.1 asked.1 hfirst with ⟨active, hask⟩
      -- The endpoint listens on, and closes no connection.
      rcases ih { e with active, store := (reply e.settings q.now q.request e.store).2 } listening
        opened.2 asked.2 (fun answer hanswer => answered answer (List.mem_cons_of_mem _ hanswer))
        with ⟨houtcomes, hstore⟩
      simp only [askAll, hask]
      exact ⟨congrArg _ houtcomes, hstore⟩

/-- Clients make requests of a node that listens, over connections that were not closed.  If every
request and every reply is carried by frames,

* each client is told the reply, and the store ends, as if the requests had been handled one after
  the other without any connection;
* a request and a reply are read again, off the front of whatever the stream brings, as they were
  written. -/
theorem endpoint_is_transparent (e : Endpoint) (inquiries : List Inquiry)
    (listening : e.listening = true) (opened : ∀ q ∈ inquiries, q.connection ∉ e.closed)
    (asked : ∀ q ∈ inquiries, q.request.Carried)
    (answered : ∀ answer ∈
      (handleAll e.settings (inquiries.map fun q => (q.now, q.request)) e.store).1,
      Reply.Carried answer) :
    (e.askAll inquiries).1 =
        (handleAll e.settings (inquiries.map fun q => (q.now, q.request)) e.store).1.map
          (fun answer => .answered (Reply.write answer) answer) ∧
      (e.askAll inquiries).2.store =
        (handleAll e.settings (inquiries.map fun q => (q.now, q.request)) e.store).2 ∧
      (∀ r : Request, r.Carried → ∃ frame, Frame.write r.write = some frame ∧
        ∀ rest, Frame.read (frame ++ rest) = .message r.write rest ∧
          Wire.decode? Request.read r.write = some r) ∧
      ∀ answer : Reply, Reply.Carried answer → ∃ frame,
        Frame.write (Reply.write answer) = some frame ∧
        ∀ rest, Frame.read (frame ++ rest) = .message (Reply.write answer) rest ∧
          Wire.decode? Reply.read (Reply.write answer) = some answer := by
  rcases askAll_of_carried inquiries e listening opened asked answered with ⟨houtcomes, hstore⟩
  refine ⟨houtcomes, hstore, ?_, ?_⟩
  · intro r carried
    rcases Frame.exists_write_of_le carried.2 with ⟨frame, hframe, hread⟩
    exact ⟨frame, hframe, fun rest => ⟨hread rest, Request.inverts_read.decode carried.1⟩⟩
  · intro answer carried
    rcases Frame.exists_write_of_le carried.2 with ⟨frame, hframe, hread⟩
    exact ⟨frame, hframe, fun rest => ⟨hread rest, Reply.inverts_read.decode carried.1⟩⟩

/-- A change is requested over one connection.  Over another one a change is cancelled that never
was, and the topology is asked for. -/
def chatter : List Inquiry :=
  [⟨⟨true, 0⟩, 0, .addMembers ["a"] false⟩, ⟨⟨true, 1⟩, 1, .cancel 7⟩, ⟨⟨true, 1⟩, 2, .topology⟩]

theorem endpoint_is_transparent_chatter :
    (start {} .initial true).listening = true ∧
      (∀ q ∈ chatter, q.connection ∉ (start {} .initial true).closed) ∧
      (∀ q ∈ chatter, q.request.Carried) ∧
      ∃ answers store,
        handleAll {} (chatter.map fun q => (q.now, q.request)) (.memory .initial) =
          (answers, store) ∧
        (∀ answer ∈ answers, Reply.Carried answer) ∧
        answers.map (fun answer => answer.toOption.isSome) = [true, false, true] ∧
        ((start {} .initial true).askAll chatter).1 =
          answers.map (fun answer => .answered (Reply.write answer) answer) ∧
        ((start {} .initial true).askAll chatter).2.store = store ∧
        store.topology.toOption.map Topology.hasPendingChange = some true := by
  have hopened : ∀ q ∈ chatter, q.connection ∉ (start {} .initial true).closed := by decide
  have hasked : ∀ q ∈ chatter, q.request.Carried := by decide +kernel
  have hanswered : ∀ answer ∈
      (handleAll {} (chatter.map fun q => (q.now, q.request)) (.memory .initial)).1,
      Reply.Carried answer := by
    decide +kernel
  rcases endpoint_is_transparent (start {} .initial true) chatter rfl hopened hasked hanswered with
    ⟨houtcomes, hstore, -⟩
  exact ⟨rfl, hopened, hasked, _, _, rfl, hanswered, by decide +kernel, houtcomes, hstore,
    by decide +kernel⟩

end Endpoint

end Admin

end ReplicaCluster
