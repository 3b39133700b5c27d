import ReplicaCluster.Admin.Frame
import ReplicaCluster.Management.Handler
import ReplicaCluster.Store
import ReplicaCluster.Wire.Management

/-!
# The admin endpoint

A node serves management requests over byte streams.  A connection carries any number of
requests, each answered in turn; the first frame that cannot be read or holds no request ends
it.

`serve` is the node's side of one connection.  An `Endpoint` is a node with all its connections,
seen from the clients: they open connections, exchange messages, and may find the endpoint
closed.
-/

namespace ReplicaCluster

namespace Admin

/-- Handles one request on a store. -/
def reply (settings : Settings) (now : Int) (request : Request) (store : Store) :
    Reply × Store :=
  (request.handle settings now).run Store.host store

/-- Serves all that arrives on a connection until its end: the frames that are sent back, in order,
and the store after them.  The clock tells the time at which each request is handled, by its place
among them. -/
def serve (settings : Settings) (clock : Nat → Int) (bytes : Bytes) (store : Store) :
    List Bytes × Store :=
  match h : Frame.read bytes with
  | .message payload rest =>
      match Wire.decode? Request.read payload with
      | some request =>
          have := Frame.length_lt_of_read h
          let (answer, store) := reply settings (clock 0) request store
          match Frame.write (Reply.write answer) with
          | some frame =>
              let (others, store) := serve settings (fun i => clock (i + 1)) rest store
              (frame :: others, store)
          -- A reply that fits into no frame ends the connection; what the request did stays done.
          | none => ([], store)
      | none => ([], store)
  | .ended | .oversized | .truncated => ([], store)
termination_by bytes.length

inductive Outcome
  /-- The payload of the reply, and what it says. -/
  | answered (payload : Bytes) (reply : Reply)
  /-- The connection was closed without a reply. -/
  | closed
  /-- No connection could be opened. -/
  | refused

/-- What a client makes of the bytes that come back. -/
def received (bytes : Bytes) : Outcome :=
  match Frame.read bytes with
  | .message payload _ =>
      match Wire.decode? Reply.read payload with
      | some reply => .answered payload reply
      | none => .closed
  | _ => .closed

/-- A connection, by the kind of its client and a number. -/
structure ConnectionId where
  viaClient : Bool
  number : Nat
  deriving DecidableEq, Repr

/-- A node with its admin connections. -/
structure Endpoint where
  settings : Settings
  store : Store
  /-- Whether new connections are accepted. -/
  listening : Bool
  /-- The connections that can carry requests. -/
  active : List ConnectionId
  /-- The connections that were closed. -/
  closed : List ConnectionId

namespace Endpoint

def start (settings : Settings) (topology : Topology) (listening : Bool) : Endpoint :=
  ⟨settings, .memory topology, listening, [], []⟩

/-- Closes a connection for good. -/
def close (e : Endpoint) (id : ConnectionId) : Endpoint :=
  { e with active := e.active.erase id, closed := id :: e.closed }

/-- Uses a connection, which is opened if it is new. -/
def use (e : Endpoint) (id : ConnectionId) (exchange : Endpoint → Outcome × Endpoint) :
    Outcome × Endpoint :=
  if id ∈ e.closed then (.closed, e)
  else if id ∈ e.active then exchange e
  else if e.listening then exchange { e with active := id :: e.active }
  else (.refused, e)

/-- Sends bytes on a connection and takes the first reply.  Without a reply, or when the client
has ended its side, the connection is closed. -/
def send (e : Endpoint) (now : Int) (id : ConnectionId) (bytes : Bytes) (ends : Bool) :
    Outcome × Endpoint :=
  e.use id fun e =>
    let (frames, store) := serve e.settings (fun _ => now) bytes e.store
    let e := { e with store }
    match frames with
    | [] => (.closed, e.close id)
    | first :: _ => (received first, if ends then e.close id else e)

def sendPayload (e : Endpoint) (now : Int) (id : ConnectionId) (payload : Bytes) :
    Outcome × Endpoint :=
  match Frame.write payload with
  | some bytes => e.send now id bytes false
  | none => (.closed, e)

/-- Stops the node: all connections are closed and no new ones are accepted. -/
def stop (e : Endpoint) : Endpoint :=
  { e with listening := false, active := [], closed := e.active ++ e.closed }

end Endpoint

end Admin

end ReplicaCluster
