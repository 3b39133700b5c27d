import Std.Sync.Mutex
import Std.Time.DateTime.Timestamp
import ReplicaCluster.Admin.Endpoint
import ReplicaCluster.CommandLine.Invocation
import ReplicaCluster.Node

/-!
# The command

With the command `run` the program is a node.  It bootstraps its cluster on the disk, drives pending
changes, and serves the requests that arrive, until there are no more.  With any other command it is
a client: it writes one request, and tells the reply that arrives.

Requests and replies travel in frames on the standard streams, so that any byte stream can carry
them; neither side looks at an address.  A node is set up as `Node.Setup` says.  It reads no
configuration file, and refuses to run with one.
-/

namespace ReplicaCluster

namespace Command

/-- The present time, in nanoseconds since the epoch. -/
def clock : IO Int := do
  return (← Std.Time.Timestamp.now).toNanosecondsSinceUnixEpoch.toInt

/-! ## Standard streams -/

/-- Writes bytes to standard output. -/
def send (bytes : Bytes) : IO Unit := do
  let out ← IO.getStdout
  out.write ⟨bytes.toArray⟩
  out.flush

/-- Reads so many bytes of standard input, or all that come before its end. -/
def receiveBytes : (count : Nat) → IO Bytes
  | 0 => return []
  | count + 1 => do
      let chunk ← (← IO.getStdin).read (count + 1).toUSize
      if _ : chunk.size = 0 then return []
      else return chunk.data.toList ++ (← receiveBytes (count + 1 - chunk.size))
termination_by count => count

/-- Reads the next frame of standard input, or what there is of it.  A message above the limit is
left where it is. -/
def receiveFrame : IO Bytes := do
  let header ← receiveBytes 4
  let length := Wire.ofLittleEndian header.reverse
  if header.length < 4 || Frame.limit < length then return header
  else return header ++ (← receiveBytes length)

/-! ## The disk of a node -/

/-- A file that holds a topology, and its content.  One party works on it at a time. -/
structure Disk where
  file : String
  store : Std.Mutex Store

namespace Disk

/-- Opens a file.  There need not be one yet. -/
def load (file : String) : IO Disk := do
  let bytes ←
    try
      some <$> IO.FS.readBinFile file
    catch
      | .noFileOrDirectory .. => pure none
      | e => throw e
  return ⟨file, ← Std.Mutex.new (.disk (bytes.map (·.data.toList)))⟩

/-- Puts the content into the file, all of it or nothing. -/
def save (d : Disk) (bytes : Bytes) : IO Unit := do
  let written := d.file ++ ".new"
  IO.FS.writeBinFile written ⟨bytes.toArray⟩
  IO.FS.rename written d.file

/-- Does something with the store that nobody interrupts. -/
def atomically {α : Type} (d : Disk) (act : Store → α × Store) : IO α :=
  d.store.atomically do
    let before ← get
    let (answer, after) := act before
    if after ≠ before then
      if let .disk (some bytes) := after then d.save bytes
      set after
    return answer

end Disk

/-! ## The node -/

/-- One turn of the driver: it carries out operations until none is left or one fails. -/
def poll (d : Disk) (settings : Settings) : IO Unit := do
  repeat
    let now ← clock
    match ← d.atomically (Process.run Store.host (Execution.advance settings now)) with
    | .ok (some _) => continue
    | .ok none => break
    | .error e => do
        IO.eprintln e.message
        break

/-- Takes a turn of the driver again and again, until that is cancelled. -/
def drive (d : Disk) (setup : Node.Setup) : IO Unit := do
  repeat
    if ← IO.checkCanceled then break
    try
      poll d setup.settings
    catch e =>
      IO.eprintln e
    IO.sleep setup.pollInterval

/-- Serves requests, each at the time of its arrival, until one is not answered. -/
def serve (d : Disk) (settings : Settings) : IO Unit := do
  repeat
    let frame ← receiveFrame
    let now ← clock
    match ← d.atomically (Admin.serve settings (fun _ => now) frame) with
    | [] => break
    | replies =>
        for reply in replies do
          send reply

def run (setup : Node.Setup) : IO UInt32 := do
  IO.FS.createDirAll setup.dataDirectory
  let d ← Disk.load (setup.dataDirectory ++ "/topology")
  match ← d.atomically setup.start with
  | .error e =>
      IO.eprintln (Node.bootstrapMessage e)
      return 1
  | .ok _ =>
      let driver ← IO.asTask (drive d setup) .dedicated
      serve d setup.settings
      IO.cancel driver
      return 0

/-! ## The client -/

/-- Sends a request and prints the reply.  Standard output carries frames only, so the text goes
to standard error. -/
def request (r : Request) : IO UInt32 := do
  send ((Frame.write r.write).getD [])
  match Admin.received (← receiveFrame) with
  | .answered _ (.ok response) =>
      IO.eprint response.text
      return 0
  | .answered _ (.error failure) =>
      IO.eprintln failure.message
      return 1
  | _ =>
      IO.eprintln "no reply"
      return 1

/-- Carries out a command line. -/
def execute (words : List String) : IO UInt32 :=
  match CommandLine.parse words with
  | .error e => do
      IO.eprintln e.text
      return 2
  | .ok invocation =>
      match invocation.request, invocation.config with
      | some r, _ => request r
      | none, none => run {}
      | none, some file => do
          IO.eprintln s!"no configuration file is read: {file}"
          return 1

end Command

end ReplicaCluster

/-- Carries out the command line. -/
def main (words : List String) : IO UInt32 := ReplicaCluster.Command.execute words
