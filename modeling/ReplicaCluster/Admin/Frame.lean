import ReplicaCluster.Wire

/-!
# Frames

On an admin connection every message travels in a frame: its length as four bytes, the highest
first, and its bytes.  Whatever is written has a length of 32 bits; whoever reads accepts frames
up to a limit only.
-/

namespace ReplicaCluster

namespace Frame

/-- The longest message that a reader accepts. -/
def limit : Nat := 16 * 1024 * 1024

/-- What stands at the front of the bytes that arrive on a connection. -/
inductive Arrival
  /-- A message, and the bytes after it. -/
  | message (payload rest : Bytes)
  /-- The connection ends inside a header or before it. -/
  | ended
  /-- The header announces a message above the limit. -/
  | oversized
  /-- The connection ends inside a message. -/
  | truncated
  deriving DecidableEq

/-- Writes a message in a frame, unless its length does not fit into the header. -/
def write (payload : Bytes) : Option Bytes :=
  if payload.length < 0x100000000 then
    some ((Wire.littleEndian 4 payload.length).reverse ++ payload)
  else none

/-- Reads a frame off the front of the bytes. -/
def read (bytes : Bytes) : Arrival :=
  match Wire.readBytes 4 bytes with
  | none => .ended
  | some (header, rest) =>
      let length := Wire.ofLittleEndian header.reverse
      if limit < length then .oversized
      else
        match Wire.readBytes length rest with
        | some (payload, rest) => .message payload rest
        | none => .truncated

/-- A frame takes bytes off the front. -/
theorem length_lt_of_read {bytes payload rest : Bytes} (h : read bytes = .message payload rest) :
    rest.length < bytes.length := by
  unfold read at h
  split at h
  · cases h
  · next header tail hh =>
    dsimp only at h
    split at h
    · cases h
    · split at h
      · next p r hp =>
        cases h
        obtain ⟨rfl, hheader⟩ := Wire.readBytes_eq_some_iff.1 hh
        obtain ⟨rfl, -⟩ := Wire.readBytes_eq_some_iff.1 hp
        simp only [List.length_append]
        omega
      · cases h

end Frame

end ReplicaCluster
