import Mathlib.Data.List.Induction
import ReplicaCluster.Admin.Frame
import ReplicaCluster.Proofs.Wire.RoundTrip

/-!
# Frames around messages

`Frame.Encloses frame message` says what a frame is: four bytes that give the length of the message,
the highest first, and the message itself.  Whatever is written is such a frame
(`Frame.encloses_of_write`), and what is read are the frames whose message is within the limit
(`Frame.read_eq_message_iff`).
-/

namespace ReplicaCluster

namespace Frame

/-- The number whose bytes are given, the highest first. -/
def bigEndian (bytes : Bytes) : Nat := bytes.foldl (fun n b => 256 * n + b.toNat) 0

/-- The frame is a header of four bytes that announces the message, and the message. -/
def Encloses (frame message : Bytes) : Prop :=
  ∃ header : Bytes, frame = header ++ message ∧ header.length = 4 ∧
    bigEndian header = message.length

variable {frame message bytes rest : Bytes}

theorem ofLittleEndian_reverse (bytes : Bytes) :
    Wire.ofLittleEndian bytes.reverse = bigEndian bytes := by
  -- The last byte is the lowest one, and comes first in reverse.
  induction bytes using List.reverseRecOn with
  | nil => rfl
  | append_singleton bytes b ih =>
      have hlast : bigEndian (bytes ++ [b]) = 256 * bigEndian bytes + b.toNat := by
        simp [bigEndian]
      rw [List.reverse_append, List.reverse_singleton, List.singleton_append, hlast, ← ih,
        Wire.ofLittleEndian, Nat.add_comm]

theorem write_eq_some_iff :
    write message = some frame ↔
      message.length < 0x100000000 ∧
        frame = (Wire.littleEndian 4 message.length).reverse ++ message := by
  simp [write, eq_comm]

theorem exists_write (h : message.length < 0x100000000) : ∃ frame, write message = some frame :=
  ⟨_, write_eq_some_iff.2 ⟨h, rfl⟩⟩

theorem encloses_of_write (h : write message = some frame) : Encloses frame message := by
  rcases write_eq_some_iff.1 h with ⟨hlength, rfl⟩
  refine ⟨_, rfl, ?_, ?_⟩
  · rw [List.length_reverse, Wire.length_littleEndian]
  · rw [← ofLittleEndian_reverse, List.reverse_reverse]
    exact Wire.ofLittleEndian_littleEndian hlength

theorem read_eq_message_iff :
    read bytes = .message message rest ↔
      message.length ≤ limit ∧ ∃ frame, Encloses frame message ∧ bytes = frame ++ rest := by
  unfold read
  constructor
  · intro h
    cases hheader : Wire.readBytes 4 bytes with
    | none => simp [hheader] at h
    | some taken =>
        rcases taken with ⟨header, tail⟩
        rw [hheader] at h
        dsimp only at h
        rcases Wire.readBytes_eq_some_iff.1 hheader with ⟨rfl, hfour⟩
        by_cases hlimit : limit < Wire.ofLittleEndian header.reverse
        · simp [hlimit] at h
        · rw [if_neg hlimit] at h
          cases hmessage : Wire.readBytes (Wire.ofLittleEndian header.reverse) tail with
          | none => simp [hmessage] at h
          | some taken =>
              rcases taken with ⟨message', rest'⟩
              have hsame : message' = message ∧ rest' = rest := by simpa [hmessage] using h
              rcases hsame with ⟨rfl, rfl⟩
              rcases Wire.readBytes_eq_some_iff.1 hmessage with ⟨rfl, hlength⟩
              rw [← hlength] at hlimit
              refine ⟨Nat.le_of_not_lt hlimit, header ++ message', ⟨header, rfl, hfour, ?_⟩, ?_⟩
              · rw [← ofLittleEndian_reverse, hlength]
              · rw [List.append_assoc]
  · rintro ⟨hlimit, frame, ⟨header, rfl, hfour, hlength⟩, rfl⟩
    have hheader : Wire.readBytes 4 (header ++ message ++ rest) = some (header, message ++ rest) :=
      Wire.readBytes_eq_some_iff.2 ⟨by rw [List.append_assoc], hfour⟩
    have hmessage : Wire.readBytes message.length (message ++ rest) = some (message, rest) :=
      Wire.readBytes_eq_some_iff.2 ⟨rfl, rfl⟩
    simp only [hheader, ofLittleEndian_reverse, hlength, hmessage, Nat.not_lt.2 hlimit, if_false]

/-- What was written within the limit is read again, whatever follows it. -/
theorem read_write (h : write message = some frame) (hlimit : message.length ≤ limit)
    (rest : Bytes) : read (frame ++ rest) = .message message rest :=
  read_eq_message_iff.2 ⟨hlimit, frame, encloses_of_write h, rfl⟩

end Frame

end ReplicaCluster
