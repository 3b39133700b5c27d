import ReplicaCluster.Execution.Advance
import ReplicaCluster.Wire.Topology

/-!
# Stores

A store holds the topology of the cluster, in memory or as bytes on a disk.  On a disk the
topology stands behind the version of the format; bytes that cannot be read, or are of another
version, are never overwritten, because every revision starts with a read.
-/

namespace ReplicaCluster

/-- The version of the format in which topologies are stored. -/
def formatVersion : Nat := 1

namespace Topology

def persist (t : Topology) : Bytes := Wire.nat formatVersion ++ t.write

/-- Takes a stored topology with the version of its format. -/
def readPersisted : Reader (Nat × Topology) := Wire.readPair Wire.readNat32 read

/-- Reads the stored form of a topology.  The version is looked at once all is decoded. -/
def restore (bytes : Bytes) : Except Cause Topology :=
  match Wire.decode? readPersisted bytes with
  | none => .error .undecodable
  | some (version, t) =>
      if version = formatVersion then .ok t else .error (.unsupportedFormat version)

end Topology

inductive Store
  | memory (topology : Topology)
  /-- The bytes on the disk, if any were written yet. -/
  | disk (bytes : Option Bytes)
  deriving DecidableEq

namespace Store

/-- The topology in the store, or why it cannot be read.  A disk on which nothing was written
holds the uninitialized topology. -/
def content : Store → Except Cause Topology
  | .memory t => .ok t
  | .disk none => .ok .uninitialized
  | .disk (some bytes) => Topology.restore bytes

def topology (s : Store) : Except Failure Topology := s.content.mapError Cause.failure

/-- Puts a topology in place of what is there. -/
def write (s : Store) (t : Topology) : Store :=
  match s with
  | .memory _ => .memory t
  | .disk _ => .disk (some t.persist)

/-- Revises the topology; if that fails the store stays as it is. -/
def update (revise : Revision) (s : Store) : Except Failure Topology × Store :=
  match s.topology.bind revise with
  | .ok t => (.ok t, s.write t)
  | .error e => (.error e, s)

/-- A store that nothing else works on, with members that always comply. -/
def host : Host Store where
  read s := (s.topology, s)
  update := update
  call _ s := (.ok (), s)

def remaining (s : Store) : Nat :=
  match s.content with
  | .ok t => Execution.remaining t
  | .error _ => 0

end Store

end ReplicaCluster
