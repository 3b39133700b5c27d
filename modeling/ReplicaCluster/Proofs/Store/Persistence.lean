import ReplicaCluster.Proofs.Store.Revision
import ReplicaCluster.Proofs.Wire.Topology

/-!
# The stored form of a topology

A topology is stored behind the version of the format.  This module shows that the stored form
loses nothing, that it ends where it says, and what a store holds after a write.
-/

namespace ReplicaCluster

open Wire Reader

namespace Topology

variable {t t' : Topology}

theorem inverts_readPersisted : readPersisted.Inverts
    (pair nat write) fun stored => Nat32 stored.1 ∧ stored.2.Fits :=
  inverts_readPair inverts_readNat32 inverts_read

theorem stable_readPersisted : readPersisted.Stable :=
  stable_readPair stable_readNat32 stable_read

theorem fits_formatVersion : Nat32 formatVersion := by decide

theorem readPersisted_persist (fits : t.Fits) (rest : Bytes) :
    readPersisted (t.persist ++ rest) = some ((formatVersion, t), rest) :=
  inverts_readPersisted (formatVersion, t) ⟨fits_formatVersion, fits⟩ rest

theorem decode_persist (fits : t.Fits) :
    decode? readPersisted t.persist = some (formatVersion, t) :=
  inverts_readPersisted.decode (a := (formatVersion, t)) ⟨fits_formatVersion, fits⟩

theorem restore_persist (fits : t.Fits) : restore t.persist = .ok t := by
  simp [restore, decode_persist fits]

end Topology

namespace Store

/-- What was written is what the store holds. -/
theorem content_write {t : Topology} (fits : t.Fits) (s : Store) : (s.write t).content = .ok t := by
  cases s with
  | memory u => rfl
  | disk bytes => exact Topology.restore_persist fits

end Store

namespace Topology

/-- The stored form of a topology, whatever follows it, is read as version 1 and that topology, and
nothing behind it is taken.  So no two topologies have one stored form, a store holds what was
written to it, and a stored form that was cut off cannot be read. -/
theorem persist_loses_nothing (t : Topology) (fits : t.Fits) :
    (∀ rest : Bytes, readPersisted (t.persist ++ rest) = some ((1, t), rest)) ∧
      (∀ t' : Topology, t'.Fits → t'.persist = t.persist → t' = t) ∧
      (∀ s : Store, (s.write t).topology = .ok t) ∧
      ∀ bytes : Bytes, bytes <+: t.persist → bytes ≠ t.persist →
        decode? readPersisted bytes = none := by
  refine ⟨readPersisted_persist fits, ?_, ?_, ?_⟩
  · intro t' fits' hsame
    have hboth : some (formatVersion, t') = some (formatVersion, t) := by
      calc some (formatVersion, t')
        _ = decode? readPersisted t'.persist := (decode_persist fits').symm
        _ = decode? readPersisted t.persist := by rw [hsame]
        _ = some (formatVersion, t) := decode_persist fits
    simpa using hboth
  · intro s
    exact Store.topology_of_content (Store.content_write fits s)
  · intro bytes hbegins hne
    have hstored : Nat32 (formatVersion, t).1 ∧ (formatVersion, t).2.Fits :=
      ⟨fits_formatVersion, fits⟩
    have hnone := eq_none_of_strict_prefix inverts_readPersisted stable_readPersisted hstored
      hbegins hne
    simp [decode?, hnone]

/-- A topology with numbers at the edges of their widths, names beyond ASCII, a pending change with
all kinds of operations and a last change that ended before the epoch. -/
theorem persist_loses_nothing_edges :
    let replicas : SortedMap PartitionId Replica :=
      .ofList [(250, Replica.active 0), (251, Replica.joining 0xFFFF),
        (0x10000, (⟨.leaving, 0xFFFFFFFF⟩ : Replica))]
    let operations : List Operation :=
      [⟨"ß", .joinCluster⟩, ⟨"ß", .joinPartition 0xFFFFFFFF 251⟩, ⟨"", .setPriority 250 0x10000⟩,
        ⟨"日本", .overwriteHosts 0 ["ß", ""]⟩, ⟨"ß", .forceReconfigure 1 true⟩,
        ⟨"", .leavePartition 0xFFFF⟩, ⟨"", .leaveCluster⟩]
    let t : Topology := {
      version := 0xFFFFFFFFFFFFFFFF
      initialized := true
      members := .ofList
        [("", (⟨0x100000000, .leaving, replicas⟩ : Member)), ("日本", Member.active replicas)]
      pending := some ⟨0xFFFFFFFF, operations.drop 3, operations.take 3⟩
      lastChange := some ⟨0xFFFFFFFE, .cancelled, operations, -0x8000000000000000⟩ }
    t.Fits ∧ readPersisted (t.persist ++ [253, 0]) = some ((1, t), [253, 0]) ∧
      ((Store.disk none).write t).topology = .ok t ∧
      decode? readPersisted t.persist.dropLast = none := by
  intro replicas operations t
  have fits : t.Fits := by decide +kernel
  have hcut : t.persist.dropLast ≠ t.persist := by
    intro hsame
    have hpersist : t.persist = 1 :: t.write := rfl
    have hlength := congrArg List.length hsame
    simp only [List.length_dropLast, hpersist, List.length_cons] at hlength
    omega
  rcases persist_loses_nothing t fits with ⟨hread, -, hstore, hcutoff⟩
  exact ⟨fits, hread [253, 0], hstore (.disk none), hcutoff _ (List.dropLast_prefix _) hcut⟩

end Topology

end ReplicaCluster
