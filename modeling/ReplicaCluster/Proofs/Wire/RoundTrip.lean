import ReplicaCluster.Proofs.Topology.Placement
import ReplicaCluster.Wire.Topology

/-!
# What is written is read again

Two laws of readers, for the parts from which all formats are put together.

* `Reader.Inverts`: a reader takes what was written off the front of the bytes, and leaves
  whatever follows.  Formats have a width, so this is asked of the values that fit into it.
* `Reader.Stable`: what a reader takes off the front does not depend on the bytes behind it.

A reader with both laws refuses every strict prefix of what was written
(`Reader.eq_none_of_strict_prefix`).
-/

namespace ReplicaCluster

namespace Reader

variable {α β : Type}

/-! ## The two laws -/

/-- The reader takes every value that fits off the front of its written form. -/
def Inverts (read : Reader α) (write : α → Bytes) (fits : α → Prop) : Prop :=
  ∀ a, fits a → ∀ rest, read (write a ++ rest) = some (a, rest)

/-- More bytes at the end change nothing about what is taken off the front. -/
def Stable (read : Reader α) : Prop :=
  ∀ bytes a rest, read bytes = some (a, rest) →
    ∀ more, read (bytes ++ more) = some (a, rest ++ more)

/-- What was written is decoded as the value that it was written for. -/
theorem Inverts.decode {read : Reader α} {write : α → Bytes} {fits : α → Prop}
    (inverts : read.Inverts write fits) {a : α} (ha : fits a) :
    Wire.decode? read (write a) = some a := by
  have hread : read (write a) = some (a, []) := by simpa using inverts a ha []
  simp [Wire.decode?, hread]

/-- No value has a written form that begins another one's and stops short of its end. -/
theorem eq_none_of_strict_prefix {read : Reader α} {write : α → Bytes} {fits : α → Prop}
    (inverts : read.Inverts write fits) (stable : read.Stable) {a : α} (ha : fits a)
    {bytes : Bytes} (hbegins : bytes <+: write a) (hne : bytes ≠ write a) : read bytes = none := by
  rcases hbegins with ⟨missing, hmissing⟩
  cases hread : read bytes with
  | none => rfl
  | some taken =>
      rcases taken with ⟨b, rest⟩
      -- The missing bytes would be left over by a reader that has to leave nothing.
      have hall : read (write a) = some (a, []) := by simpa using inverts a ha []
      have hlonger : read (write a) = some (b, rest ++ missing) := by
        simpa only [hmissing] using stable bytes b rest hread missing
      have hleft : a = b ∧ [] = rest ++ missing := by simpa [hall] using hlonger
      have hnone : rest = [] ∧ missing = [] := by simpa using hleft.2.symm
      exact absurd (by simpa [hnone] using hmissing) hne

/-! ## Sequences of readers -/

@[simp] theorem pure_apply (a : α) (bytes : Bytes) :
    (pure a : Reader α) bytes = some (a, bytes) := rfl

@[simp] theorem failure_apply (bytes : Bytes) : (failure : Reader α) bytes = none := rfl

@[simp] theorem bind_apply (read : Reader α) (next : α → Reader β) (bytes : Bytes) :
    (read >>= next) bytes = (read bytes).bind fun taken => next taken.1 taken.2 := rfl

@[simp] theorem failure_bind (next : α → Reader β) : (failure : Reader α) >>= next = failure := rfl

@[simp] theorem map_apply (f : α → β) (read : Reader α) (bytes : Bytes) :
    (f <$> read) bytes = (read bytes).map fun taken => (f taken.1, taken.2) := by
  cases h : read bytes <;> simp [Functor.map, StateT.map, h, bind, pure]

theorem stable_pure (a : α) : (pure a : Reader α).Stable := by
  intro bytes b rest h more
  have htaken : a = b ∧ bytes = rest := by simpa using h
  simp [htaken]

theorem stable_failure : (failure : Reader α).Stable := by
  intro bytes a rest h
  simp at h

theorem Stable.bind {read : Reader α} {next : α → Reader β} (first : read.Stable)
    (second : ∀ a, (next a).Stable) : (read >>= next).Stable := by
  intro bytes b rest h more
  rcases Option.bind_eq_some_iff.1 h with ⟨⟨a, left⟩, hread, hnext⟩
  simp [first bytes a left hread more, second a left b rest hnext more]

theorem Stable.map {read : Reader α} (stable : read.Stable) (f : α → β) :
    (do return f (← read) : Reader β).Stable :=
  stable.bind fun a => stable_pure (f a)

end Reader

namespace Wire

open Reader

variable {α β : Type}

/-! ## Numbers -/

/-- The numbers that take 32 bits. -/
def Nat32 (n : Nat) : Prop := n < 0x100000000

/-- The numbers that take 64 bits. -/
def Nat64 (n : Nat) : Prop := n < 0x10000000000000000

/-- The signed numbers that take 64 bits. -/
def Int64 (i : Int) : Prop := -0x8000000000000000 ≤ i ∧ i < 0x8000000000000000

instance (n : Nat) : Decidable (Nat32 n) := inferInstanceAs (Decidable (_ < _))

instance (n : Nat) : Decidable (Nat64 n) := inferInstanceAs (Decidable (_ < _))

instance (i : Int) : Decidable (Int64 i) := inferInstanceAs (Decidable (_ ∧ _))

@[simp] theorem readByte_cons (b : UInt8) (rest : Bytes) : readByte (b :: rest) = some (b, rest) :=
  rfl

theorem length_littleEndian (count n : Nat) : (littleEndian count n).length = count := by
  induction count generalizing n with
  | zero => rfl
  | succ count ih => simp [littleEndian, ih]

/-- The number of values that so many bytes can take. -/
def capacity : Nat → Nat
  | 0 => 1
  | count + 1 => capacity count * 256

theorem ofLittleEndian_littleEndian {count : Nat} :
    ∀ {n : Nat}, n < capacity count → ofLittleEndian (littleEndian count n) = n := by
  induction count with
  | zero =>
      intro n hn
      simpa [capacity, littleEndian, ofLittleEndian, eq_comm] using hn
  | succ count ih =>
      intro n hn
      have hrest : n / 256 < capacity count := (Nat.div_lt_iff_lt_mul (by decide)).2 hn
      simp only [littleEndian, ofLittleEndian, ih hrest, UInt8.toNat_ofNat']
      omega

theorem readFixed_littleEndian (count : Nat) {n : Nat} (hn : n < capacity count) (rest : Bytes) :
    readFixed count (littleEndian count n ++ rest) = some (n, rest) := by
  have hbytes : readBytes count (littleEndian count n ++ rest) =
      some (littleEndian count n, rest) :=
    readBytes_eq_some_iff.2 ⟨rfl, length_littleEndian count n⟩
  simp [readFixed, hbytes, ofLittleEndian_littleEndian hn]

theorem inverts_readNat32 : readNat32.Inverts nat Nat32 := by
  intro n hn rest
  -- One case for each width of the written form.
  by_cases h8 : n < 251
  · have hbyte : n % 256 = n := by omega
    simp [readNat32, nat, h8, UInt8.lt_iff_toNat_lt, hbyte]
  · by_cases h16 : n < 0x10000
    · simp [readNat32, nat, h8, h16, readFixed_littleEndian 2 h16]
    · have h32 : n < 0x100000000 := hn
      simp [readNat32, nat, h8, h16, h32, readFixed_littleEndian 4 h32]

theorem inverts_readNat64 : readNat64.Inverts nat Nat64 := by
  intro n hn rest
  by_cases h8 : n < 251
  · have hbyte : n % 256 = n := by omega
    simp [readNat64, nat, h8, UInt8.lt_iff_toNat_lt, hbyte]
  · by_cases h16 : n < 0x10000
    · simp [readNat64, nat, h8, h16, readFixed_littleEndian 2 h16]
    · by_cases h32 : n < 0x100000000
      · simp [readNat64, nat, h8, h16, h32, readFixed_littleEndian 4 h32]
      · have h64 : n < 0x10000000000000000 := hn
        simp [readNat64, nat, h8, h16, h32, readFixed_littleEndian 8 h64]

theorem ofZigzag_zigzag (i : Int) : ofZigzag (zigzag i) = i := by
  unfold ofZigzag zigzag
  by_cases hi : 0 ≤ i
  · simp [hi]
  · have hodd : (2 * (-i).toNat - 1) % 2 ≠ 0 := by omega
    simp only [hi, if_false, hodd]
    omega

theorem inverts_readInt : readInt.Inverts int Int64 := by
  intro i hi rest
  have hfits : Nat64 (zigzag i) := by
    rcases hi with ⟨hlow, hhigh⟩
    unfold Nat64 zigzag
    split <;> omega
  simp [readInt, int, inverts_readNat64 _ hfits, ofZigzag_zigzag]

theorem stable_readByte : readByte.Stable := by
  intro bytes b rest h more
  cases bytes with
  | nil => simp [readByte] at h
  | cons first tail =>
      have htaken : first = b ∧ tail = rest := by simpa using h
      simp [htaken]

theorem stable_readBytes (count : Nat) : (readBytes count).Stable := by
  intro bytes taken rest h more
  rcases readBytes_eq_some_iff.1 h with ⟨hbytes, hlength⟩
  exact readBytes_eq_some_iff.2 ⟨by simp [hbytes], hlength⟩

theorem stable_readFixed (count : Nat) : (readFixed count).Stable :=
  (stable_readBytes count).map ofLittleEndian

theorem stable_readNat32 : readNat32.Stable := by
  refine stable_readByte.bind fun b => ?_
  split_ifs
  · exact stable_pure _
  · exact stable_readFixed 2
  · exact stable_readFixed 4
  · exact stable_failure

theorem stable_readNat64 : readNat64.Stable := by
  refine stable_readByte.bind fun b => ?_
  split_ifs
  · exact stable_pure _
  · exact stable_readFixed 2
  · exact stable_readFixed 4
  · exact stable_readFixed 8
  · exact stable_failure

theorem stable_readInt : readInt.Stable := stable_readNat64.map ofZigzag

/-! ## Truth values and texts -/

theorem inverts_readBool : readBool.Inverts bool fun _ => True := by
  intro b _ rest
  cases b <;> simp [readBool, bool]

theorem stable_readBool : readBool.Stable := by
  refine stable_readByte.bind fun b => ?_
  split
  · exact stable_pure false
  · exact stable_pure true
  · exact stable_failure

/-- The texts whose length takes 64 bits. -/
def Text (s : String) : Prop := Nat64 s.toUTF8.size

instance (s : String) : Decidable (Text s) := inferInstanceAs (Decidable (Nat64 _))

theorem inverts_readText : readText.Inverts text Text := by
  intro s hs rest
  have hlength := inverts_readNat64 s.toUTF8.size hs (s.toUTF8.data.toList ++ rest)
  have hbytes : readBytes s.toUTF8.size (s.toUTF8.data.toList ++ rest) =
      some (s.toUTF8.data.toList, rest) :=
    readBytes_eq_some_iff.2 ⟨rfl, by simp⟩
  have hutf8 : String.fromUTF8? ⟨s.toUTF8.data.toList.toArray⟩ = some s := by
    simp [String.fromUTF8?, String.fromUTF8, s.isValidUTF8]
  simp only [readText, text, bind_apply, List.append_assoc, hlength, Option.bind_some, hbytes,
    hutf8, pure_apply]

theorem stable_readText : readText.Stable := by
  refine stable_readNat64.bind fun length => (stable_readBytes length).bind fun bytes => ?_
  split
  · exact stable_pure _
  · exact stable_failure

/-! ## Compounds -/

section Compounds

variable {read : Reader α} {write : α → Bytes} {fits : α → Prop}

theorem inverts_readOption (inverts : read.Inverts write fits) :
    (readOption read).Inverts (option write) fun o => ∀ a ∈ o, fits a := by
  intro o ho rest
  cases o with
  | none => simp [readOption, option]
  | some a => simp [readOption, option, inverts a (ho a rfl)]

theorem stable_readOption (stable : read.Stable) : (readOption read).Stable := by
  refine stable_readByte.bind fun b => ?_
  split
  · exact stable_pure none
  · exact stable.map some
  · exact stable_failure

/-- The lists whose length takes 64 bits and whose items all fit. -/
def Listed (fits : α → Prop) (xs : List α) : Prop := Nat64 xs.length ∧ ∀ x ∈ xs, fits x

instance [DecidablePred fits] (xs : List α) : Decidable (Listed fits xs) :=
  inferInstanceAs (Decidable (_ ∧ _))

theorem readMany_flatMap (inverts : read.Inverts write fits) {xs : List α}
    (hxs : ∀ x ∈ xs, fits x) (rest : Bytes) :
    readMany read xs.length (xs.flatMap write ++ rest) = some (xs, rest) := by
  induction xs with
  | nil => simp [readMany]
  | cons x xs ih =>
      have hhead := inverts x (hxs x List.mem_cons_self) (xs.flatMap write ++ rest)
      have htail := ih fun y hy => hxs y (List.mem_cons_of_mem x hy)
      simp [readMany, hhead, htail]

theorem inverts_readList (inverts : read.Inverts write fits) :
    (readList read).Inverts (list write) (Listed fits) := by
  intro xs hxs rest
  have hitems := readMany_flatMap inverts hxs.2 rest
  simp [readList, list, inverts_readNat64 _ hxs.1, hitems]

theorem stable_readList (stable : read.Stable) : (readList read).Stable := by
  refine stable_readNat64.bind fun count => ?_
  induction count with
  | zero => exact stable_pure []
  | succ count ih => exact stable.bind fun x => ih.map (x :: ·)

theorem inverts_readPair {readFirst : Reader β} {writeFirst : β → Bytes} {fitsFirst : β → Prop}
    (first : readFirst.Inverts writeFirst fitsFirst) (second : read.Inverts write fits) :
    (readPair readFirst read).Inverts (pair writeFirst write)
      fun p => fitsFirst p.1 ∧ fits p.2 := by
  intro p hp rest
  simp [readPair, pair, first p.1 hp.1, second p.2 hp.2]

theorem stable_readPair {readFirst : Reader β} (first : readFirst.Stable) (second : read.Stable) :
    (readPair readFirst read).Stable :=
  first.bind fun a => second.map fun b => (a, b)

end Compounds

/-! ## Maps -/

section Maps

variable {κ : Type} [Ord κ] [Std.TransOrd κ] {readKey : Reader κ} {writeKey : κ → Bytes}
  {fitsKey : κ → Prop} {read : Reader α} {write : α → Bytes} {fits : α → Prop}

/-- The maps whose size takes 64 bits and whose entries all fit. -/
def Mapped (fitsKey : κ → Prop) (fits : α → Prop) (m : SortedMap κ α) : Prop :=
  Listed (fun entry => fitsKey entry.1 ∧ fits entry.2) m.toList

instance [DecidablePred fitsKey] [DecidablePred fits] (m : SortedMap κ α) :
    Decidable (Mapped fitsKey fits m) :=
  inferInstanceAs (Decidable (Listed _ _))

theorem stable_readMap (key : readKey.Stable) (value : read.Stable) :
    (readMap readKey read).Stable :=
  (stable_readList (stable_readPair key value)).map (Std.ExtTreeMap.ofList · compare)

variable [Std.LawfulEqOrd κ] [BEq κ] [LawfulBEq κ]

/-- A map is made again from its listing. -/
theorem ofList_toList (m : SortedMap κ α) : Std.ExtTreeMap.ofList m.toList compare = m := by
  have hdistinct : (m.toList.map (·.1)).Nodup := by
    simpa only [Std.ExtTreeMap.map_fst_toList_eq_keys] using m.nodup_keys
  refine Std.ExtTreeMap.ext_getElem? fun k => Option.ext fun a => ?_
  calc (Std.ExtTreeMap.ofList m.toList compare)[k]? = some a
    _ ↔ (k, a) ∈ m.toList := SortedMap.getElem?_ofList_iff hdistinct
    _ ↔ m[k]? = some a := by simp

theorem inverts_readMap (key : readKey.Inverts writeKey fitsKey) (value : read.Inverts write fits) :
    (readMap readKey read).Inverts (map writeKey write) (Mapped fitsKey fits) := by
  intro m hm rest
  have hentries := inverts_readList (inverts_readPair key value) m.toList hm rest
  simp [readMap, map, hentries, ofList_toList]

end Maps

end Wire

end ReplicaCluster
