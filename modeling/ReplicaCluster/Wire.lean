/-!
# The binary format

Values are written as bytes without any description of their types.  A natural number below 251
is one byte; larger ones are a marker and 2, 4 or 8 bytes, the lowest first.  A signed number is
written as the natural number that alternates between the signs.  A text is its length in bytes
and its UTF-8 form, a list its length and its items, a choice its index and what belongs to it.

A reader takes a value off the front of the bytes and leaves the rest.  It also accepts numbers
in a longer form than they need, but a marker for 8 bytes only where a number may be that large.
-/

namespace ReplicaCluster

/-- A sequence of bytes. -/
abbrev Bytes := List UInt8

abbrev Reader (α : Type) := StateT Bytes Option α

namespace Wire

variable {α β : Type}

/-! ## Natural numbers -/

/-- The lowest `count` bytes of a number, the lowest first. -/
def littleEndian : (count : Nat) → Nat → Bytes
  | 0, _ => []
  | count + 1, n => n.toUInt8 :: littleEndian count (n / 256)

/-- The number whose bytes are given, the lowest first. -/
def ofLittleEndian : Bytes → Nat
  | [] => 0
  | b :: rest => b.toNat + 256 * ofLittleEndian rest

/-- Writes a number below 2^64 in the shortest form. -/
def nat (n : Nat) : Bytes :=
  if n < 251 then [n.toUInt8]
  else if n < 0x10000 then 251 :: littleEndian 2 n
  else if n < 0x100000000 then 252 :: littleEndian 4 n
  else 253 :: littleEndian 8 n

def readByte : Reader UInt8 := fun
  | [] => none
  | b :: rest => some (b, rest)

/-- Takes exactly so many bytes.  Only these are counted, not all that are there. -/
def readBytes (count : Nat) : Reader Bytes := fun bytes =>
  let taken := bytes.take count
  if taken.length = count then some (taken, bytes.drop count) else none

theorem readBytes_eq_some_iff {count : Nat} {bytes taken rest : Bytes} :
    readBytes count bytes = some (taken, rest) ↔ bytes = taken ++ rest ∧ taken.length = count := by
  simp only [readBytes, Option.ite_none_right_eq_some, Option.some.injEq, Prod.mk.injEq]
  constructor
  · rintro ⟨hlength, rfl, rfl⟩
    exact ⟨(List.take_append_drop count bytes).symm, hlength⟩
  · rintro ⟨rfl, rfl⟩
    simp

/-- Takes a number of so many bytes. -/
def readFixed (count : Nat) : Reader Nat := do
  return ofLittleEndian (← readBytes count)

/-- Takes a number below 2^32. -/
def readNat32 : Reader Nat := do
  let b ← readByte
  if b < 251 then return b.toNat
  else if b = 251 then readFixed 2
  else if b = 252 then readFixed 4
  else failure

/-- Takes a number below 2^64. -/
def readNat64 : Reader Nat := do
  let b ← readByte
  if b < 251 then return b.toNat
  else if b = 251 then readFixed 2
  else if b = 252 then readFixed 4
  else if b = 253 then readFixed 8
  else failure

/-! ## Signed numbers, truth values and texts -/

/-- The natural number that stands for a signed one: 0, -1, 1, -2, 2 and so on. -/
def zigzag (i : Int) : Nat := if 0 ≤ i then 2 * i.toNat else 2 * (-i).toNat - 1

/-- The signed number for which a natural one stands. -/
def ofZigzag (n : Nat) : Int := if n % 2 = 0 then (n / 2 : Nat) else -((n / 2 : Nat) + 1)

def int (i : Int) : Bytes := nat (zigzag i)

def readInt : Reader Int := do
  return ofZigzag (← readNat64)

def bool (b : Bool) : Bytes := [if b then 1 else 0]

def readBool : Reader Bool := do
  match ← readByte with
  | 0 => return false
  | 1 => return true
  | _ => failure

def text (s : String) : Bytes := nat s.toUTF8.size ++ s.toUTF8.data.toList

def readText : Reader String := do
  let bytes ← readBytes (← readNat64)
  match String.fromUTF8? ⟨bytes.toArray⟩ with
  | some s => return s
  | none => failure

/-! ## Compounds -/

def option (write : α → Bytes) : Option α → Bytes
  | none => [0]
  | some a => 1 :: write a

def readOption (read : Reader α) : Reader (Option α) := do
  match ← readByte with
  | 0 => return none
  | 1 => return some (← read)
  | _ => failure

def list (write : α → Bytes) (xs : List α) : Bytes := nat xs.length ++ xs.flatMap write

/-- Takes so many values. -/
def readMany (read : Reader α) : Nat → Reader (List α)
  | 0 => pure []
  | count + 1 => do
      let x ← read
      return x :: (← readMany read count)

def readList (read : Reader α) : Reader (List α) := do
  readMany read (← readNat64)

def pair (writeFirst : α → Bytes) (writeSecond : β → Bytes) (p : α × β) : Bytes :=
  writeFirst p.1 ++ writeSecond p.2

def readPair (readFirst : Reader α) (readSecond : Reader β) : Reader (α × β) := do
  let a ← readFirst
  return (a, ← readSecond)

/-- The value at the front of the bytes; what follows it is ignored. -/
def decode? (read : Reader α) (bytes : Bytes) : Option α := (read bytes).map (·.1)

end Wire

end ReplicaCluster
