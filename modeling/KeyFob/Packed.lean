import KeyFob.Bytes

/-!
The packed form of stored records: fields one after another without names. Numbers take seven bits a byte, least
significant first, and the top bit tells that more follow; text and lists are preceded by their length.

Reading is lenient in two ways: a number may be written longer than need be, and bytes behind the record are ignored.
-/

namespace KeyFob.Packed

abbrev Reader (α : Type) := StateT Bytes Option α

def encodeNat (n : Nat) : Bytes :=
  if n < 128 then [UInt8.ofNat n] else UInt8.ofNat (n % 128 + 128) :: encodeNat (n / 128)

/-- Reads at most `count` bytes of a number, the last of which may be no more than `last`. -/
def decodeNat? (last : Nat) : Nat → Bytes → Option (Nat × Bytes)
  | count + 1, b :: rest =>
    if b.toNat < 128 then
      if count = 0 ∧ last < b.toNat then none else some (b.toNat, rest)
    else (decodeNat? last count rest).map fun (n, rest) => (b.toNat - 128 + 128 * n, rest)
  | _, _ => none

/-- A number of so many bits: the last of its bytes carries the bits that whole groups of seven leave over. -/
def nat (bits : Nat) : Reader Nat := decodeNat? ((1 <<< (bits % 7)) - 1) ((bits + 6) / 7)

def u16 : Reader UInt16 := do return UInt16.ofNat (← nat 16)

def u32 : Reader UInt32 := do return UInt32.ofNat (← nat 32)

def u64 : Reader UInt64 := do return UInt64.ofNat (← nat 64)

def byte : Reader UInt8
  | b :: rest => some (b, rest)
  | [] => none

def bool : Reader Bool
  | b :: rest => if b = 0 then some (false, rest) else if b = 1 then some (true, rest) else none
  | [] => none

def take (n : Nat) : Reader Bytes := fun bs => if n ≤ bs.length then some (bs.take n, bs.drop n) else none

def encodeText (s : String) : Bytes :=
  encodeNat s.utf8ByteSize ++ s.toByteArray.data.toList

def text : Reader String := do
  let size ← nat 64
  let bs ← take size
  match String.fromUTF8? ⟨bs.toArray⟩ with
  | some s => return s
  | none => failure

def times {α : Type} (item : Reader α) : Nat → Reader (List α)
  | 0 => pure []
  | n + 1 => do
    let a ← item
    let as ← times item n
    return a :: as

def list {α : Type} (max : Nat) (item : Reader α) : Reader (List α) := do
  let n ← nat 64
  if n ≤ max then times item n else failure

end KeyFob.Packed
