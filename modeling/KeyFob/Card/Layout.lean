import KeyFob.Card.Command

/-!
How a command is laid out in bytes. `Layout` names the seven bodies that may follow the header and `Layout.encode`
writes them; `Command.parse?` reads a message back and tells which of three faults a bad one has.
-/

namespace KeyFob.Card

inductive ParseError
  /-- The message ends inside the header. -/
  | tooShort
  /-- The length fields do not account for the rest of the message. -/
  | lengthMismatch
  /-- The lengths agree, but the body has more than `maxData` bytes. -/
  | dataTooLong
deriving DecidableEq, Repr

def ParseError.message : ParseError → String
  | .tooShort => "header truncated"
  | .lengthMismatch => "length fields do not match body"
  | .dataTooLong => "command data too long"

/-- In a length byte 0 stands for 256. -/
def shortLength (b : UInt8) : Nat := if b = 0 then 256 else b.toNat

/-- In a length word 0 stands for 65536. -/
def extendedLength (hi lo : UInt8) : Nat := if beWord hi lo = 0 then 65536 else beWord hi lo

inductive Layout
  | bare
  | shortLe (le : UInt8)
  | shortData (lc : UInt8) (data : Bytes)
  | shortDataLe (lc : UInt8) (data : Bytes) (le : UInt8)
  | extendedLe (hi lo : UInt8)
  | extendedData (hi lo : UInt8) (data : Bytes)
  | extendedDataLe (hi lo : UInt8) (data : Bytes) (leHi leLo : UInt8)
deriving DecidableEq, Repr

namespace Layout

def encode : Layout → Bytes
  | bare => []
  | shortLe le => [le]
  | shortData lc data => lc :: data
  | shortDataLe lc data le => lc :: (data ++ [le])
  | extendedLe hi lo => [0, hi, lo]
  | extendedData hi lo data => 0 :: hi :: lo :: data
  | extendedDataLe hi lo data leHi leLo => 0 :: hi :: lo :: (data ++ [leHi, leLo])

def data : Layout → Bytes
  | shortData _ d | shortDataLe _ d _ | extendedData _ _ d | extendedDataLe _ _ d _ _ => d
  | _ => []

def le : Layout → Nat
  | shortLe b | shortDataLe _ _ b => shortLength b
  | extendedLe hi lo | extendedDataLe _ _ _ hi lo => extendedLength hi lo
  | _ => 0

/-- The length field, where there is one, counts the data, and no body with a length field is empty. -/
def WellFormed : Layout → Prop
  | shortData lc d | shortDataLe lc d _ => lc ≠ 0 ∧ d.length = lc.toNat
  | extendedData hi lo d | extendedDataLe hi lo d _ _ => beWord hi lo ≠ 0 ∧ d.length = beWord hi lo
  | _ => True

/-- Reads the part of an extended body that follows its leading zero and its first length word. -/
def ofExtended? (hi lo : UInt8) (tail : Bytes) : Option Layout :=
  let n := beWord hi lo
  if tail = [] then some (extendedLe hi lo)
  else if n = 0 then none
  else if tail.length = n then some (extendedData hi lo tail)
  else match tail.drop n with
    | [leHi, leLo] => some (extendedDataLe hi lo (tail.take n) leHi leLo)
    | _ => none

/-- The layout of a body. A leading 0 with two or more bytes behind it opens an extended body. -/
def ofBytes? : Bytes → Option Layout
  | [] => some bare
  | [b] => some (shortLe b)
  | b :: rest =>
    if b = 0 then
      match rest with
      | hi :: lo :: tail => ofExtended? hi lo tail
      | _ => none
    else if rest.length = b.toNat then some (shortData b rest)
    else match rest.drop b.toNat with
      | [le] => some (shortDataLe b (rest.take b.toNat) le)
      | _ => none

end Layout

namespace Command

/-- Reads a message. The empty message is the end of an exchange and no error. -/
def parse? : Bytes → Except ParseError Command
  | [] => .ok Command.none
  | cla :: ins :: p1 :: p2 :: body =>
    match Layout.ofBytes? body with
    | .none => .error .lengthMismatch
    | some l => if l.data.length ≤ maxData then .ok ⟨cla, ins, p1, p2, l.data, l.le⟩ else .error .dataTooLong
  | _ => .error .tooShort

/-- Reads a message, taking a malformed one for the end of the exchange. -/
def parse (raw : Bytes) : Command :=
  match parse? raw with
  | .ok c => c
  | .error _ => Command.none

end Command

end KeyFob.Card
