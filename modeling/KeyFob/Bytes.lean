/-!
Bytes and their hexadecimal text. Bytes are lists, so that a length bound or a split of a message is a
statement about lists. Words travel most significant byte first.
-/

namespace KeyFob

abbrev Bytes := List UInt8

/-- A word from its two bytes, the more significant one first. -/
def beWord (hi lo : UInt8) : Nat := 256 * hi.toNat + lo.toNat

/-- The two bytes of a word, the more significant one first. -/
def beBytes (w : UInt16) : Bytes := [(w >>> 8).toUInt8, w.toUInt8]

namespace Hex

def digit (n : Nat) : Char := Char.ofNat (if n < 10 then 48 + n else 55 + n)

def byte (b : UInt8) : String := String.ofList [digit (b.toNat / 16), digit (b.toNat % 16)]

def word (w : UInt16) : String :=
  let n := w.toNat
  String.ofList [digit (n / 4096), digit (n / 256 % 16), digit (n / 16 % 16), digit (n % 16)]

def spaced (bs : Bytes) : String := " ".intercalate (bs.map byte)

end Hex

end KeyFob
