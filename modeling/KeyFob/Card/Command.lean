import KeyFob.Bytes

/-!
A card command: a four-byte header, a body of at most `maxData` bytes and the length of the answer that is
expected. The fob itself only tells four kinds of command apart; all else is the token's business.
-/

namespace KeyFob.Card

def maxData : Nat := 1024

structure Command where
  cla : UInt8
  ins : UInt8
  p1 : UInt8
  p2 : UInt8
  data : Bytes
  /-- Expected length of the answer, 0 if the command names none. -/
  le : Nat
deriving DecidableEq, Repr

/-- The class byte of every part of a chained command but the last. -/
def chainedClass : UInt8 := 0x10

namespace Ins

def verify : UInt8 := 0x20
def performSecurityOperation : UInt8 := 0x2A
def getChallenge : UInt8 := 0x84
def internalAuthenticate : UInt8 := 0x88

/-- The instructions that need somebody to press the button. -/
def sensitive : List UInt8 := [internalAuthenticate, performSecurityOperation]

end Ins

namespace Command

/-- No command: the peer has nothing more to ask, and the exchange ends. -/
def none : Command := ⟨0, 0, 0, 0, [], 0⟩

def p1p2 (c : Command) : Nat := beWord c.p1 c.p2

def lc (c : Command) : Nat := c.data.length

/-- Instruction 0 ends an exchange, whatever else the command holds. -/
def isNone (c : Command) : Bool := c.ins == 0

def isChained (c : Command) : Bool := c.cla == chainedClass

/-- A chained part is stored, not executed, so only the last part waits for the button. -/
def requiresConfirmation (c : Command) : Bool := Ins.sensitive.contains c.ins && !c.isChained

def isGetChallenge (c : Command) : Bool := c.cla == 0 && c.ins == Ins.getChallenge

end Command

end KeyFob.Card
