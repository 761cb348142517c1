import KeyFob.Journal

/-!
The pins of the board and the levels of its outputs.
-/

namespace KeyFob.Pins

def activityLed : Nat := 25
def linkLed : Nat := 26
def confirmButton : Nat := 12
def resetButton : Nat := 17

def ofLed : Led → Nat
  | .activity => activityLed
  | .link => linkLed

def count : Nat := 64

structure Levels where
  high : List Nat := []
deriving DecidableEq, Repr

namespace Levels

def isHigh (l : Levels) (pin : Nat) : Bool := l.high.contains pin

def write (l : Levels) (pin : Nat) (high : Bool) : Levels :=
  if high then ⟨pin :: l.high.erase pin⟩ else ⟨l.high.filter (· != pin)⟩

def setLed (l : Levels) (led : Led) (on : Bool) : Levels := l.write (ofLed led) on

def toList (l : Levels) : List Nat := (List.range count).filter l.isHigh

def reset : Levels := {}

def resetLine : Line := ⟨.info, .peripherals, "hw_init(sim): peripheral init skipped"⟩

end Levels

end KeyFob.Pins
