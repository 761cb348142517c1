import KeyFob.Device

/-!
The link LED: it blinks while the link is down and is lit once when the link comes up. While the link is up the LED is
left to others.
-/

namespace KeyFob

structure Indicator where
  blinkMs : UInt32
  lit : Bool := false
  wasUp : Bool := false
deriving DecidableEq, Repr

namespace Indicator

def output? (i : Indicator) (up : Bool) : Option Bool :=
  if up then (if i.wasUp then none else some true) else some !i.lit

variable {ε κ τ : Type}

def tick (i : Indicator) (up : Bool) : Run ε κ τ Indicator := do
  match i.output? up with
  | some on =>
    Run.led .link on
    return { i with lit := on, wasUp := up }
  | none => return { i with wasUp := up }

/-- Ticks until a restart is pending, at most so many times. The flag tells whether a restart was seen. -/
def run [Surroundings ε] (i : Indicator) : Nat → Run ε κ τ (Bool × Indicator)
  | 0 => return (← Run.halting, i)
  | ticks + 1 => do
    if ← Run.halting then return (true, i)
    let i ← i.tick (← Run.readLink).isSome
    Run.delay i.blinkMs.toNat
    run i ticks

end Indicator

end KeyFob
