import KeyFob.Config.Settings
import KeyFob.Device

/-!
The gate: a sensitive command waits for somebody to press the button. The wait is a number of pulses, each with both
LEDs lit for half a period and dark for the other half; the flag is looked at before each pulse and once more behind
the last. A press from before the wait does not count.
-/

namespace KeyFob.Gate

open Config (ConfirmPolicy)

def Outcome.permits : Outcome → Bool
  | lockedOut => false
  | _ => true

variable {ε κ τ : Type} [Surroundings ε]

def pulse (halfMs : Nat) : Run ε κ τ Unit := do
  Run.led .activity true
  Run.led .link true
  Run.delay halfMs
  Run.led .activity false
  Run.led .link false
  Run.delay halfMs

/-- Waits for so many pulses, or until the flag is found raised. -/
def wait (halfMs : Nat) : Nat → Run ε κ τ Bool
  | 0 => Run.takeConfirm
  | pulses + 1 => do
    if ← Run.takeConfirm then return true
    pulse halfMs
    wait halfMs pulses

def await (p : ConfirmPolicy) : Run ε κ τ Outcome := do
  Run.clearConfirm
  let started ← Run.uptime
  let confirmed ← wait p.halfPeriodMs.toNat p.iterations.toNat
  -- The link is up, so its LED goes back to steady.
  Run.led .link true
  let waitedMs := (← Run.uptime) - started
  if confirmed then
    Run.log .debug .gate s!"GATE: confirmed after {waitedMs} ms"
    return .confirmed waitedMs
  else
    Run.log .info .gate s!"GATE: no confirmation after {waitedMs} ms, locked out"
    return .lockedOut

def judge (p : ConfirmPolicy) (c : Card.Command) : Run ε κ τ Outcome := do
  if c.requiresConfirmation then
    Run.log .info .gate ("GATE: INS " ++ Hex.byte c.ins ++ s!" needs confirmation ({p.deadlineMs} ms)")
    await p
  else return .bypassed

def evaluate (p : ConfirmPolicy) (c : Card.Command) : Run ε κ τ Outcome := do
  Run.meanwhile
  Run.add (.judge c)
  let outcome ← judge p c
  Run.add (.judged outcome)
  return outcome

end KeyFob.Gate
