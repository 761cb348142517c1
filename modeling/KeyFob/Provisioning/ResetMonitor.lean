import KeyFob.Device
import KeyFob.Provisioning.Mark

/-!
The reset button: once it has been pressed the fob's mark is erased and a restart requested, however many attempts the
erasing takes.
-/

namespace KeyFob.ResetMonitor

variable {ε κ τ : Type} [Surroundings ε] [Storage κ]

/-- One look at the button. True once the restart has been requested. -/
def poll : Run ε κ τ Bool := do
  if !(← Run.signals).reset then return false
  Run.emit .hardResetRequested
  match ← Run.onShelf Provisioning.erase with
  | .ok () =>
    Run.log .info .provisioning "RESET: provisioning erased"
    Run.act (.restart .hardReset)
    return true
  | .error e =>
    Run.log .warn .provisioning ("RESET: erase failed (" ++ e.message ++ "), retrying")
    return false

/-- Polls until a restart is pending, at most so many times. The flag tells whether the monitor came to its end. -/
def run (pollMs : UInt32) : Nat → Run ε κ τ Bool
  | 0 => return false
  | polls + 1 => do
    if ← poll then return true
    if ← Run.halting then return true
    Run.delay pollMs.toNat
    run pollMs polls

end KeyFob.ResetMonitor
