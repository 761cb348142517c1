import KeyFob.Device
import KeyFob.Provisioning.Mark

/-!
A boot: an unmarked fob makes new secrets and is marked, a marked one reloads the secrets it has. It ends ready, or it
fails and must restart.
-/

namespace KeyFob

open Provisioning (Stage)

structure Lifecycle where
  /-- Whether a failed restore takes the mark away. -/
  reinit : Bool
  stage : Stage := .start
  /-- The stages so far, as many as there is room for. -/
  trail : List Stage := [.start]
deriving DecidableEq, Repr

namespace Lifecycle

def maxTrail : Nat := 4

variable {ε κ τ : Type}

def log (level : Level) (message : String) : Run ε κ τ Unit := Run.log level .provisioning message

def enter [Surroundings ε] (l : Lifecycle) (target : Stage) : Run ε κ τ Lifecycle := do
  log .info ("PROVISION: " ++ l.stage.name ++ " -> " ++ target.name)
  Run.emit (.lifecycle l.stage target)
  return { l with
    stage := target
    trail := if l.trail.length < maxTrail then l.trail ++ [target] else l.trail }

variable [Storage κ] [Token κ τ]

def generateAndMark : Run ε κ τ (Except ProvisionError Unit) := do
  match ← Run.generate with
  | .error e => return .error e
  | .ok () =>
    match ← Run.onShelf Provisioning.mark with
    | .error e => return .error (.storage e)
    | .ok () => return .ok ()

/-- A failed restore is reported as such, whatever comes of taking the mark away. -/
def restoreOrErase (reinit : Bool) : Run ε κ τ (Except ProvisionError Unit) := do
  match ← Run.restore with
  | .ok () => return .ok ()
  | .error e =>
    if reinit then
      log .warn "PROVISION: restore failed, erasing key so the next boot re-initializes"
      match ← Run.onShelf Provisioning.erase with
      | .ok () => pure ()
      | .error e => log .warn ("PROVISION: erase failed: " ++ e.message)
    return .error e

variable [Surroundings ε]

def decide (l : Lifecycle) : Run ε κ τ (Except ProvisionError Unit × Lifecycle) := do
  match ← Run.onShelf Provisioning.isProvisioned with
  | .error e => return (.error (.storage e), l)
  | .ok false =>
    let l ← l.enter .initializing
    return (← generateAndMark, l)
  | .ok true =>
    let l ← l.enter .restoring
    return (← restoreOrErase l.reinit, l)

/-- Runs a boot to its end with the activity LED lit. -/
def run (l : Lifecycle) : Run ε κ τ (Except ProvisionError Unit × Lifecycle) := do
  Run.led .activity true
  let (result, l) ← l.decide
  Run.led .activity false
  match result with
  | .ok () => return (result, ← l.enter .ready)
  | .error e =>
    log .error ("PROVISION: " ++ e.message)
    return (result, ← l.enter .failed)

end Lifecycle

end KeyFob
