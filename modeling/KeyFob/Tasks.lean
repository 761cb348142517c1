import KeyFob.Connectivity
import KeyFob.Indicator
import KeyFob.Provisioning.Lifecycle
import KeyFob.Provisioning.ResetMonitor
import KeyFob.RestartLog
import KeyFob.Session.Loop

/-!
The tasks of the fob and the coordinator that restarts it. No task ends unless a restart is pending; each one that must
end asks for a restart itself.
-/

namespace KeyFob.Tasks

open Config (Settings)

variable {ε κ τ : Type} [Surroundings ε]

def log (level : Level) (message : String) : Run ε κ τ Unit := Run.log level .coordinator message

def request (reason : Restart.Reason) : Run ε κ τ Unit := do
  if ← Run.halting then log .warn ("RESTART | already pending, dropping '" ++ reason.text ++ "'")
  else
    Run.emit (.restartRequested reason)
    Run.act (.restart reason)

inductive Ending
  | ended
  | waiting
deriving DecidableEq, Repr

/-- Boots, then serves peers until a restart is needed. -/
def session [Storage κ] [Token κ τ] (settings : Settings) : Run ε κ τ Ending := do
  let (booted, _) ← Lifecycle.run { reinit := settings.reinitOnRestoreFailure }
  match booted with
  | .error _ =>
    request .provisioningFailed
    return .ended
  | .ok () =>
    let (loopEnd, s) ← Session.run { settings }
    match loopEnd with
    | .waiting => return .waiting
    | .fatal reason => request reason
    | .halted => pure ()
    log .info (s!"SESSION: stopped (served={s.stats.served.toNat}, lockouts={s.stats.lockouts.toNat}, " ++
      s!"connect_failures={s.stats.connectFailures.toNat})")
    return .ended

inductive LinkStep
  | ended
  | handled
  | waiting
deriving DecidableEq, Repr

/-- Takes one event off the queue and handles it, unless a restart is pending. -/
def linkStep (c : Connectivity) : Run ε κ τ (LinkStep × Connectivity) := do
  match (← get).queue.receive? with
  | none => return (.waiting, c)
  | some (e, queue) =>
    modify fun d => { d with queue }
    if ← Run.halting then return (.ended, c)
    let (r, c) ← c.handle e
    match r with
    | .ok () => return (.handled, c)
    | .error e =>
      log .error ("LINK: " ++ e.message)
      request .stationDriver
      return (.ended, c)

/-- An event weighs one, and one more if handling it starts an attempt, which may bring another event. -/
def weight (q : LinkQueue) : Nat :=
  q.events.foldr (fun
    | .gotAddress, n => n + 1
    | _, n => n + 2) 0

/-- Handles events until none is left or the task ends. Each one makes the queue lighter, since a station answers an
attempt with one address at most. -/
def link (c : Connectivity) (d : Device ε κ τ) : (Ending × Connectivity) × Device ε κ τ :=
  match linkStep c d with
  | ((.ended, c), d') => ((.ended, c), d')
  | ((.waiting, c), d') => ((.waiting, c), d')
  | ((.handled, c), d') => if weight d'.queue < weight d.queue then link c d' else ((.waiting, c), d')
termination_by weight d.queue

def countdown : Nat → Run ε κ τ Unit
  | 0 => pure ()
  | n + 1 => do
    Run.log .info .restart s!"RESTART | restarting in {n + 1} seconds"
    Run.delay 1000
    countdown n

/-- All that comes before the restart itself: the countdown, unless the operator asked, and the release of the
volume. -/
def prepare (reason : Restart.Reason) (secs : UInt32) : Run ε κ τ Unit := do
  if reason.isFatal then
    Run.log .error .restart ("RESTART | " ++ reason.text)
    countdown secs.toNat
  else Run.log .info .restart ("RESTART | " ++ reason.text)
  match ← Run.unmount with
  | .ok () => pure ()
  | .error e => Run.log .warn .restart ("RESTART | " ++ e.message)

def perform (reason : Restart.Reason) (secs : UInt32) : Run ε κ τ Unit := do
  prepare reason secs
  Run.log .info .restart "RESTART | restarting now"
  Run.add .systemRestart

/-- Records the restart with the time at which it began, then prepares it. -/
def finish [Storage κ] (reason : Restart.Reason) (secs : UInt32) : Run ε κ τ RestartRecord := do
  let record := ⟨UInt64.ofNat (← Run.uptime), reason⟩
  let _ ← Run.onShelf do
    let log ← RestartLog.load {}
    log.record record
  prepare reason secs
  return record

/-- Takes the pending reason and restarts. False if nothing is pending, so that the coordinator goes on waiting. -/
def awaitRestart [Storage κ] (secs : UInt32) : Run ε κ τ Bool := do
  let (pending, restart) := (← Run.signals).restart.take
  match pending with
  | none => return false
  | some reason =>
    Run.setSignals fun s => { s with restart }
    let _ ← finish reason secs
    log .info "RESTART | restarting now"
    Run.add .systemRestart
    return true

end KeyFob.Tasks
