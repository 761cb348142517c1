import KeyFob.Device

/-!
Keeping the link up. The candidates are tried in turn, each attempt with the next one, and only the radio's own events
start an attempt. When the link comes up or goes down, the epoch moves before the link word does.
-/

namespace KeyFob

open Config (Network NetworkList Violation)

inductive LinkStatus
  | down
  | connecting
  | up
deriving DecidableEq, Repr

def LinkStatus.name : LinkStatus → String
  | down => "Down"
  | connecting => "Connecting"
  | up => "Up"

structure Connectivity where
  networks : NetworkList
  /-- The candidate that the next attempt takes. -/
  attemptIndex : Nat := 0
  /-- The candidate that the link is up on. -/
  currentIndex : Option Nat := none
  status : LinkStatus := .down
  /-- The candidate of the attempt under way, or of the one that succeeded. -/
  inFlight : Nat := 0
deriving DecidableEq

namespace Connectivity

def new (networks : NetworkList) : Except Violation Connectivity :=
  if networks.toList = [] then .error .noNetworks else .ok { networks }

def networkName (c : Connectivity) (index : Nat) : String :=
  match c.networks.toList[index]? with
  | some n => n.name.text
  | none => ""

variable {ε κ τ : Type} [Surroundings ε]

def log (level : Level) (message : String) : Run ε κ τ Unit := Run.log level .connectivity message

/-- Takes the next candidate, moves on to the one behind it, and has the station join the first. -/
def attempt (c : Connectivity) : Run ε κ τ (Except StationError Unit × Connectivity) := do
  let index := c.attemptIndex
  let count := c.networks.toList.length
  let c := { c with inFlight := index, attemptIndex := (index + 1) % count, status := .connecting }
  log .info ("LINK: trying '" ++ c.networkName index ++ s!"' ({index + 1}/{count})")
  match c.networks.toList[index]? with
  | none => return (.ok (), c)
  | some network =>
    match ← Run.apply network with
    | .error e => return (.error e, c)
    | .ok () =>
      Run.emit (.linkAttempt index)
      return (← Run.connect, c)

def handle (c : Connectivity) (e : LinkEvent) : Run ε κ τ (Except StationError Unit × Connectivity) := do
  log .debug ("LINK: " ++ e.text ++ " in " ++ c.status.name)
  match e with
  | .stationStarted => attempt c
  | .gotAddress =>
    let index := c.inFlight
    Run.act .bump
    Run.act (.linkUp index)
    Run.emit (.linkUp index)
    return (.ok (), { c with status := .up, currentIndex := some index })
  | .disconnected reason =>
    if c.status = .up then
      log .warn ("LINK: lost '" ++ c.networkName c.inFlight ++ s!"' (reason {reason.toNat})")
    Run.act .bump
    Run.act .linkDown
    Run.emit (.linkDown reason)
    attempt { c with status := .down, currentIndex := none }

end Connectivity

end KeyFob
