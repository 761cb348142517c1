import KeyFob.Card.Reception
import KeyFob.Gate
import KeyFob.Session.Stats

/-!
One cycle of a session: wait for the link, dial the peer until it answers, read one command, let it through the gate,
have the token answer it, write the answer and close. Whatever goes wrong on the way, the connection is closed and what
the token remembers of the session is dropped.
-/

namespace KeyFob

open Config (Settings ConfirmPolicy Network Endpoint)
open Card (Command Response)

/-- A session serves the peers of a list of networks, one command a connection. -/
structure Session where
  settings : Settings
  cursor : Cursor := {}
  stats : Session.Stats := {}
  timing : Session.Timing := {}

namespace Session

inductive Outcome
  | served (sw : UInt16)
  | lockedOut
  | empty
  | readFailed
  | writeFailed
  | linkLost
  | halted
deriving DecidableEq, Repr

def Outcome.text : Outcome → String
  | served sw => "Served \x7b sw: " ++ toString sw.toNat ++ " \x7d"
  | lockedOut => "LockedOut"
  | empty => "Empty"
  | readFailed => "ReadFailed"
  | writeFailed => "WriteFailed"
  | linkLost => "LinkLost"
  | halted => "Halted"

/-- A cycle ends, or calls for a restart, or still waits for a link that is down. -/
inductive CycleEnd
  | done (outcome : Outcome)
  | fatal (reason : Restart.Reason)
  | waiting
deriving DecidableEq, Repr

def receiveSize : Nat := 1024

variable {ε κ τ : Type} [Surroundings ε] [Token κ τ]

def log (level : Level) (message : String) : Run ε κ τ Unit := Run.log level .session message

inductive Dialed
  | connected (x : Exchange)
  | ended (e : CycleEnd)

/-- Dials until the peer answers, a socket is refused, the link moves or a restart is pending. -/
def dialFrom (index : Nat) (peer : Endpoint) : List Dial → Session → Run ε κ τ (Dialed × Session)
  | dials, s => do
    if ← Run.halting then return (.ended (.done .halted), s)
    match dials with
    | .connects x :: rest =>
      modify fun d => { d with dials := rest }
      Run.add (.dial peer (.ok ()))
      return (.connected x, s)
    | .fails .connect :: rest =>
      modify fun d => { d with dials := rest }
      Run.add (.dial peer (.error .connect))
      let s := { s with stats := s.stats.recordConnectFailure }
      Run.invalidate
      Run.emit (.peerUnreachable s.settings.connectBackoffMs)
      Run.delay s.settings.connectBackoffMs.toNat
      if (← Run.readLink) ≠ some index then return (.ended (.done .linkLost), s)
      dialFrom index peer rest s
    | .fails .allocate :: rest =>
      modify fun d => { d with dials := rest }
      refused s
    | [] => refused s
where
  refused (s : Session) : Run ε κ τ (Dialed × Session) := do
    Run.add (.dial peer (.error .allocate))
    log .error ("SESSION: " ++ DialError.allocate.message)
    return (.ended (.fatal .socketAllocation), s)

/-- The token answers with the activity LED lit. -/
def process (s : Session) (c : Command) : Run ε κ τ (Response × Session) := do
  Run.led .activity true
  let started ← Run.uptime
  let response ← Run.process c .empty
  let elapsed := (← Run.uptime) - started
  Run.led .activity false
  if c.isGetChallenge then
    let timing := s.timing.record elapsed
    Run.log .debug .diagnostics (timing.text elapsed)
    return (response, { s with timing })
  else return (response, s)

def warnOfStreak (s : Session) : Run ε κ τ Unit := do
  let streak := s.stats.consecutiveLockouts
  if s.settings.lockoutWarnThreshold ≤ streak then
    log .warn s!"SESSION: {streak.toNat} consecutive confirmation lockouts"

/-- Passes a command through the gate to the token. The flag tells a lockout. -/
def answer (s : Session) (c : Command) : Run ε κ τ (Response × Bool × Session) := do
  match ← Gate.evaluate s.settings.confirm c with
  | .lockedOut =>
    let s := { s with stats := s.stats.recordLockout }
    warnOfStreak s
    Run.emit (.lockedOut c.ins s.stats.consecutiveLockouts)
    return (.lockedOut, true, s)
  | .confirmed waitedMs =>
    let s := { s with stats := s.stats.recordConfirmed }
    Run.emit (.confirmed c.ins waitedMs)
    let (response, s) ← process s c
    return (response, false, s)
  | .bypassed =>
    let (response, s) ← process s c
    return (response, false, s)

def announce (c : Command) : Run ε κ τ Unit := do
  if c.requiresConfirmation then Run.emit (.confirmationPending c.ins)

def statusOf (r : Response) : UInt16 :=
  match r.status? with
  | some sw => sw.word
  | none => 0

def serveCommand (s : Session) (x : Exchange) (c : Command) : Run ε κ τ (Outcome × Session) := do
  announce c
  let started ← Run.uptime
  let (response, locked, s) ← answer s c
  log .debug ("APDU -> " ++ Hex.spaced response.bytes)
  match ← Run.write x response.bytes with
  | .error e =>
    log .warn ("SESSION: write failed: " ++ e.message)
    let s := { s with stats := s.stats.recordWriteFailure }
    Run.emit (.writeFailed c.ins)
    Run.close
    return (.writeFailed, s)
  | .ok () =>
    Run.close
    if locked then return (.lockedOut, s)
    let sw := statusOf response
    let s := { s with stats := s.stats.recordServed }
    Run.emit (.served c.ins sw response.length ((← Run.uptime) - started))
    return (.served sw, s)

/-- A link that moved since the last look ends the token's session. -/
def followLink (s : Session) : Run ε κ τ Session := do
  let (moved, cursor) := s.cursor.advance (← Run.readEpoch)
  if moved then
    log .debug "SESSION: link changed, invalidating session state"
    Run.invalidate
  return { s with cursor }

/-- Reads one command from a connection and serves it. The link is followed before the command is looked at. -/
def serveConnection (s : Session) (x : Exchange) : Run ε κ τ (Outcome × Session) := do
  match ← Run.receive receiveSize x with
  | .error e =>
    log .warn ("SESSION: read failed: " ++ e.message)
    Run.invalidate
    Run.close
    return (.readFailed, s)
  | .ok raw =>
    log .debug ("APDU <- " ++ Hex.spaced raw)
    Run.logLines (Command.receptionLines raw)
    let c := Command.parse raw
    let s ← followLink s
    if c.isNone then
      Run.invalidate
      Run.close
      let s := { s with stats := s.stats.recordEmpty }
      Run.emit .exchangeEmpty
      return (.empty, s)
    serveCommand s x c

/-- The part of a cycle that begins with a look at the link. A cycle that waits for the link looks again. -/
def serveLink (s : Session) : Run ε κ τ (CycleEnd × Session) := do
  match ← Run.readLink with
  | none => return (.waiting, s)
  | some index =>
    match s.settings.networks.toList[index]? with
    | none =>
      log .error s!"SESSION: link up on unknown candidate {index}"
      return (.fatal .stationDriver, s)
    | some network =>
      let peer := network.peerAt s.settings.peerPort
      match ← dialFrom index peer (← get).dials s with
      | (.ended e, s) => return (e, s)
      | (.connected x, s) =>
        log .debug ("SESSION: connected to " ++ peer.text)
        let (outcome, s) ← serveConnection s x
        return (.done outcome, s)

def serveOnce (s : Session) : Run ε κ τ (CycleEnd × Session) := do
  if ← Run.halting then return (.done .halted, s)
  serveLink s

end Session

end KeyFob
