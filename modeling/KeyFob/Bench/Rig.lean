import KeyFob.Bench.Masks
import KeyFob.Bench.Plan
import KeyFob.Bench.Stores
import KeyFob.Bench.Tokens
import KeyFob.Config.Store
import KeyFob.Tasks

/-!
A fob on the bench: a device in planned surroundings together with the components that are tried out on it one step at
a time.
-/

namespace KeyFob.Bench

open Config (Settings Violation)

structure Rig where
  device : Device Plan FaultyStore AnyToken
  settings : Settings
  manager : Except Violation Connectivity
  session : Session
  lifecycle : Lifecycle
  indicator : Indicator
  log : RestartLog := {}
  cursors : Cursor × Cursor := ({}, {})
  masks : Masks := {}

namespace Rig

def new (settings : Settings) (device : Device Plan FaultyStore AnyToken) : Rig where
  device := device
  settings := settings
  manager := Connectivity.new settings.networks
  session := { settings }
  lifecycle := { reinit := settings.reinitOnRestoreFailure }
  indicator := { blinkMs := settings.linkBlinkMs }

abbrev Step (α : Type) := StateM Rig α

def run {α : Type} (m : Run Plan FaultyStore AnyToken α) : Step α := fun rig =>
  let (a, device) := m rig.device
  (a, { rig with device })

def shelf {α : Type} (f : OnShelf FaultyStore α) : Step α := run (Run.onShelf f)

def setPlan (f : Plan → Plan) : Step Unit :=
  modify fun rig => { rig with device := { rig.device with outside := f rig.device.outside } }

def setStore (f : FaultyStore → FaultyStore) : Step Unit :=
  modify fun rig => { rig with device := { rig.device with store := f rig.device.store } }

def setToken (t : AnyToken) : Step Unit := modify fun rig => { rig with device := { rig.device with token := t } }

/-- Uses the store behind the planned faults. Only the log lines of it are kept. -/
def behindFaults {α : Type} (f : OnShelf Backing α) : Step α := do
  let (a, used) := f ⟨(← get).device.store.backing, []⟩
  setStore fun s => { s with backing := used.store }
  run (Run.logLines (used.notes.filterMap fun
    | .log l => some l
    | _ => none))
  return a

def clearJournal : Step Unit := modify fun rig => { rig with device := { rig.device with journal := {} } }

/-- Takes note of the random values in the journal. -/
def observe : Step Unit := modify fun rig =>
  match rig.device.token with
  | .soft t => { rig with masks := rig.masks.observe t Card.Command.none rig.device.journal.toList }
  | .scripted _ => rig

/-- More rounds of a waiting loop than it takes until everything planned has come to pass. -/
def rounds (periodMs : UInt32) : Step Nat := do
  let d := (← get).device
  return d.outside.horizon periodMs.toNat + d.store.pending

def advance (second : Bool) : Step Bool := do
  let rig ← get
  let epoch := rig.device.signals.epoch
  if second then
    let (moved, c) := rig.cursors.2.advance epoch
    set { rig with cursors := (rig.cursors.1, c) }
    return moved
  else
    let (moved, c) := rig.cursors.1.advance epoch
    set { rig with cursors := (c, rig.cursors.2) }
    return moved

def takeRestart : Step (Option Restart.Reason) := do
  let (pending, restart) := (← get).device.signals.restart.take
  run (Run.setSignals fun s => { s with restart })
  return pending

/-- A session would wait for ever: the link is down, and no restart is pending. -/
def wouldWait : Step Bool := do
  let s := (← get).device.signals
  return s.link.current.isNone && !s.halting

def serve : Step (Session.CycleEnd × Session) := do
  let (e, session) ← run (Session.serveOnce (← get).session)
  modify fun rig => { rig with session }
  return (e, session)

def runSession : Step (Session.LoopEnd × Session) := do
  let (e, session) ← run (Session.run (← get).session)
  modify fun rig => { rig with session }
  return (e, session)

def handle (c : Connectivity) (e : LinkEvent) : Step (Except StationError Unit × Connectivity) := do
  let (r, c) ← run (c.handle e)
  modify fun rig => { rig with manager := .ok c }
  return (r, c)

/-- Runs the link task on waiting events. With the event that brings `eventsToHalt` to zero a restart is requested.
Returns the number of events that are left. -/
def linkTask (c : Connectivity) (events : List LinkEvent) (eventsToHalt : Option Nat) : Step (Nat × Connectivity) := do
  setPlan fun p => { p with eventsToHalt }
  modify fun rig => { rig with device := { rig.device with queue := ⟨events⟩ } }
  let (_, c) ← run (Tasks.link c)
  setPlan fun p => { p with eventsToHalt := none }
  modify fun rig => { rig with manager := .ok c }
  return ((← get).device.queue.events.length, c)

def message (raw : Bytes) : Step Card.Response := do
  run (Run.logLines (Card.Command.receptionLines raw))
  let r ← run (Run.process (Card.Command.parse raw) .empty)
  observe
  return r

def provision : Step (Except ProvisionError Unit × Lifecycle) := do
  let (r, lifecycle) ← run (Lifecycle.run (← get).lifecycle)
  modify fun rig => { rig with lifecycle }
  return (r, lifecycle)

def monitor : Step Unit := do
  let pollMs := (← get).settings.resetPollMs
  let _ ← run (ResetMonitor.run pollMs (← rounds pollMs))

def setLog (f : RestartLog → OnShelf FaultyStore RestartLog) : Step Unit := do
  let log ← shelf (f (← get).log)
  modify fun rig => { rig with log }

def tick (up : Bool) : Step Unit := do
  let indicator ← run (Indicator.tick (← get).indicator up)
  modify fun rig => { rig with indicator }

def indicate : Step Unit := do
  let i := (← get).indicator
  let (_, indicator) ← run (i.run (← rounds i.blinkMs))
  modify fun rig => { rig with indicator }

end Rig

/-- All four tasks on one fob. The radio starts, the link task follows it until the link is up, and then the session
runs to its end, which wakes the link task once more. -/
structure Ensemble where
  device : Device Plan FaultyStore AnyToken
  linkEvents : List Event
  sessionEvents : List Event

namespace Ensemble

def eventsOf (j : Journal) : List Event :=
  j.toList.filterMap fun
    | .emit e => some e
    | _ => none

def run (settings : Settings) (device : Device Plan FaultyStore AnyToken) : Except Violation Ensemble := do
  let manager ← Connectivity.new settings.networks
  let queue := (Radio.start {} device.queue).queue
  let ((_, _), device) := Tasks.link manager { device with queue }
  let linkEvents := eventsOf device.journal
  let (_, device) := Tasks.session settings { device with journal := {} }
  return ⟨device, linkEvents, eventsOf device.journal⟩

end Ensemble

end KeyFob.Bench
