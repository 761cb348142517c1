import KeyFob.Journal
import KeyFob.Radio
import KeyFob.Token
import KeyFob.Volume

/-!
The fob at work. A `Device` holds everything a task can reach: the signals, the token and its store, the dials that are
still to be made, and the surroundings, of which nothing is known but how they answer. Each operation of this module is
one step of a task towards the outside and leaves its entry in the journal.

The surroundings act on the signals while time passes, when they are told of an event, and before every step in which a
task looks at the signals, calls on the gate or calls on the token. Every schedule of button presses and link changes is
some instance of `Surroundings`, and so is every interleaving of a task with the others.
-/

namespace KeyFob

structure Exchange where
  message : Bytes
  readMs : Nat := 0
  readError : Option TransportError := none
  writeError : Option TransportError := none
deriving DecidableEq, Repr

inductive Dial
  | fails (e : DialError)
  | connects (x : Exchange)
deriving DecidableEq, Repr

class Surroundings (ε : Type) where
  /-- Milliseconds since the fob started. -/
  uptime : ε → Nat
  /-- Time passes. -/
  elapse : Nat → ε → List Action × ε
  /-- An event is reported. -/
  told : Event → ε → List Action × ε
  /-- Others run between two steps of a task. -/
  meanwhile : ε → List Action × ε
  apply : Config.Network → ε → Except StationError Unit × ε
  /-- The station may put events into the queue. -/
  connect : LinkQueue → ε → Except StationError Unit × LinkQueue × List Line × ε
  mounted : ε → Bool
  unmount : ε → Except VolumeError Unit × List Line × ε

structure Device (ε κ τ : Type) where
  outside : ε
  store : κ
  token : τ
  signals : Signals := {}
  queue : LinkQueue := {}
  /-- What the next dials come to. Behind the last of them no socket can be had. -/
  dials : List Dial := []
  journal : Journal := {}

abbrev Run (ε κ τ α : Type) := StateM (Device ε κ τ) α

namespace Run

variable {ε κ τ : Type}

def add (e : Entry) : Run ε κ τ Unit := modify fun d => { d with journal := d.journal.add e }

def log (level : Level) (source : Part) (message : String) : Run ε κ τ Unit :=
  add (.note (.log ⟨level, source, message⟩))

def logLines (ls : List Line) : Run ε κ τ Unit :=
  modify fun d => { d with journal := d.journal.addNotes (ls.map .log) }

def setSignals (f : Signals → Signals) : Run ε κ τ Unit := modify fun d => { d with signals := f d.signals }

def act (a : Action) : Run ε κ τ Unit := do
  add (.acted a)
  setSignals fun s => a.apply s

def actAll : List Action → Run ε κ τ Unit
  | [] => pure ()
  | a :: rest => do
    act a
    actAll rest

def onShelf {α : Type} (f : OnShelf κ α) : Run ε κ τ α := fun d =>
  let (a, shelf) := f ⟨d.store, []⟩
  (a, { d with store := shelf.store, journal := d.journal.addNotes shelf.notes })

def led (l : Led) (on : Bool) : Run ε κ τ Unit := add (.led l on)

section outside

variable [Surroundings ε]

def uptime : Run ε κ τ Nat := do return Surroundings.uptime (← get).outside

def elapse (ms : Nat) : Run ε κ τ Unit := do
  let d ← get
  let (actions, outside) := Surroundings.elapse ms d.outside
  set { d with outside }
  actAll actions

def delay (ms : Nat) : Run ε κ τ Unit := do
  add (.delay ms)
  elapse ms

def meanwhile : Run ε κ τ Unit := do
  let d ← get
  let (actions, outside) := Surroundings.meanwhile d.outside
  set { d with outside }
  actAll actions

def signals : Run ε κ τ Signals := do
  meanwhile
  return (← get).signals

def halting : Run ε κ τ Bool := do return (← signals).halting

/-- The candidate that the link is up on. -/
def readLink : Run ε κ τ (Option Nat) := do
  let index := (← signals).link.current
  add (.readLink index)
  return index

def readEpoch : Run ε κ τ UInt32 := do
  let epoch := (← signals).epoch
  add (.readEpoch epoch)
  return epoch

def takeConfirm : Run ε κ τ Bool := do
  let raised := (← signals).confirm
  setSignals Signals.clear
  add (.takeConfirm raised)
  return raised

def clearConfirm : Run ε κ τ Unit := do
  meanwhile
  setSignals Signals.clear
  add .clearConfirm

def emit (e : Event) : Run ε κ τ Unit := do
  add (.emit e)
  let d ← get
  let (actions, outside) := Surroundings.told e d.outside
  set { d with outside }
  actAll actions

def apply (n : Config.Network) : Run ε κ τ (Except StationError Unit) := do
  add (.apply n)
  let d ← get
  let (r, outside) := Surroundings.apply n d.outside
  set { d with outside }
  return r

def connect : Run ε κ τ (Except StationError Unit) := do
  add .connect
  let d ← get
  let (r, queue, lines, outside) := Surroundings.connect d.queue d.outside
  set { d with outside, queue }
  logLines lines
  return r

def unmount : Run ε κ τ (Except VolumeError Unit) := do
  let d ← get
  if Surroundings.mounted d.outside then
    add .unmount
    let d ← get
    let (r, lines, outside) := Surroundings.unmount d.outside
    set { d with outside }
    logLines lines
    return r
  else return .ok ()

/-- One read from a connection: at most `size` bytes of the peer's message. -/
def receive (size : Nat) (x : Exchange) : Run ε κ τ (Except TransportError Bytes) := do
  elapse x.readMs
  let r := match x.readError with
    | some e => .error e
    | none => .ok (x.message.take size)
  add (.receive r)
  return r

end outside

def write (x : Exchange) (bytes : Bytes) : Run ε κ τ (Except TransportError Unit) := do
  add (.write bytes)
  return match x.writeError with
    | some e => .error e
    | none => .ok ()

def close : Run ε κ τ Unit := add .close

section token

variable [Token κ τ]

def withToken {α : Type} (f : τ → OnShelf κ (α × τ)) : Run ε κ τ α := do
  let (a, token) ← onShelf (f (← get).token)
  modify fun d => { d with token }
  return a

def invalidate [Surroundings ε] : Run ε κ τ Unit := do
  meanwhile
  add .invalidate
  withToken fun t => do return ((), ← Token.invalidate t)

def generate : Run ε κ τ (Except ProvisionError Unit) := do
  add .generate
  withToken Token.generate

def restore : Run ε κ τ (Except ProvisionError Unit) := do
  add .restore
  withToken Token.restore

/-- The token answers a command; if that takes it time, time passes. -/
def process [Surroundings ε] (c : Card.Command) (buffer : Card.Response) : Run ε κ τ Card.Response := do
  meanwhile
  add (.process c)
  let answer ← withToken (Token.process c buffer)
  match answer.takesMs with
  | some ms => elapse ms
  | none => pure ()
  add (.answered answer.response)
  return answer.response

end token

end Run

end KeyFob
