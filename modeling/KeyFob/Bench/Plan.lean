import KeyFob.Device

/-!
Surroundings that follow a plan: what happens at which time, which calls to the station fail, and how the volume takes
being released.
-/

namespace KeyFob.Bench

inductive Planned
  | act (a : Action)
  | setClock (now : Nat)
deriving DecidableEq, Repr

structure Timed where
  due : Nat
  planned : Planned
deriving DecidableEq, Repr

inductive StationCall
  | apply
  | connect
deriving DecidableEq, Repr

/-- After so many calls of one kind every later one fails. -/
structure StationFault where
  call : StationCall
  after : Nat
  rc : Int
deriving DecidableEq, Repr

inductive Station
  | planned (fault : Option StationFault)
  | radio (r : Radio)
deriving DecidableEq, Repr

structure HeldVolume where
  mounted : Bool := true
  unmountRc : Option Int := none
deriving DecidableEq, Repr

structure Plan where
  now : Nat := 0
  timed : List Timed := []
  station : Station := .planned none
  volume : HeldVolume := {}
  /-- With the event that brings this count to zero, somebody presses for a restart. -/
  eventsToHalt : Option Nat := none
deriving DecidableEq, Repr

/-- Goes through the timed actions once, with the clock as each one finds it. -/
def due (now : Nat) : List Timed → Nat × List Action × List Timed
  | [] => (now, [], [])
  | t :: rest =>
    if t.due ≤ now then
      match t.planned with
      | .act a =>
        let (now, actions, later) := due now rest
        (now, a :: actions, later)
      | .setClock now => due now rest
    else
      let (now, actions, later) := due now rest
      (now, actions, t :: later)

namespace Plan

def elapse (ms : Nat) (p : Plan) : List Action × Plan :=
  let (now, actions, timed) := due (p.now + ms) p.timed
  (actions, { p with now, timed })

def told (p : Plan) : List Action × Plan :=
  match p.eventsToHalt with
  | some 1 => ([.restart .hardReset], { p with eventsToHalt := none })
  | some (n + 1) => ([], { p with eventsToHalt := some n })
  | _ => ([], p)

def stationCall (call : StationCall) (error : Int → StationError) (f : Option StationFault) :
    Except StationError Unit × Option StationFault :=
  match f with
  | some f =>
    if f.call = call then
      match f.after with
      | 0 => (.error (error f.rc), some f)
      | n + 1 => (.ok (), some { f with after := n })
    else (.ok (), some f)
  | none => (.ok (), none)

instance : Surroundings Plan where
  uptime p := p.now
  elapse := elapse
  told _ p := p.told
  meanwhile p := ([], p)
  apply n p := match p.station with
    | .planned f =>
      let (r, f) := stationCall .apply .invalidConfig f
      (r, { p with station := .planned f })
    | .radio r => (.ok (), { p with station := .radio (r.apply n) })
  connect q p := match p.station with
    | .planned f =>
      let (r, f) := stationCall .connect .connectFailed f
      (r, q, [], { p with station := .planned f })
    | .radio r =>
      let called := r.connect q
      (called.result, called.queue, called.lines, { p with station := .radio called.radio })
  mounted p := p.volume.mounted
  unmount p := match p.volume.unmountRc with
    | some rc => (.error (.unmountFailed rc), [], p)
    | none => (.ok (), [], { p with volume := { p.volume with mounted := false } })

/-- More rounds than it takes until everything planned has come to pass, if each of them lets `periodMs` go by. -/
def horizon (p : Plan) (periodMs : Nat) : Nat :=
  p.timed.foldr (·.due + ·) 0 / max periodMs 1 + p.timed.length + 2

end Plan

end KeyFob.Bench
