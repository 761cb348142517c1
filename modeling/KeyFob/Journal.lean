import KeyFob.Card.Command
import KeyFob.Card.Response
import KeyFob.Config.Network
import KeyFob.Event
import KeyFob.Signals
import KeyFob.Storage

/-!
The journal of a run: everything that the fob does to the world around it, and what the world does to the signals, in
the order in which it happens. Statements about what a run does are statements about its journal.
-/

namespace KeyFob

inductive Led
  | activity
  | link
deriving DecidableEq, Repr

inductive TransportError
  | io
  | closed
deriving DecidableEq, Repr

def TransportError.message : TransportError → String
  | io => "socket I/O error"
  | closed => "connection closed"

inductive DialError
  /-- No local socket could be had. -/
  | allocate
  /-- The peer refused or could not be reached. -/
  | connect
deriving DecidableEq, Repr

def DialError.message : DialError → String
  | allocate => "failed to allocate socket"
  | connect => "peer unreachable"

inductive Gate.Outcome
  | bypassed
  | confirmed (waitedMs : Nat)
  | lockedOut
deriving DecidableEq, Repr

inductive Entry
  | note (n : Note)
  | led (led : Led) (on : Bool)
  | delay (ms : Nat)
  /-- A button or a task changed the signals. -/
  | acted (action : Action)
  | emit (event : Event)
  | dial (peer : Config.Endpoint) (result : Except DialError Unit)
  | receive (result : Except TransportError Bytes)
  | write (bytes : Bytes)
  | close
  | apply (network : Config.Network)
  | connect
  | unmount
  | systemRestart
  | process (command : Card.Command)
  | answered (response : Card.Response)
  | invalidate
  | generate
  | restore
  | readLink (index : Option Nat)
  | readEpoch (epoch : UInt32)
  /-- The gate begins to judge a command. -/
  | judge (command : Card.Command)
  | judged (outcome : Gate.Outcome)
  | clearConfirm
  | takeConfirm (raised : Bool)

/-- Entries are kept newest first; `toList` is the journal as it reads. -/
structure Journal where
  reversed : List Entry := []

namespace Journal

def toList (j : Journal) : List Entry := j.reversed.reverse

def add (j : Journal) (e : Entry) : Journal := ⟨e :: j.reversed⟩

def addNotes (j : Journal) (ns : List Note) : Journal := ns.foldl (fun j n => j.add (.note n)) j

def lines (j : Journal) : List Line :=
  j.toList.filterMap fun
    | .note (.log l) => some l
    | _ => none

@[simp] theorem toList_add (j : Journal) (e : Entry) : (j.add e).toList = j.toList ++ [e] := by
  simp [add, toList]

@[simp] theorem toList_addNotes (j : Journal) (ns : List Note) :
    (j.addNotes ns).toList = j.toList ++ ns.map .note := by
  induction ns generalizing j with
  | nil => simp [addNotes]
  | cons n ns ih =>
    have : j.addNotes (n :: ns) = (j.add (.note n)).addNotes ns := rfl
    rw [this, ih]
    simp

end Journal

end KeyFob
