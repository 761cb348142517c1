import KeyFob.Card.StatusWord
import KeyFob.Log
import KeyFob.Provisioning.Stage
import KeyFob.Restart

/-!
What the fob reports while it works, and the log line of each report.
-/

namespace KeyFob

inductive Event
  | linkAttempt (index : Nat)
  | linkUp (index : Nat)
  | linkDown (reason : UInt16)
  | lifecycle (source target : Provisioning.Stage)
  | peerUnreachable (backoffMs : UInt32)
  | exchangeEmpty
  | confirmationPending (ins : UInt8)
  | confirmed (ins : UInt8) (waitedMs : Nat)
  | lockedOut (ins : UInt8) (consecutive : UInt32)
  | served (ins : UInt8) (sw : UInt16) (length elapsedMs : Nat)
  | writeFailed (ins : UInt8)
  | hardResetRequested
  | restartRequested (reason : Restart.Reason)
deriving DecidableEq, Repr

namespace Event

def level : Event → Level
  | linkDown _ | peerUnreachable _ | lockedOut _ _ | writeFailed _ | hardResetRequested | restartRequested _ => .warn
  | _ => .info

def text : Event → String
  | linkAttempt i => s!"LINK | connecting candidate={i}"
  | linkUp i => s!"LINK | up candidate={i}"
  | linkDown reason => s!"LINK | down reason={reason.toNat}"
  | lifecycle source target => "STATE | " ++ source.name ++ " -> " ++ target.name
  | peerUnreachable ms => s!"PEER | unreachable, retry in {ms.toNat}ms"
  | exchangeEmpty => "APDU | empty exchange"
  | confirmationPending ins => "GATE | INS " ++ Hex.byte ins ++ " waiting for button"
  | confirmed ins ms => "GATE | INS " ++ Hex.byte ins ++ s!" confirmed after {ms}ms"
  | lockedOut ins n => "GATE | INS " ++ Hex.byte ins ++ s!" locked out (consecutive={n.toNat})"
  | served ins sw length ms =>
    "APDU | served INS " ++ Hex.byte ins ++ " | SW=" ++ Hex.word sw ++ s!" | {length}B | {ms}ms"
  | writeFailed ins => "APDU | response to INS " ++ Hex.byte ins ++ " not written"
  | hardResetRequested => "RESET | hard reset requested"
  | restartRequested reason => "RESTART | requested: " ++ reason.text

def line (e : Event) : Line := ⟨e.level, .eventLog, e.text⟩

end Event

end KeyFob
