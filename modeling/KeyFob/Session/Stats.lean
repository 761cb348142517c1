/-!
What a session counts: outcomes of its cycles, and how long challenges take.
-/

namespace KeyFob.Session

structure Stats where
  served : UInt32 := 0
  lockouts : UInt32 := 0
  consecutiveLockouts : UInt32 := 0
  connectFailures : UInt32 := 0
  writeFailures : UInt32 := 0
  emptyExchanges : UInt32 := 0
deriving DecidableEq, Repr

namespace Stats

def recordServed (s : Stats) : Stats := { s with served := s.served + 1 }

def recordConfirmed (s : Stats) : Stats := { s with consecutiveLockouts := 0 }

/-- The streak stops growing at its largest number; the total starts over. -/
def recordLockout (s : Stats) : Stats :=
  { s with
    lockouts := s.lockouts + 1
    consecutiveLockouts := if s.consecutiveLockouts = 0xFFFFFFFF then 0xFFFFFFFF else s.consecutiveLockouts + 1 }

def recordConnectFailure (s : Stats) : Stats := { s with connectFailures := s.connectFailures + 1 }

def recordWriteFailure (s : Stats) : Stats := { s with writeFailures := s.writeFailures + 1 }

def recordEmpty (s : Stats) : Stats := { s with emptyExchanges := s.emptyExchanges + 1 }

end Stats

/-- The count and the total duration of the challenges so far. Both stop at the largest number. -/
structure Timing where
  count : UInt32 := 0
  totalMs : Nat := 0
deriving DecidableEq, Repr

namespace Timing

def maxTotal : Nat := UInt64.size - 1

def averageMs (t : Timing) : Nat := if t.count = 0 then 0 else t.totalMs / t.count.toNat

def record (t : Timing) (elapsedMs : Nat) : Timing where
  count := if t.count = 0xFFFFFFFF then 0xFFFFFFFF else t.count + 1
  totalMs := min (t.totalMs + elapsedMs) maxTotal

def text (t : Timing) (elapsedMs : Nat) : String :=
  s!"TIMING: GET CHALLENGE {elapsedMs} ms (avg {t.averageMs} ms over {t.count.toNat})"

end Timing

end KeyFob.Session
