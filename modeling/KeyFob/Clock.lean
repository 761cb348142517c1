/-!
The clock of the host, which counts microseconds.
-/

namespace KeyFob

structure Clock where
  micros : Nat := 0
deriving DecidableEq, Repr

namespace Clock

def uptimeMs (c : Clock) : Nat := c.micros / 1000

def delay (c : Clock) (ms : Nat) : Clock := ⟨c.micros + 1000 * ms⟩

theorem uptimeMs_delay (c : Clock) (ms : Nat) : (c.delay ms).uptimeMs = c.uptimeMs + ms := by
  simp only [delay, uptimeMs]
  omega

end Clock

end KeyFob
