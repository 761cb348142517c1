import KeyFob.Bytes

/-!
A source of random bytes: an endless stream and how much of it has been used.
-/

namespace KeyFob

structure Entropy where
  stream : Nat → UInt8
  used : Nat := 0

namespace Entropy

def draw (n : Nat) (e : Entropy) : Bytes × Entropy :=
  ((List.range n).map fun i => e.stream (e.used + i), { e with used := e.used + n })

/-- A stream that scrambles positions: good enough to tell drawn values apart, and the same on every run. -/
def scrambled (seed : UInt64) : Entropy where
  stream i :=
    let z := seed + UInt64.ofNat (i + 1) * 0x9E3779B97F4A7C15
    let z := (z ^^^ (z >>> 30)) * 0xBF58476D1CE4E5B9
    let z := (z ^^^ (z >>> 27)) * 0x94D049BB133111EB
    (z ^^^ (z >>> 31)).toUInt8

theorem length_draw (n : Nat) (e : Entropy) : (e.draw n).1.length = n := by simp [draw]

end Entropy

end KeyFob
