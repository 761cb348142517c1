import KeyFob.Config.Settings
import KeyFob.LinkQueue

/-!
The radio that joins a network: its errors, and a simulated one that gets an address for every attempt and reports it
through the link queue.
-/

namespace KeyFob

inductive StationError
  | invalidConfig (rc : Int)
  | connectFailed (rc : Int)
deriving DecidableEq, Repr

def StationError.message : StationError → String
  | invalidConfig rc => s!"station rejected config (rc={rc})"
  | connectFailed rc => s!"station connect failed (rc={rc})"

structure Radio where
  /-- The network name that was applied last. -/
  name : String := ""
  attempts : UInt32 := 0
deriving DecidableEq, Repr

structure Radio.Called where
  result : Except StationError Unit
  radio : Radio
  queue : LinkQueue
  lines : List Line := []

namespace Radio

def start (r : Radio) (q : LinkQueue) : Called where
  result := .ok ()
  radio := r
  queue := q.forward .stationStarted
  lines := ⟨.info, .radio, "WiFi(sim): station started"⟩ :: q.forwardLines .stationStarted

def apply (r : Radio) (n : Config.Network) : Radio := { r with name := n.name.text }

def connect (r : Radio) (q : LinkQueue) : Called :=
  if r.name = "" then ⟨.error (.invalidConfig (-1)), r, q, []⟩
  else
    let attempts := r.attempts + 1
    let message := "WiFi(sim): associated with '" ++ r.name ++ s!"' (attempt {attempts.toNat})"
    ⟨.ok (), { r with attempts }, q.forward .gotAddress, ⟨.info, .radio, message⟩ :: q.forwardLines .gotAddress⟩

end Radio

end KeyFob
