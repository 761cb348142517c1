import KeyFob.Session.Cycle

/-!
A session serves cycle after cycle until something calls for a restart.
-/

namespace KeyFob.Session

variable {ε κ τ : Type} [Surroundings ε] [Token κ τ]

/-- How a session ended: with a reason to restart, because a restart was pending, or not at all because the link is
down and stays so. -/
inductive LoopEnd
  | fatal (reason : Restart.Reason)
  | halted
  | waiting
deriving DecidableEq, Repr

/-- Serves cycles. Each cycle that is followed by another has made at least one dial, and once the dials are used up
the next one is refused. -/
def cycles (s : Session) (d : Device ε κ τ) : (LoopEnd × Session) × Device ε κ τ :=
  match serveOnce s d with
  | ((.done .halted, s), d') => ((.halted, s), d')
  | ((.fatal reason, s), d') => ((.fatal reason, s), d')
  | ((.waiting, s), d') => ((.waiting, s), d')
  | ((.done outcome, s), d') =>
    let d' := (log .debug ("SESSION: cycle ended " ++ outcome.text) d').2
    if d'.dials.length < d.dials.length then cycles s d' else ((.waiting, s), d')
termination_by d.dials.length

def run (s : Session) : Run ε κ τ (LoopEnd × Session) := do
  log .info s!"SESSION: serving peers on port {s.settings.peerPort.toNat}"
  cycles s

end KeyFob.Session
