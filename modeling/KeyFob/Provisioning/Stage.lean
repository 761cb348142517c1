/-!
The stages of a boot, from its start until the fob is ready or has failed.
-/

namespace KeyFob.Provisioning

inductive Stage
  | start
  | initializing
  | restoring
  | ready
  | failed
deriving DecidableEq, Repr

def Stage.name : Stage → String
  | start => "Start"
  | initializing => "Initializing"
  | restoring => "Restoring"
  | ready => "Ready"
  | failed => "Failed"

end KeyFob.Provisioning
