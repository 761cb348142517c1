import KeyFob.Config.Network
import KeyFob.Device

/-!
One type for everything that can fail, and the reason for which a failure restarts the fob. A session recovers from an
unreachable peer and from a broken connection; every other failure is fatal.
-/

namespace KeyFob

inductive HardwareError
  | gpioConfigFailed (rc : Int)
  | isrInstallFailed (rc : Int)
deriving DecidableEq, Repr

namespace HardwareError

/-- What failed, without the number of the failure. -/
def subject : HardwareError → String
  | gpioConfigFailed _ => "GPIO config failed"
  | isrInstallFailed _ => "GPIO ISR service install failed"

def message : HardwareError → String
  | gpioConfigFailed rc => s!"GPIO config failed (rc={rc})"
  | isrInstallFailed rc => s!"GPIO ISR service install failed (rc={rc})"

end HardwareError

inductive Failure
  | storage (e : StorageError)
  | config (e : Config.ConfigError)
  | volume (e : VolumeError)
  | provision (e : ProvisionError)
  | station (e : StationError)
  | dial (e : DialError)
  | transport (e : TransportError)
  | init (subject : String)
deriving DecidableEq, Repr

namespace Failure

def ofHardware (e : HardwareError) : Failure := init e.subject

def message : Failure → String
  | storage e => "storage: " ++ e.message
  | config e => "config: " ++ e.message
  | volume e => "volume: " ++ e.message
  | provision e => "provisioning: " ++ e.message
  | station e => "station: " ++ e.message
  | dial e => "dial: " ++ e.message
  | transport e => "transport: " ++ e.message
  | init subject => "init: " ++ subject

def restartReason? : Failure → Option Restart.Reason
  | volume _ => some .volumeMount
  | storage _ | config _ => some .storageInit
  | init _ => some .peripheralInit
  | provision _ => some .provisioningFailed
  | station _ => some .stationDriver
  | dial .allocate => some .socketAllocation
  | dial .connect | transport _ => none

end Failure

end KeyFob
