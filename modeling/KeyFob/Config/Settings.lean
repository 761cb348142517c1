import KeyFob.Config.Network

/-!
The settings of a fob: the candidate networks in the order in which they are tried, the peer's port, and the length of
every wait.
-/

namespace KeyFob.Config

def maxNetworks : Nat := 8

/-- The wait for the button: so many pulses, each lit for half a period and dark for the other half. -/
structure ConfirmPolicy where
  iterations : UInt32
  halfPeriodMs : UInt32
deriving DecidableEq, Repr

/-- The length of the whole wait, in a word of 64 bits. What does not fit into that is lost. -/
def ConfirmPolicy.deadlineMs (p : ConfirmPolicy) : UInt64 := p.iterations.toUInt64 * 2 * p.halfPeriodMs.toUInt64

def checkedMul? (a b : UInt64) : Option UInt64 := if a.toNat * b.toNat < UInt64.size then some (a * b) else none

/-- The length of the whole wait where the arithmetic is checked: nothing comes of a product that does not fit. -/
def ConfirmPolicy.deadlineMs? (p : ConfirmPolicy) : Option UInt64 := do
  let halves ← checkedMul? p.iterations.toUInt64 2
  checkedMul? halves p.halfPeriodMs.toUInt64

structure NetworkList where
  toList : List Network
  fits : toList.length ≤ maxNetworks
deriving DecidableEq

def NetworkList.ofList? (l : List Network) : Option NetworkList :=
  if h : l.length ≤ maxNetworks then some ⟨l, h⟩ else none

theorem NetworkList.ofList?_toList (l : NetworkList) : ofList? l.toList = some l := by
  unfold ofList?
  rw [dif_pos l.fits]

structure Settings where
  networks : NetworkList
  peerPort : UInt16
  confirm : ConfirmPolicy
  /-- After so many lockouts in a row each further one is logged as a warning. -/
  lockoutWarnThreshold : UInt32
  /-- The wait before an unreachable peer is dialed again. -/
  connectBackoffMs : UInt32
  resetPollMs : UInt32
  linkBlinkMs : UInt32
  /-- The length of the countdown before a fatal restart. -/
  restartCountdownSecs : UInt32
  /-- Whether a failed restore erases the provisioned key, so that the next boot starts afresh. -/
  reinitOnRestoreFailure : Bool
deriving DecidableEq

namespace Settings

def defaultNetwork : Network := ⟨⟨"netkey", by decide⟩, ⟨"", by decide⟩, ⟨192, 168, 4, 2⟩⟩

def default : Settings where
  networks := ⟨[defaultNetwork], by decide⟩
  peerPort := 5511
  confirm := ⟨30, 250⟩
  lockoutWarnThreshold := 3
  connectBackoffMs := 5000
  resetPollMs := 4000
  linkBlinkMs := 500
  restartCountdownSecs := 3
  reinitOnRestoreFailure := true

def checkNetworks : List Network → Except Violation Unit
  | [] => .ok ()
  | n :: rest => do
    n.validate
    checkNetworks rest

/-- Judges the networks first, then the numbers in the order in which they are declared. -/
def validate (s : Settings) : Except Violation Unit := do
  if s.networks.toList = [] then throw .noNetworks
  checkNetworks s.networks.toList
  if s.peerPort = 0 then throw .zeroPort
  if s.confirm.iterations = 0 ∨ s.confirm.halfPeriodMs = 0 then throw .zeroConfirm
  if s.connectBackoffMs = 0 then throw .zeroBackoff
  if s.resetPollMs = 0 then throw .zeroPoll
  if s.linkBlinkMs = 0 then throw .zeroBlink

def validated (s : Settings) : Except ConfigError Settings :=
  match s.validate with
  | .ok () => .ok s
  | .error rule => .error (.validationFailed rule)

end Settings

end KeyFob.Config
