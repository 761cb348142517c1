import KeyFob.Text.Bounded

/-!
Candidate networks. Each names a wireless network, the password to join it with, and the peer that is reachable
through it. What makes a name or a password acceptable is said once here; a new candidate and a stored configuration
are held to the same rules.
-/

namespace KeyFob.Config

inductive Violation
  | noNetworks
  | tooManyNetworks
  | badName
  | nameTooLong
  | badPassword
  | passwordTooLong
  | zeroPort
  | zeroConfirm
  | zeroBackoff
  | zeroPoll
  | zeroBlink
  /-- A rule that is none of these. -/
  | other (text : String)
deriving DecidableEq, Repr

def Violation.message : Violation → String
  | noNetworks => "at least one candidate network is required"
  | tooManyNetworks => "too many candidate networks"
  | badName => "ssid must be 1-32 printable ASCII bytes"
  | nameTooLong => "ssid longer than 32 bytes"
  | badPassword => "password must be 8-64 bytes for WPA2, or empty for open"
  | passwordTooLong => "password longer than 64 bytes"
  | zeroPort => "peer_port must be non-zero"
  | zeroConfirm => "confirm iterations and half_period_ms must be non-zero"
  | zeroBackoff => "connect_backoff_ms must be non-zero"
  | zeroPoll => "reset_poll_ms must be non-zero"
  | zeroBlink => "link_blink_ms must be non-zero"
  | other text => text

inductive ConfigError
  | corrupted
  | validationFailed (rule : Violation)
  | storageFull
  | ioError
deriving DecidableEq, Repr

def ConfigError.message : ConfigError → String
  | corrupted => "config corrupted"
  | validationFailed rule => "validation failed: " ++ rule.message
  | storageFull => "storage full"
  | ioError => "I/O error"

structure Address where
  a : UInt8
  b : UInt8
  c : UInt8
  d : UInt8
deriving DecidableEq, Repr

def Address.text (p : Address) : String :=
  ".".intercalate [toString p.a.toNat, toString p.b.toNat, toString p.c.toNat, toString p.d.toNat]

structure Endpoint where
  address : Address
  port : UInt16
deriving DecidableEq, Repr

def Endpoint.text (e : Endpoint) : String := e.address.text ++ ":" ++ toString e.port.toNat

def isPrintable (c : Char) : Bool := 0x20 ≤ c.toNat && c.toNat ≤ 0x7E

def nameOk (s : String) : Bool := !s.isEmpty && s.utf8ByteSize ≤ 32 && s.toList.all isPrintable

/-- An empty password stands for an open network. -/
def passwordOk (s : String) : Bool := s.isEmpty || (8 ≤ s.utf8ByteSize && s.utf8ByteSize ≤ 64)

structure Network where
  name : BoundedText 32
  password : BoundedText 64
  peer : Address
deriving DecidableEq

namespace Network

def check (name password : String) : Except Violation Unit :=
  if !nameOk name then .error .badName
  else if !passwordOk password then .error .badPassword
  else .ok ()

def new (name password : String) (peer : Address) : Except Violation Network := do
  check name password
  match BoundedText.ofString? name, BoundedText.ofString? password with
  | some n, some p => .ok ⟨n, p, peer⟩
  | none, _ => .error .nameTooLong
  | _, none => .error .passwordTooLong

def peerAt (n : Network) (port : UInt16) : Endpoint := ⟨n.peer, port⟩

def isOpen (n : Network) : Bool := n.password.isEmpty

def validate (n : Network) : Except Violation Unit := check n.name.text n.password.text

end Network

end KeyFob.Config
