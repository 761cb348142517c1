import KeyFob.Config.Settings
import KeyFob.Packed

/-!
Settings as they are stored: the packed form of all fields in the order of their declaration.
-/

namespace KeyFob.Config

def maxStored : Nat := 1024

def Network.encode (n : Network) : Bytes :=
  Packed.encodeText n.name.text ++ Packed.encodeText n.password.text ++ [n.peer.a, n.peer.b, n.peer.c, n.peer.d]

def Network.reader : Packed.Reader Network := do
  let name ← Packed.text
  let some name := BoundedText.ofString? name | failure
  let password ← Packed.text
  let some password := BoundedText.ofString? password | failure
  let a ← Packed.byte
  let b ← Packed.byte
  let c ← Packed.byte
  let d ← Packed.byte
  return ⟨name, password, ⟨a, b, c, d⟩⟩

namespace Settings

def encode (s : Settings) : Bytes :=
  Packed.encodeNat s.networks.toList.length ++ s.networks.toList.flatMap Network.encode ++
  Packed.encodeNat s.peerPort.toNat ++
  Packed.encodeNat s.confirm.iterations.toNat ++ Packed.encodeNat s.confirm.halfPeriodMs.toNat ++
  Packed.encodeNat s.lockoutWarnThreshold.toNat ++ Packed.encodeNat s.connectBackoffMs.toNat ++
  Packed.encodeNat s.resetPollMs.toNat ++ Packed.encodeNat s.linkBlinkMs.toNat ++
  Packed.encodeNat s.restartCountdownSecs.toNat ++ [if s.reinitOnRestoreFailure then 1 else 0]

def reader : Packed.Reader Settings := do
  let networks ← Packed.list maxNetworks Network.reader
  let some networks := NetworkList.ofList? networks | failure
  let peerPort ← Packed.u16
  let iterations ← Packed.u32
  let halfPeriodMs ← Packed.u32
  let lockoutWarnThreshold ← Packed.u32
  let connectBackoffMs ← Packed.u32
  let resetPollMs ← Packed.u32
  let linkBlinkMs ← Packed.u32
  let restartCountdownSecs ← Packed.u32
  let reinitOnRestoreFailure ← Packed.bool
  return { networks, peerPort, confirm := ⟨iterations, halfPeriodMs⟩, lockoutWarnThreshold, connectBackoffMs,
           resetPollMs, linkBlinkMs, restartCountdownSecs, reinitOnRestoreFailure }

def decode (bs : Bytes) : Except ConfigError Settings :=
  match reader bs with
  | some (s, _) => s.validated
  | none => .error .corrupted

end Settings

end KeyFob.Config
