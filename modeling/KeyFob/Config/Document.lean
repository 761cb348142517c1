import KeyFob.Config.Settings
import KeyFob.Json.Parser

/-!
Settings as a JSON document. A record is an object, or an array of its fields in the order of their declaration.
Unknown members are skipped; a known one must not appear twice. The settings themselves may leave out any field, which
then keeps its default; the records inside them must be complete.
-/

namespace KeyFob.Config

open Json (Value)

def namesOnce (names : List String) (members : List (String × Value)) : Bool :=
  names.all fun name => (members.filter (·.1 == name)).length ≤ 1

/-- The named members of a record. Items of an array get the names in order. -/
def record? (names : List String) : Value → Option (List (String × Value))
  | .object members => do
    let members ← members.mapM fun (name, v) => (Json.text? name).map fun cs => (String.ofList cs, v)
    if namesOnce names members then some members else none
  | .array items => if items.length ≤ names.length then some (names.zip items) else none
  | _ => none

def required {α : Type} (members : List (String × Value)) (name : String) (read : Value → Option α) : Option α :=
  (members.lookup name).bind read

def optional {α : Type} (members : List (String × Value)) (name : String) (fallback : α) (read : Value → Option α) :
    Option α :=
  match members.lookup name with
  | none => some fallback
  | some v => read v

def byte? (v : Value) : Option UInt8 := (v.nat? UInt8.size).map UInt8.ofNat
def word? (v : Value) : Option UInt16 := (v.nat? UInt16.size).map UInt16.ofNat
def long? (v : Value) : Option UInt32 := (v.nat? UInt32.size).map UInt32.ofNat

def Address.ofValue? (v : Value) : Option Address := do
  match ← v.items? with
  | [a, b, c, d] => some ⟨← byte? a, ← byte? b, ← byte? c, ← byte? d⟩
  | _ => none

def Network.fields : List String := ["ssid", "password", "peer"]

def Network.ofValue? (v : Value) : Option Network := do
  let members ← record? fields v
  let name ← required members "ssid" fun v => v.text?.bind BoundedText.ofString?
  let password ← required members "password" fun v => v.text?.bind BoundedText.ofString?
  let peer ← required members "peer" Address.ofValue?
  some ⟨name, password, peer⟩

def NetworkList.ofValue? (v : Value) : Option NetworkList := do
  NetworkList.ofList? (← (← v.items?).mapM Network.ofValue?)

def ConfirmPolicy.fields : List String := ["iterations", "half_period_ms"]

def ConfirmPolicy.ofValue? (v : Value) : Option ConfirmPolicy := do
  let members ← record? fields v
  some ⟨← required members "iterations" long?, ← required members "half_period_ms" long?⟩

namespace Settings

def fields : List String :=
  ["networks", "peer_port", "confirm", "lockout_warn_threshold", "connect_backoff_ms", "reset_poll_ms",
    "link_blink_ms", "restart_countdown_secs", "reinit_on_restore_failure"]

/-- Settings as they are written, not yet held to the rules. -/
def ofValue? (v : Value) : Option Settings := do
  let members ← record? fields v
  some {
    networks := ← optional members "networks" default.networks NetworkList.ofValue?
    peerPort := ← optional members "peer_port" default.peerPort word?
    confirm := ← optional members "confirm" default.confirm ConfirmPolicy.ofValue?
    lockoutWarnThreshold := ← optional members "lockout_warn_threshold" default.lockoutWarnThreshold long?
    connectBackoffMs := ← optional members "connect_backoff_ms" default.connectBackoffMs long?
    resetPollMs := ← optional members "reset_poll_ms" default.resetPollMs long?
    linkBlinkMs := ← optional members "link_blink_ms" default.linkBlinkMs long?
    restartCountdownSecs := ← optional members "restart_countdown_secs" default.restartCountdownSecs long?
    reinitOnRestoreFailure :=
      ← optional members "reinit_on_restore_failure" default.reinitOnRestoreFailure Value.bool? }

def ofJson (text : String) : Except ConfigError Settings :=
  match (Json.parse? text).bind ofValue? with
  | some s => s.validated
  | none => .error .corrupted

end Settings

end KeyFob.Config
