import KeyFob.Token
import KeyFob.Token.Digest
import KeyFob.Token.Entropy

/-!
A token in software. It keeps a secret of 32 bytes and a PIN in the store, together with the number of PIN retries that
are left, and answers four instructions: a challenge of random bytes, PIN verification, and two keyed digests, of which
the signature also needs a verified PIN. Chained parts are collected and stand in front of the next command's data.
-/

namespace KeyFob

open Card (Command Response StatusWord)

structure SoftToken where
  secret : Option Bytes := none
  pin : Bytes := []
  retries : UInt8 := 3
  verified : Bool := false
  /-- The data of the chained parts so far. -/
  chain : Bytes := []
  entropy : Entropy

namespace SoftToken

variable {κ : Type}

def space : String := "token"
def secretKey : String := "secret"
def pinKey : String := "pin"
def retriesKey : String := "pin_retries"

def secretLength : Nat := 32
def maxPin : Nat := 16
def maxRetries : UInt8 := 3

def defaultPin : Bytes := [0x31, 0x32, 0x33, 0x34, 0x35, 0x36]

def signParameters : Nat := 0x9E9A

/-- Each digest starts with the name of its use, so that no answer to one instruction serves the other. -/
def signLabel : Bytes := "netkey/pso".toByteArray.data.toList
def authLabel : Bytes := "netkey/auth".toByteArray.data.toList

def log (level : Level) (message : String) : OnShelf κ Unit := OnShelf.log level .token message

def joinData? (chain data : Bytes) : Option Bytes :=
  if chain.length + data.length ≤ Card.maxData then some (chain ++ data) else none

def challenge (t : SoftToken) (c : Command) (r : Response := .empty) : Response × SoftToken :=
  if c.le = 0 ∨ Response.capacity - 2 < c.le then (.ofStatus .wrongLength, t)
  else
    let (bytes, entropy) := t.entropy.draw c.le
    (r.fill bytes, { t with entropy })

def persistRetries [Storage κ] (t : SoftToken) : OnShelf κ Unit := do
  match ← OnShelf.write space retriesKey [t.retries] with
  | .ok () => pure ()
  | .error e => log .warn ("TOKEN: retry counter not persisted: " ++ e.message)

def pinStatus (t : SoftToken) : StatusWord := if t.verified then .success else .verifyFailed t.retries

/-- Compares a PIN. A wrong one costs a retry, a right one brings all of them back, and without data the state is
queried. -/
def verify [Storage κ] (t : SoftToken) (data : Bytes) : OnShelf κ (Response × SoftToken) := do
  if t.retries = 0 then return (.ofStatus .authMethodBlocked, t)
  if data = [] then return (.ofStatus t.pinStatus, t)
  if data = t.pin then
    let refilled := { t with verified := true, retries := maxRetries }
    if t.retries ≠ maxRetries then refilled.persistRetries
    return (.ofStatus .success, refilled)
  let t := { t with verified := false, retries := t.retries - 1 }
  t.persistRetries
  log .warn s!"TOKEN: wrong PIN, {t.retries.toNat} retries left"
  return (.ofStatus (.verifyFailed t.retries), t)

def digest (t : SoftToken) (label data : Bytes) (r : Response := .empty) : Response :=
  if data = [] then .ofStatus .wrongLength
  else match t.secret with
    | none => .ofStatus .securityStatusNotSatisfied
    | some secret => r.fill (Digest.hmac secret (label ++ data))

def sign (t : SoftToken) (c : Command) (data : Bytes) (r : Response := .empty) : Response :=
  if c.p1p2 ≠ signParameters then .ofStatus .incorrectP1P2
  else if !t.verified then .ofStatus .securityStatusNotSatisfied
  else t.digest signLabel data r

/-- Answers an unchained command whose data, chained parts included, is given. -/
def execute [Storage κ] (t : SoftToken) (c : Command) (data : Bytes) (r : Response := .empty) :
    OnShelf κ (Response × SoftToken) := do
  if c.ins = Card.Ins.getChallenge then return t.challenge c r
  if c.ins = Card.Ins.verify then return ← t.verify data
  if c.ins = Card.Ins.performSecurityOperation then return (t.sign c data r, t)
  if c.ins = Card.Ins.internalAuthenticate then return (t.digest authLabel data r, t)
  log .debug ("TOKEN: INS " ++ Hex.byte c.ins ++ " not supported")
  return (.ofStatus .insNotSupported, t)

def process [Storage κ] (c : Command) (t : SoftToken) (r : Response := .empty) : OnShelf κ (Response × SoftToken) := do
  if t.secret.isNone then return (.ofStatus .securityStatusNotSatisfied, t)
  let whole := joinData? t.chain c.data
  let emptied := { t with chain := [] }
  if c.isChained then
    match whole with
    | some chain => return (.ofStatus .success, { t with chain })
    | none => return (.ofStatus .wrongLength, emptied)
  if c.cla ≠ 0 then return (.ofStatus .claNotSupported, emptied)
  match whole with
  | some data => emptied.execute c data r
  | none => return (.ofStatus .wrongLength, emptied)

def invalidate (t : SoftToken) : OnShelf κ SoftToken := do
  if t.verified || !t.chain.isEmpty then log .debug "TOKEN: session state dropped"
  return { t with verified := false, chain := [] }

/-- Stores the three values one after another; the first that fails ends the attempt. -/
def storeAll [Storage κ] (secret : Bytes) : OnShelf κ (Except StorageError Unit) := do
  match ← OnShelf.write space secretKey secret with
  | .error e => return .error e
  | .ok () =>
    match ← OnShelf.write space pinKey defaultPin with
    | .error e => return .error e
    | .ok () => OnShelf.write space retriesKey [maxRetries]

/-- Takes over what was made or read, the secret first. A PIN that does not fit ends it there. -/
def adopt (t : SoftToken) (secret pin : Bytes) (retries : UInt8) (message : String) :
    OnShelf κ (Except ProvisionError Unit × SoftToken) := do
  let t := { t with secret := some secret }
  if maxPin < pin.length then return (.error .corrupted, t)
  log .info message
  return (.ok (), { t with pin, retries })

def generate [Storage κ] (t : SoftToken) : OnShelf κ (Except ProvisionError Unit × SoftToken) := do
  let (secret, entropy) := t.entropy.draw secretLength
  let t := { t with entropy }
  match ← storeAll secret with
  | .error e => return (.error (.storage e), t)
  | .ok () => t.adopt secret defaultPin maxRetries "TOKEN: device secret generated"

/-- What a value that the token cannot do without means if reading it fails. -/
def readFailure : StorageError → ProvisionError
  | .notFound => .missingState
  | e => .storage e

def loadSecret [Storage κ] : OnShelf κ (Except ProvisionError Bytes) := do
  match ← OnShelf.read space secretKey secretLength with
  | .error e => return .error (readFailure e)
  | .ok bytes => return if bytes.length = secretLength then .ok bytes else .error .corrupted

def loadPin [Storage κ] : OnShelf κ (Except ProvisionError Bytes) := do
  match ← OnShelf.read space pinKey maxPin with
  | .error e => return .error (readFailure e)
  | .ok bytes => return if bytes = [] then .error .corrupted else .ok bytes

/-- A counter that was never stored is full; a stored one cannot exceed that. -/
def loadRetries [Storage κ] : OnShelf κ (Except ProvisionError UInt8) := do
  match ← OnShelf.read space retriesKey 1 with
  | .error .notFound => return .ok maxRetries
  | .error e => return .error (.storage e)
  | .ok [n] => return .ok (if n < maxRetries then n else maxRetries)
  | .ok _ => return .error .corrupted

/-- Reads everything before anything of the token changes. -/
def load [Storage κ] : OnShelf κ (Except ProvisionError (Bytes × Bytes × UInt8)) := do
  match ← loadSecret with
  | .error e => return .error e
  | .ok secret =>
    match ← loadPin with
    | .error e => return .error e
    | .ok pin =>
      match ← loadRetries with
      | .error e => return .error e
      | .ok retries => return .ok (secret, pin, retries)

def restore [Storage κ] (t : SoftToken) : OnShelf κ (Except ProvisionError Unit × SoftToken) := do
  match ← load with
  | .error e => return (.error e, t)
  | .ok (secret, pin, retries) =>
    t.adopt secret pin retries s!"TOKEN: device secret restored ({retries.toNat} PIN retries)"

instance [Storage κ] : Token κ SoftToken where
  process c buffer t := do
    let (response, t) ← process c t buffer.clear
    return (⟨response, none⟩, t)
  invalidate := invalidate
  generate := generate
  restore := restore

end SoftToken

end KeyFob
