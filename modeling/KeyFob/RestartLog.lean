import KeyFob.Packed
import KeyFob.Restart
import KeyFob.Storage

/-!
The last four restarts, kept in a ring of slots in the store. The number of the slot that is next to be written is kept
beside them.
-/

namespace KeyFob

/-- When and why the fob restarted. -/
structure RestartRecord where
  uptimeMs : UInt64
  reason : Restart.Reason
deriving DecidableEq, Repr

namespace RestartRecord

def text (r : RestartRecord) : String := r.reason.text ++ s!" after {r.uptimeMs.toNat} ms"

def encode (r : RestartRecord) : Bytes := Packed.encodeNat r.uptimeMs.toNat ++ Packed.encodeNat r.reason.index

def reader : Packed.Reader RestartRecord := do
  let uptimeMs ← Packed.u64
  let some reason := Restart.Reason.ofIndex? (← Packed.nat 32) | failure
  return ⟨uptimeMs, reason⟩

def decode? (bs : Bytes) : Option RestartRecord := (reader bs).map (·.1)

end RestartRecord

/-- The ring knows the slot that the next record goes to. -/
structure RestartLog where
  next : Nat := 0
deriving DecidableEq, Repr

namespace RestartLog

def space : String := "restart"
def nextKey : String := "restart_idx"
def slots : Nat := 4
def slotKey (n : Nat) : String := s!"r{n}"

def recordSize : Nat := 32

def encodeNext (n : Nat) : Bytes :=
  [UInt8.ofNat n, UInt8.ofNat (n / 256), UInt8.ofNat (n / 65536), UInt8.ofNat (n / 16777216)]

/-- The slot that a stored number means: only exactly four bytes are a number, and it counts around the ring. -/
def decodeNext? : Bytes → Option Nat
  | [a, b, c, d] => some ((a.toNat + 256 * b.toNat + 65536 * c.toNat + 16777216 * d.toNat) % slots)
  | _ => none

variable {κ : Type} [Storage κ]

def load (l : RestartLog) : OnShelf κ RestartLog := do
  match ← OnShelf.read space nextKey 4 with
  | .ok bs => return match decodeNext? bs with
    | some n => ⟨n⟩
    | none => l
  | .error _ => return l

/-- Writes a record to the next slot and moves on, even if the record could not be written. -/
def record (l : RestartLog) (r : RestartRecord) : OnShelf κ RestartLog := do
  match ← OnShelf.write space (slotKey l.next) r.encode with
  | .ok () => pure ()
  | .error e => OnShelf.log .warn .diagnostics ("DIAG: restart record not persisted: " ++ e.message)
  let next := (l.next + 1) % slots
  let _ ← OnShelf.write space nextKey (encodeNext next)
  return ⟨next⟩

def readSlot (n : Nat) : OnShelf κ (Option RestartRecord) := do
  match ← OnShelf.read space (slotKey n) recordSize with
  | .ok bs => return RestartRecord.decode? bs
  | .error _ => return none

def readFrom (slot : Nat) : Nat → OnShelf κ (List RestartRecord)
  | 0 => return []
  | n + 1 => do
    let r ← readSlot (slot % slots)
    let rest ← readFrom (slot + 1) n
    return r.toList ++ rest

/-- All records from the next slot on, around the ring: oldest first, if each was written to its slot. -/
def all (l : RestartLog) : OnShelf κ (List RestartRecord) := readFrom l.next slots

/-- The record in front of the next slot: why the fob restarted last, if that could be written. -/
def latest (l : RestartLog) : OnShelf κ (Option RestartRecord) := readSlot ((l.next + slots - 1) % slots)

def eraseFrom (slot : Nat) : Nat → OnShelf κ Unit
  | 0 => return ()
  | n + 1 => do
    let _ ← OnShelf.delete space (slotKey slot)
    eraseFrom (slot + 1) n

def clear : OnShelf κ RestartLog := do
  eraseFrom 0 slots
  let _ ← OnShelf.delete space nextKey
  return {}

end RestartLog

end KeyFob
