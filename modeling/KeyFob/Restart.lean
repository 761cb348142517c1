/-!
Controlled restarts: why the fob restarts, and the request that the tasks race for. The first request wins; its reason
is handed to the coordinator once.
-/

namespace KeyFob.Restart

inductive Reason
  | volumeMount
  | storageInit
  | peripheralInit
  | provisioningFailed
  | socketAllocation
  | stationDriver
  | taskPanic
  | hardReset
deriving DecidableEq, Repr

namespace Reason

def all : List Reason :=
  [volumeMount, storageInit, peripheralInit, provisioningFailed, socketAllocation, stationDriver, taskPanic, hardReset]

def index : Reason → Nat
  | volumeMount => 0
  | storageInit => 1
  | peripheralInit => 2
  | provisioningFailed => 3
  | socketAllocation => 4
  | stationDriver => 5
  | taskPanic => 6
  | hardReset => 7

def ofIndex? (n : Nat) : Option Reason := all[n]?

/-- Every reason but the operator's own is an error, and is counted down to. -/
def isFatal (r : Reason) : Bool := r != hardReset

def name : Reason → String
  | volumeMount => "VolumeMount"
  | storageInit => "StorageInit"
  | peripheralInit => "PeripheralInit"
  | provisioningFailed => "ProvisioningFailed"
  | socketAllocation => "SocketAllocation"
  | stationDriver => "StationDriver"
  | taskPanic => "TaskPanic"
  | hardReset => "HardReset"

def named? (s : String) : Option Reason := all.find? (·.name == s)

def text : Reason → String
  | volumeMount => "volume mount failed"
  | storageInit => "storage init failed"
  | peripheralInit => "peripheral init failed"
  | provisioningFailed => "provisioning failed"
  | socketAllocation => "socket allocation failed"
  | stationDriver => "station driver error"
  | taskPanic => "task panic"
  | hardReset => "hard reset"

theorem ofIndex?_index (r : Reason) : ofIndex? r.index = some r := by cases r <;> rfl

theorem index_of_ofIndex? {n : Nat} {r : Reason} (h : ofIndex? n = some r) : r.index = n := by
  match n with
  | 0 | 1 | 2 | 3 | 4 | 5 | 6 | 7 => injection h with h; subst h; rfl
  | n + 8 => simp [ofIndex?, all] at h

end Reason

/-- `halting` is set by the first request and stays set; `pending` holds its reason until the coordinator takes it. -/
structure Request where
  halting : Bool := false
  pending : Option Reason := none
deriving DecidableEq, Repr

namespace Request

/-- Halts, and tells whether somebody had done so before. -/
def halt (q : Request) : Bool × Request := (q.halting, { q with halting := true })

def signal (q : Request) (r : Reason) : Request := { q with pending := some r }

def request (q : Request) (r : Reason) : Request :=
  let (before, q) := q.halt
  if before then q else q.signal r

def take (q : Request) : Option Reason × Request := (q.pending, { q with pending := none })

theorem halting_request (q : Request) (r : Reason) : (q.request r).halting = true := by
  obtain ⟨halting, pending⟩ := q
  cases halting <;> rfl

theorem request_of_halting (q : Request) (r : Reason) (h : q.halting) : q.request r = q := by
  obtain ⟨halting, pending⟩ := q
  cases h
  rfl

theorem request_of_open (q : Request) (r : Reason) (h : q.halting = false) : q.request r = ⟨true, some r⟩ := by
  obtain ⟨halting, pending⟩ := q
  cases h
  rfl

theorem pending_request (q : Request) (r : Reason) (h : ¬ q.halting) : (q.request r).pending = some r := by
  obtain ⟨halting, pending⟩ := q
  cases halting
  · rfl
  · exact absurd rfl h

end Request

end KeyFob.Restart
