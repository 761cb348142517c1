import KeyFob.Log

/-!
Events of the radio link and the queue in which they wait for the link task. When the queue is full its backlog makes
way: only a waiting start of the station and the newest event stay.
-/

namespace KeyFob

inductive LinkEvent
  /-- The station is up, and the first attempt may begin. -/
  | stationStarted
  | gotAddress
  | disconnected (reason : UInt16)
deriving DecidableEq, Repr

def LinkEvent.text : LinkEvent → String
  | stationStarted => "StationStarted"
  | gotAddress => "GotAddress"
  | disconnected reason => "Disconnected \x7b reason: " ++ toString reason.toNat ++ " \x7d"

structure LinkQueue where
  events : List LinkEvent := []
deriving DecidableEq, Repr

namespace LinkQueue

def capacity : Nat := 8

def isFull (q : LinkQueue) : Bool := capacity ≤ q.events.length

def send? (q : LinkQueue) (e : LinkEvent) : Option LinkQueue :=
  if q.isFull then none else some ⟨q.events ++ [e]⟩

def receive? (q : LinkQueue) : Option (LinkEvent × LinkQueue) :=
  match q.events with
  | [] => none
  | e :: rest => some (e, ⟨rest⟩)

/-- What stays of a full queue when an event must get in. -/
def collapse (q : LinkQueue) (e : LinkEvent) : LinkQueue :=
  if q.events.contains .stationStarted ∧ e ≠ .stationStarted then ⟨[.stationStarted, e]⟩ else ⟨[e]⟩

/-- Adds an event, at the cost of the backlog if there is no room. -/
def forward (q : LinkQueue) (e : LinkEvent) : LinkQueue := (q.send? e).getD (q.collapse e)

/-- The warning that a backlog was given up. -/
def forwardLines (q : LinkQueue) (e : LinkEvent) : List Line :=
  if q.isFull then
    [⟨.warn, .radio, s!"WiFi: link event queue full, collapsed {q.events.length} queued event(s) behind {e.text}"⟩]
  else []

end LinkQueue

end KeyFob
