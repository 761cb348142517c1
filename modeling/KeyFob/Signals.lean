import KeyFob.Restart

/-!
The words that the tasks share: the link word with its wake-up, the confirm and reset flags that the buttons raise, the
epoch that counts link transitions, and the restart request.
-/

namespace KeyFob

/-- The link word is 0 while the link is down and one more than the candidate's index while it is up. -/
structure Link where
  word : UInt32 := 0
  /-- A wake-up that nobody has waited for yet. -/
  wake : Bool := false
deriving DecidableEq, Repr

namespace Link

def store (l : Link) (word : UInt32) : Link := { l with word }

def signal (l : Link) : Link := { l with wake := true }

/-- The word is written before the wake-up is left, so that whoever wakes finds the link up. -/
def setUp (l : Link) (index : Nat) : Link := (l.store (UInt32.ofNat index + 1)).signal

/-- Going down wakes nobody. -/
def setDown (l : Link) : Link := l.store 0

def takeWake? (l : Link) : Option Link := if l.wake then some { l with wake := false } else none

def current (l : Link) : Option Nat := if l.word = 0 then none else some (l.word - 1).toNat

end Link

structure Cursor where
  seen : UInt32 := 0
deriving DecidableEq, Repr

def Cursor.advance (c : Cursor) (epoch : UInt32) : Bool × Cursor := (epoch != c.seen, ⟨epoch⟩)

structure Signals where
  link : Link := {}
  confirm : Bool := false
  reset : Bool := false
  epoch : UInt32 := 0
  restart : Restart.Request := {}
deriving DecidableEq, Repr

namespace Signals

def raise (s : Signals) : Signals := { s with confirm := true }

def clear (s : Signals) : Signals := { s with confirm := false }

def take (s : Signals) : Bool × Signals := (s.confirm, { s with confirm := false })

def pressReset (s : Signals) : Signals := { s with reset := true }

def bump (s : Signals) : Signals := { s with epoch := s.epoch + 1 }

def linkUp (s : Signals) (index : Nat) : Signals := { s with link := s.link.setUp index }

def linkDown (s : Signals) : Signals := { s with link := s.link.setDown }

def request (s : Signals) (r : Restart.Reason) : Signals := { s with restart := s.restart.request r }

def halting (s : Signals) : Bool := s.restart.halting

end Signals

inductive Action
  | raise
  | linkUp (index : Nat)
  | linkDown
  | bump
  | reset
  | restart (reason : Restart.Reason)
deriving DecidableEq, Repr

def Action.apply (s : Signals) : Action → Signals
  | .raise => s.raise
  | .linkUp i => s.linkUp i
  | .linkDown => s.linkDown
  | .bump => s.bump
  | .reset => s.pressReset
  | .restart r => s.request r

end KeyFob
