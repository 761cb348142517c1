import KeyFob.Log
import KeyFob.Signals

/-!
A task that panics asks for a restart, and says where and why.
-/

namespace KeyFob

structure Panic where
  /-- The name of the task's thread, if it has one. -/
  thread : Option String
  /-- What the panic says, if that can be read. -/
  message : Option String
deriving DecidableEq, Repr

namespace Panic

def line (p : Panic) : Line :=
  ⟨.error, .diagnostics, "PANIC in '" ++ p.thread.getD "?" ++ "': " ++ p.message.getD "unknown panic"⟩

def handle (_ : Panic) (s : Signals) : Signals := s.request .taskPanic

end Panic

end KeyFob
