import KeyFob.Log

/-!
The four tasks of the fob: which core each runs on, how urgent it is, and how much stack it gets.
-/

namespace KeyFob

inductive Core
  | pro
  | app
deriving DecidableEq, Repr

def Core.name : Core → String
  | pro => "Pro"
  | app => "App"

/-- A task's name may end in NULs, which are not part of what is shown. -/
structure TaskSpec where
  name : String
  core : Core
  priority : UInt8
  stackKb : Nat
deriving DecidableEq, Repr

namespace TaskSpec

def displayName (t : TaskSpec) : String :=
  String.ofList (t.name.toList.reverse.dropWhile (· == Char.ofNat 0)).reverse

def link : TaskSpec := ⟨"link\x00", .pro, 6, 6⟩
def session : TaskSpec := ⟨"session\x00", .app, 5, 16⟩
def reset : TaskSpec := ⟨"reset\x00", .app, 3, 4⟩
def indicator : TaskSpec := ⟨"indicator\x00", .app, 2, 3⟩

def all : List TaskSpec := [link, session, reset, indicator]

/-- What is logged when a task starts. -/
def startLine (t : TaskSpec) : Line :=
  ⟨.info, .tasks, "Spawning '" ++ t.displayName ++ s!"' (sim, no core pinning, stack={t.stackKb}KB)"⟩

end TaskSpec

end KeyFob
