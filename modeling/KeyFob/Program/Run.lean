import KeyFob.Program.Boot

/-!
The program from its start to its end: a restart starts it over with the same arguments on the files that the boot
before left behind. If its own file is gone it cannot start over and ends.
-/

namespace KeyFob.Program

/-- What a finished run has shown, and the files it leaves. A program that still runs has no exit code. -/
structure Result where
  console : List Line
  code : Option Nat
  complaint : String := ""
  tree : FileTree

def restartFailedLines : List Line :=
  [⟨.error, .reexec, "RESTART | re-exec failed: " ++ FileError.noEntry.message⟩,
    ⟨.error, .reexec, "RESTART | exiting instead"⟩]

/-- Runs at most so many boots. The operator acts at the first one that becomes ready. -/
def runBoots (i : Invocation) : Nat → Option Operator → Entropy → FileTree → Result
  | 0, _, _, tree => { console := [], code := none, tree }
  | boots + 1, operator, entropy, tree =>
    let machine : Machine := { outside := {}, store := ⟨i.root, tree⟩, token := { entropy } }
    let (e, d) := boot i operator machine
    let shown := consoleLines d.journal
    let tree := d.store.tree
    match e with
    | .complains message => { console := shown, code := some 1, complaint := "Error: " ++ message ++ "\n", tree }
    | .runsOn => { console := shown, code := none, tree }
    | .restarts ready =>
      if ready && operator.any (·.removesProgram) then
        { console := shown ++ restartFailedLines, code := some 1, tree }
      else
        let next := runBoots i boots (if ready then none else operator) d.token.entropy tree
        { next with console := shown ++ next.console }

/-- The most boots that a run follows. A restored fob boots at most twice before it is ready: once if its secrets are
lost, and once more to make new ones. -/
def maxBoots : Nat := 4

def run (i : Invocation) (operator : Option Operator) (entropy : Entropy) (tree : FileTree) : Result :=
  runBoots i maxBoots operator entropy tree

end KeyFob.Program
