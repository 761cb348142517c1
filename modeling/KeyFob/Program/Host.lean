import KeyFob.Button
import KeyFob.Config.Document
import KeyFob.Config.Store
import KeyFob.Failure
import KeyFob.Pins
import KeyFob.Storage.Files
import KeyFob.TaskSpec
import KeyFob.Tasks
import KeyFob.Token.Soft

/-!
The fob as a program on a host: its store is a directory, its volume another one, its radio is simulated, and whatever
it reports goes to the console.
-/

namespace KeyFob.Program

/-- The host as the fob's surroundings. The operator acts between the tasks, so nothing happens while time passes. -/
structure Host where
  now : Nat := 0
  radio : Radio := {}
  volume : Volume := { root := Volume.defaultRoot }
deriving DecidableEq, Repr

instance : Surroundings Host where
  uptime h := h.now
  elapse ms h := ([], { h with now := h.now + ms })
  told _ h := ([], h)
  meanwhile h := ([], h)
  apply n h := (.ok (), { h with radio := h.radio.apply n })
  connect q h :=
    let called := h.radio.connect q
    (called.result, called.queue, called.lines, { h with radio := called.radio })
  mounted h := h.volume.mounted
  unmount h :=
    let (r, volume, lines) := h.volume.unmount
    (r, lines, { h with volume })

abbrev Machine := Device Host FileStore SoftToken

abbrev OnHost (α : Type) := Run Host FileStore SoftToken α

def consoleLines (j : Journal) : List Line :=
  j.toList.filterMap fun
    | .note (.log l) => some l
    | .emit e => some e.line
    | _ => none

def setTree (t : FileTree) : OnHost Unit := modify fun d => { d with store := { d.store with tree := t } }

def setHost (f : Host → Host) : OnHost Unit := modify fun d => { d with outside := f d.outside }

def info (message : String) : OnHost Unit := Run.log .info .boot message

end KeyFob.Program
