import KeyFob.Log
import KeyFob.Signals
import KeyFob.Text.Blank

/-!
The two buttons, pressed from a console: each line of input is a press of one of them, or is reported as unknown.
-/

namespace KeyFob

inductive Button
  | confirm
  | hardReset
deriving DecidableEq, Repr

namespace Button

def ofLine? (line : String) : Option Button :=
  let word := Text.trim line
  if word = "c" ∨ word = "confirm" then some confirm
  else if word = "r" ∨ word = "reset" then some hardReset
  else none

def press (s : Signals) : Button → Signals
  | confirm => s.raise
  | hardReset => s.pressReset

end Button

structure Console where
  started : Bool := false
deriving DecidableEq, Repr

namespace Console

def log (level : Level) (message : String) : Line := ⟨level, .button, "BUTTON(sim): " ++ message⟩

/-- Only the first start counts. -/
def start (c : Console) : Console × List Line :=
  if c.started then (c, [log .debug "console already running"])
  else (⟨true⟩, [⟨.info, .peripherals, "hw_init(sim): buttons on stdin ('c' = confirm, 'r' = hard reset)"⟩])

def read (s : Signals) (line : String) : Signals × Line :=
  match Button.ofLine? line with
  | some .confirm => (Button.confirm.press s, log .info "confirm")
  | some .hardReset => (Button.hardReset.press s, log .info "hard reset")
  | none => (s, log .warn ("unknown input '" ++ Text.trim line ++ "'"))

def readAll (s : Signals) : List String → Signals × List Line
  | [] => (s, [])
  | line :: rest =>
    let (s, first) := read s line
    let (s, others) := readAll s rest
    (s, first :: others)

/-- The lines of a text, each without its line break; what follows the last break is a line if it is not empty. -/
def lines (input : String) : List String :=
  let parts := input.splitOn "\n"
  let parts := if parts.getLast? = some "" then parts.dropLast else parts
  parts.map fun l =>
    let cs := l.toList
    if cs.getLast? = some '\r' then String.ofList cs.dropLast else l

end Console

end KeyFob
