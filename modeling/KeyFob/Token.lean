import KeyFob.Card.Response
import KeyFob.Card.Command
import KeyFob.Storage

/-!
What a token can do: answer a command, forget the PIN and what else a session leaves behind, and make or reload its
secrets. A token works on its own part of the store and sees nothing else of the fob.
-/

namespace KeyFob

inductive ProvisionError
  | storage (e : StorageError)
  | missingState
  | corrupted
deriving DecidableEq, Repr

def ProvisionError.message : ProvisionError → String
  | storage e => "storage: " ++ e.message
  | missingState => "no stored state"
  | corrupted => "stored state corrupted"

/-- An answer, and how long the token took for it, if it took any time at all. -/
structure Answer where
  response : Card.Response
  takesMs : Option Nat := none

/-- Tokens with states `τ` on stores with states `κ`. -/
class Token (κ τ : Type) where
  /-- Answers a command. The buffer may still hold an earlier response. -/
  process : Card.Command → (buffer : Card.Response) → τ → OnShelf κ (Answer × τ)
  invalidate : τ → OnShelf κ τ
  /-- Makes new secrets and stores them. -/
  generate : τ → OnShelf κ (Except ProvisionError Unit × τ)
  /-- Reloads the stored secrets. -/
  restore : τ → OnShelf κ (Except ProvisionError Unit × τ)

end KeyFob
