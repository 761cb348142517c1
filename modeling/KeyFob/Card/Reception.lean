import KeyFob.Card.Layout
import KeyFob.Log

/-!
What is logged about a message that cannot be read: it is taken for the end of the exchange.
-/

namespace KeyFob.Card.Command

def receptionLines (raw : Bytes) : List Line :=
  match parse? raw with
  | .ok _ => []
  | .error e => [⟨.warn, .reader, "APDU: " ++ e.message ++ s!" ({raw.length} bytes), ending exchange"⟩]

end KeyFob.Card.Command
