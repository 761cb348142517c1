import KeyFob.Bench.Tokens
import KeyFob.Device
import KeyFob.Storage.Memory

/-!
Surroundings in which the others act in turns: before each look of a task at the signals and before each call of the
gate or the token, the next of the listed turns is taken. No time passes, and nothing outside fails. A list of turns
spells out one interleaving.
-/

namespace KeyFob.Bench

structure Turns where
  left : List (List Action) := []

namespace Turns

instance : Surroundings Turns where
  uptime _ := 0
  elapse _ o := ([], o)
  told _ o := ([], o)
  meanwhile o := match o.left with
    | [] => ([], o)
    | turn :: left => (turn, { o with left })
  apply _ o := (.ok (), o)
  connect q o := (.ok (), q, [], o)
  mounted _ := false
  unmount o := (.ok (), [], o)

/-- A fob as it starts, with a token that answers everything and peers that send the given messages. -/
def device (turns : List (List Action)) (messages : List Bytes) : Device Turns MemoryStore AnyToken where
  outside := { left := turns }
  store := {}
  token := .scripted {}
  dials := messages.map fun message => .connects { message }

end Turns

end KeyFob.Bench
