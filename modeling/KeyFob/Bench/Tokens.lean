import KeyFob.Token.Soft

/-!
A token that answers from a script, and tokens of either kind.
-/

namespace KeyFob.Bench

structure Reply where
  data : Bytes
  sw : Option UInt16
  takesMs : Nat := 0
deriving DecidableEq, Repr

structure ScriptedToken where
  /-- The last reply is given over and over. -/
  replies : List Reply := []
  generates : Except ProvisionError Unit := .ok ()
  restores : Except ProvisionError Unit := .ok ()

namespace ScriptedToken

def defaultReply : Reply := ⟨[0xDE, 0xAD], some 0x9000, 0⟩

def next (t : ScriptedToken) : Reply × ScriptedToken :=
  match t.replies with
  | [] => (defaultReply, t)
  | [r] => (r, t)
  | r :: rest => (r, { t with replies := rest })

/-- Data that does not fit is left out. -/
def answer (buffer : Card.Response) (r : Reply) : Answer :=
  let filled := buffer.push r.data
  let response := match r.sw with
    | some sw => filled.setStatus ⟨sw⟩
    | none => filled
  ⟨response, some r.takesMs⟩

end ScriptedToken

inductive AnyToken
  | soft (t : SoftToken)
  | scripted (t : ScriptedToken)

namespace AnyToken

variable {κ : Type} [Storage κ]

instance : Token κ AnyToken where
  process c buffer
    | soft t => do
      let (a, t) ← Token.process c buffer t
      return (a, soft t)
    | scripted t =>
      let (r, t) := t.next
      return (ScriptedToken.answer buffer r, scripted t)
  invalidate
    | soft t => do return soft (← Token.invalidate t)
    | scripted t => return scripted t
  generate
    | soft t => do
      let (r, t) ← Token.generate t
      return (r, soft t)
    | scripted t => return (t.generates, scripted t)
  restore
    | soft t => do
      let (r, t) ← Token.restore t
      return (r, soft t)
    | scripted t => return (t.restores, scripted t)

end AnyToken

end KeyFob.Bench
