import KeyFob.Journal
import KeyFob.Token.Soft

/-!
Showing values that hold random bytes. Such a value is shown by its place among the random values seen so far and by
its length, so that two runs with other random bytes read the same.
-/

namespace KeyFob.Bench

/-- How bytes are shown: as they are, or under a name, with bytes behind it that are not random. -/
inductive Shown
  | plain (bytes : Bytes)
  | named (name : String) (length : Nat) (rest : Bytes)
deriving DecidableEq, Repr

structure Masks where
  /-- The random values in the order in which they were first seen. -/
  values : List Bytes := []
  /-- How each response that holds random bytes is shown. -/
  responses : List (Bytes × Shown) := []
deriving DecidableEq, Repr

namespace Masks

def register (m : Masks) (v : Bytes) : Masks := if m.values.contains v then m else { m with values := m.values ++ [v] }

def name (m : Masks) (v : Bytes) : String := s!"R{m.values.idxOf v}"

/-- A response is named without its status word. -/
def ofResponse (name : String) (bs : Bytes) : Shown := .named name (bs.length - 2) (bs.drop (bs.length - 2))

/-- Takes note of a token's response. A challenge is random; a digest is if the secret behind it is. -/
def response (m : Masks) (t : SoftToken) (c : Card.Command) (bs : Bytes) : Masks :=
  if bs.length ≤ 2 then m
  else if c.ins = Card.Ins.getChallenge then { m with responses := m.responses ++ [(bs, ofResponse "R*" bs)] }
  else if t.secret.any m.values.contains then
    let m := m.register bs
    { m with responses := m.responses ++ [(bs, ofResponse (m.name bs) bs)] }
  else m

/-- Takes note of new entries of a journal. `last` is the command that the token is at. -/
def observe (t : SoftToken) (last : Card.Command) (m : Masks) : List Entry → Masks
  | [] => m
  | .note (.write space key bs _) :: rest =>
    observe t last (if space = SoftToken.space ∧ key = SoftToken.secretKey then m.register bs else m) rest
  | .process c :: rest => observe t c m rest
  | .answered r :: rest => observe t last (m.response t last r.bytes) rest
  | _ :: rest => observe t last m rest

def shown (m : Masks) (bs : Bytes) : Shown :=
  match m.responses.lookup bs with
  | some s => s
  | none => if m.values.contains bs then .named (m.name bs) bs.length [] else .plain bs

end Masks

end KeyFob.Bench
