import KeyFob.Card.StatusWord

/-!
The answer to a command: data, then a status word, in a buffer of `capacity` bytes. Data always leaves room for the
status word that is to follow it.
-/

namespace KeyFob.Card

structure Response where
  bytes : Bytes
deriving DecidableEq, Repr

namespace Response

def capacity : Nat := 1024

def empty : Response := ⟨[]⟩

/-- Forgets the contents. -/
def clear (_ : Response) : Response := empty

/-- Data that would not leave room for a status word is refused whole. -/
def push? (r : Response) (data : Bytes) : Option Response :=
  if r.bytes.length + data.length + 2 ≤ capacity then some ⟨r.bytes ++ data⟩ else none

def push (r : Response) (data : Bytes) : Response := (r.push? data).getD r

/-- A status word that does not fit is dropped. -/
def setStatus (r : Response) (sw : StatusWord) : Response :=
  if r.bytes.length + 2 ≤ capacity then ⟨r.bytes ++ sw.toBytes⟩ else r

def ofStatus (sw : StatusWord) : Response := empty.setStatus sw

/-- What the peer gets when nobody pressed the button. -/
def lockedOut : Response := ofStatus .authMethodBlocked

def reject (_ : Response) (sw : StatusWord) : Response := ofStatus sw

/-- Answers with data and the word for success. Data that does not fit is refused. -/
def fill (r : Response) (data : Bytes) : Response :=
  match r.push? data with
  | some filled => filled.setStatus .success
  | none => r.reject .wrongLength

def length (r : Response) : Nat := r.bytes.length

def status? (r : Response) : Option StatusWord :=
  match r.bytes.reverse with
  | lo :: hi :: _ => some (StatusWord.ofBytes hi lo)
  | _ => none

end Response

end KeyFob.Card
