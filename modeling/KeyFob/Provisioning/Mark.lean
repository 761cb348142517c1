import KeyFob.Storage

/-!
The mark of a provisioned fob: a key in the store. Only its presence counts, whatever it holds, so long as this is short
enough to be read.
-/

namespace KeyFob.Provisioning

def space : String := "storage"
def key : String := "initialized"

def markSize : Nat := 8

variable {κ : Type} [Storage κ]

/-- Whether the fob is provisioned. A failed read tells neither. -/
def isProvisioned : OnShelf κ (Except StorageError Bool) := do
  match ← OnShelf.read space key markSize with
  | .ok _ => return .ok true
  | .error .notFound => return .ok false
  | .error e => return .error e

def mark : OnShelf κ (Except StorageError Unit) := OnShelf.write space key [1]

/-- Without its mark the fob starts afresh at the next boot. -/
def erase : OnShelf κ (Except StorageError Unit) := OnShelf.delete space key

end KeyFob.Provisioning
