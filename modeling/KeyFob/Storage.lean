import KeyFob.Bytes
import KeyFob.Log

/-!
Key-value storage with a name space for each part of the program. `Storage` is what a store can do; a `Shelf` is a store
in use together with what has been noted about its use.

A store that cannot do what it is asked says so; `notFound` is kept apart from every other failure.
-/

namespace KeyFob

inductive StorageError
  | notFound
  | full
  | ioError
deriving DecidableEq, Repr

def StorageError.message : StorageError → String
  | notFound => "key not found"
  | full => "storage full"
  | ioError => "I/O error"

/-- The state of a store may change with every access, even a failed one. -/
class Storage (κ : Type) where
  /-- Reads a value of at most `size` bytes. -/
  read : (name key : String) → (size : Nat) → κ → Except StorageError Bytes × κ
  write : (name key : String) → Bytes → κ → Except StorageError Unit × κ
  /-- Deleting what is not there succeeds. -/
  delete : (name key : String) → κ → Except StorageError Unit × κ
  contains : (name key : String) → κ → Bool

/-- What is worth noting while a store is used: the accesses, and the log lines between them. -/
inductive Note
  | log (line : Line)
  | read (name key : String) (size : Nat) (result : Except StorageError Bytes)
  | write (name key : String) (bytes : Bytes) (result : Except StorageError Unit)
  | delete (name key : String) (result : Except StorageError Unit)

structure Shelf (κ : Type) where
  store : κ
  /-- Oldest first. -/
  notes : List Note := []

abbrev OnShelf (κ α : Type) := StateM (Shelf κ) α

namespace OnShelf

variable {κ : Type}

def log (level : Level) (source : Part) (message : String) : OnShelf κ Unit :=
  modify fun s => { s with notes := s.notes ++ [.log ⟨level, source, message⟩] }

variable [Storage κ]

def read (name key : String) (size : Nat) : OnShelf κ (Except StorageError Bytes) := fun s =>
  let (r, store) := Storage.read name key size s.store
  (r, ⟨store, s.notes ++ [.read name key size r]⟩)

def write (name key : String) (bytes : Bytes) : OnShelf κ (Except StorageError Unit) := fun s =>
  let (r, store) := Storage.write name key bytes s.store
  (r, ⟨store, s.notes ++ [.write name key bytes r]⟩)

def delete (name key : String) : OnShelf κ (Except StorageError Unit) := fun s =>
  let (r, store) := Storage.delete name key s.store
  (r, ⟨store, s.notes ++ [.delete name key r]⟩)

def contains (name key : String) : OnShelf κ Bool := fun s => (Storage.contains name key s.store, s)

end OnShelf

end KeyFob
