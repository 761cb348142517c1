import KeyFob.Storage.Files
import KeyFob.Storage.Memory

/-!
A store that fails as planned, in memory or in files.
-/

namespace KeyFob.Bench

inductive Access
  | read
  | write
  | delete
deriving DecidableEq, Repr

/-- A planned failure. It leaves the first `after` matching calls alone and then fails `times` calls, or all of them. -/
structure Fault where
  access : Access
  error : StorageError
  space : Option String := none
  key : Option String := none
  after : Nat := 0
  times : Option Nat := none
deriving DecidableEq, Repr

namespace Fault

def concerns (f : Fault) (access : Access) (space key : String) : Bool :=
  f.access == access && (f.space.all (· == space)) && (f.key.all (· == key))

def strike (access : Access) (space key : String) : List Fault → Option StorageError × List Fault
  | [] => (none, [])
  | f :: rest =>
    let pass (f : Fault) : Option StorageError × List Fault :=
      let (e, rest) := strike access space key rest
      (e, f :: rest)
    if !f.concerns access space key then pass f
    else match f.after, f.times with
      | n + 1, _ => pass { f with after := n }
      | 0, none => (some f.error, f :: rest)
      | 0, some 0 => pass f
      | 0, some (n + 1) => (some f.error, { f with times := some n } :: rest)

end Fault

inductive Backing
  | memory (m : MemoryStore)
  | files (f : FileStore)

namespace Backing

instance : Storage Backing where
  read space key size
    | memory m => let (r, m) := Storage.read space key size m; (r, memory m)
    | files f => let (r, f) := Storage.read space key size f; (r, files f)
  write space key bytes
    | memory m => let (r, m) := Storage.write space key bytes m; (r, memory m)
    | files f => let (r, f) := Storage.write space key bytes f; (r, files f)
  delete space key
    | memory m => let (r, m) := Storage.delete space key m; (r, memory m)
    | files f => let (r, f) := Storage.delete space key f; (r, files f)
  contains space key
    | memory m => Storage.contains space key m
    | files f => Storage.contains space key f

/-- All values with their names, temporary files left out. `place` is the root of a file store. -/
def dump (place : Place) : Backing → List (String × Bytes)
  | memory m => m.entries.map fun ((space, key), bs) => (space ++ "/" ++ key, bs)
  | files f => (f.tree.filesBelow place).filterMap fun (p, bs) =>
    let path := "/".intercalate p
    if path.endsWith ".tmp" then none else some (path, bs)

end Backing

structure FaultyStore where
  backing : Backing
  faults : List Fault := []

namespace FaultyStore

def access {α : Type} (a : Access) (space key : String) (f : Backing → Except StorageError α × Backing)
    (s : FaultyStore) : Except StorageError α × FaultyStore :=
  match Fault.strike a space key s.faults with
  | (some e, faults) => (.error e, { s with faults })
  | (none, faults) =>
    let (r, backing) := f s.backing
    (r, ⟨backing, faults⟩)

instance : Storage FaultyStore where
  read space key size := access .read space key (Storage.read space key size)
  write space key bytes := access .write space key (Storage.write space key bytes)
  delete space key := access .delete space key (Storage.delete space key)
  contains space key s := Storage.contains space key s.backing

/-- The number of calls that planned failures can still take up, if none of them fails for ever. -/
def pending (s : FaultyStore) : Nat := s.faults.foldr (fun f n => f.after + f.times.getD 0 + n) 0

end FaultyStore

end KeyFob.Bench
