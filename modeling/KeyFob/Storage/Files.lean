import KeyFob.Storage
import KeyFob.Storage.FileTree

/-!
A store in files: each value is the file `name/key` below a root directory. A value is first written to a temporary
file beside it, which then takes its name, so that a reader finds the old value or the new one and nothing between.
-/

namespace KeyFob

structure FileStore where
  root : String
  tree : FileTree
deriving DecidableEq, Repr

namespace FileStore

def openAt (root : String) (tree : FileTree) : Except StorageError FileStore :=
  match tree.makeDirectories root with
  | (.ok (), tree) => .ok ⟨root, tree⟩
  | (.error _, _) => .error .ioError

def openedLine (root : String) : Line := ⟨.info, .store, s!"NvsAdapter: file backend at {root}"⟩

def directory (s : FileStore) (name : String) : String := FileTree.join s.root name

def path (s : FileStore) (name key : String) : String := FileTree.join (s.directory name) key

def temporary (s : FileStore) (name key : String) : String :=
  FileTree.join (s.directory name) ("." ++ key ++ ".tmp")

def read (s : FileStore) (name key : String) (size : Nat) : Except StorageError Bytes :=
  match s.tree.readFile (s.path name key) with
  | .ok bytes => if bytes.length ≤ size then .ok bytes else .error .ioError
  | .error .noEntry => .error .notFound
  | .error _ => .error .ioError

/-- A write makes the directory, fills the temporary file and gives it the value's name. What the steps before a
failing one did stays done. -/
def write (s : FileStore) (name key : String) (bytes : Bytes) : Except StorageError Unit × FileStore :=
  match s.tree.makeDirectories (s.directory name) with
  | (.error _, made) => (.error .ioError, { s with tree := made })
  | (.ok (), made) =>
    match made.writeFile (s.temporary name key) bytes with
    | .error _ => (.error .ioError, { s with tree := made })
    | .ok written =>
      match written.renameFile (s.temporary name key) (s.path name key) with
      | .error _ => (.error .ioError, { s with tree := written })
      | .ok renamed => (.ok (), { s with tree := renamed })

def delete (s : FileStore) (name key : String) : Except StorageError Unit × FileStore :=
  match s.tree.removeFile (s.path name key) with
  | .ok tree => (.ok (), { s with tree })
  | .error .noEntry => (.ok (), s)
  | .error _ => (.error .ioError, s)

def contains (s : FileStore) (name key : String) : Bool := s.tree.isFile (s.path name key)

instance : Storage FileStore where
  read name key size s := (s.read name key size, s)
  write name key bytes s := s.write name key bytes
  delete name key s := s.delete name key
  contains name key s := s.contains name key

end FileStore

end KeyFob
