import KeyFob.Bytes

/-!
A tree of directories and plain files, and the few calls that the program makes on it. A path is text; it is resolved
from the working directory, or from the root if it starts with a slash. Each call says which of the usual errors it
ends with.
-/

namespace KeyFob

inductive FileError
  /-- A name of the path, or the path itself, leads nowhere. -/
  | noEntry
  | occupied
  | notDirectory
  | isDirectory
  | nameTooLong
  /-- A path that holds a NUL never reaches the file system. -/
  | invalidPath
deriving DecidableEq, Repr

namespace FileError

/-- The number of the error, for those that the file system reports. -/
def number? : FileError → Option Int
  | noEntry => some 2
  | occupied => some 17
  | notDirectory => some 20
  | isDirectory => some 21
  | nameTooLong => some 36
  | invalidPath => none

def message : FileError → String
  | noEntry => "No such file or directory (os error 2)"
  | occupied => "File exists (os error 17)"
  | notDirectory => "Not a directory (os error 20)"
  | isDirectory => "Is a directory (os error 21)"
  | nameTooLong => "File name too long (os error 36)"
  | invalidPath => "file name contained an unexpected NUL byte"

end FileError

/-- A resolved path: the names from the root down. -/
abbrev Place := List String

/-- The root itself is always a directory and is not listed. -/
structure FileTree where
  directories : List Place := []
  files : List (Place × Bytes) := []
  workingDirectory : Place := []
deriving DecidableEq, Repr

/-- What a path leads to. A missing name lies in a directory that is there. -/
inductive Found
  | directory (place : Place)
  | file (place : Place) (bytes : Bytes)
  | missing (place : Place) (asDirectory : Bool)
deriving DecidableEq, Repr

namespace FileTree

def maxName : Nat := 255

/-- A path takes fewer bytes than this. -/
def maxPath : Nat := 4096

def hasDirectory (t : FileTree) (p : Place) : Bool := p.isEmpty || t.directories.contains p

def walk (t : FileTree) : Place → List String → Except FileError Found
  | here, [] => .ok (.directory here)
  | here, name :: rest =>
    if name = "" ∨ name = "." then walk t here rest
    else if name = ".." then walk t here.dropLast rest
    else if maxName < name.utf8ByteSize then .error .nameTooLong
    else
      let there := here ++ [name]
      if t.hasDirectory there then walk t there rest
      else match t.files.lookup there with
        | some bytes => if rest = [] then .ok (.file there bytes) else .error .notDirectory
        | none => if rest.all (· == "") then .ok (.missing there !rest.isEmpty) else .error .noEntry

def names (path : String) : List String := (path.toList.splitOn '/').map String.ofList

def isAbsolute (path : String) : Bool := path.toList.head? == some '/'

def find (t : FileTree) (path : String) : Except FileError Found :=
  if path.toList.contains (Char.ofNat 0) then .error .invalidPath
  else if path = "" then .error .noEntry
  else if maxPath ≤ path.utf8ByteSize then .error .nameTooLong
  else t.walk (if isAbsolute path then [] else t.workingDirectory) (names path)

def isDirectory (t : FileTree) (path : String) : Bool :=
  match t.find path with
  | .ok (.directory _) => true
  | _ => false

def isFile (t : FileTree) (path : String) : Bool :=
  match t.find path with
  | .ok (.file _ _) => true
  | _ => false

def insertFile (t : FileTree) (p : Place) (bytes : Bytes) : FileTree :=
  { t with files := (p, bytes) :: t.files.filter (·.1 != p) }

def eraseFile (t : FileTree) (p : Place) : FileTree := { t with files := t.files.filter (·.1 != p) }

def readFile (t : FileTree) (path : String) : Except FileError Bytes := do
  match ← t.find path with
  | .directory _ => .error .isDirectory
  | .file _ bytes => .ok bytes
  | .missing _ _ => .error .noEntry

def writeFile (t : FileTree) (path : String) (bytes : Bytes) : Except FileError FileTree := do
  match ← t.find path with
  | .directory _ => .error .isDirectory
  | .file p _ => .ok (t.insertFile p bytes)
  | .missing p asDirectory => if asDirectory then .error .isDirectory else .ok (t.insertFile p bytes)

def removeFile (t : FileTree) (path : String) : Except FileError FileTree := do
  match ← t.find path with
  | .directory _ => .error .isDirectory
  | .file p _ => .ok (t.eraseFile p)
  | .missing _ _ => .error .noEntry

def renameFile (t : FileTree) (path target : String) : Except FileError FileTree := do
  match ← t.find path with
  | .directory _ => .error .isDirectory
  | .missing _ _ => .error .noEntry
  | .file p bytes =>
    match ← t.find target with
    | .directory _ => .error .isDirectory
    | .file q _ => .ok (if q = p then t else (t.eraseFile p).insertFile q bytes)
    | .missing q asDirectory => if asDirectory then .error .notDirectory else .ok ((t.eraseFile p).insertFile q bytes)

def makeDirectory (t : FileTree) (path : String) : Except FileError FileTree := do
  match ← t.find path with
  | .missing p _ => .ok { t with directories := p :: t.directories }
  | _ => .error .occupied

def ensureDirectory (t : FileTree) (path : String) : Except FileError FileTree :=
  match t.makeDirectory path with
  | .ok t => .ok t
  | .error e => if t.isDirectory path then .ok t else .error e

/-- Makes a directory and, where the path leads through nothing, first those above it, whose names are `above`. The
directories that were made stay, whatever follows. -/
def makeDirectoriesFrom (t : FileTree) (absolute : Bool) (above : List String) (path : String) :
    Except FileError Unit × FileTree :=
  match t.ensureDirectory path with
  | .ok t => (.ok (), t)
  | .error .noEntry =>
    match _h : above with
    | [] => (.error .noEntry, t)
    | _ :: _ =>
      let parent := (if absolute then "/" else "") ++ "/".intercalate above
      match makeDirectoriesFrom t absolute above.dropLast parent with
      | (.ok (), t) => match t.ensureDirectory path with
        | .ok t => (.ok (), t)
        | .error e => (.error e, t)
      | failed => failed
  | .error e => (.error e, t)
termination_by above.length
decreasing_by simp [*]

/-- Makes a directory with all that lie above it. It may be there already. The empty path needs nothing. -/
def makeDirectories (t : FileTree) (path : String) : Except FileError Unit × FileTree :=
  if path = "" then (.ok (), t)
  else t.makeDirectoriesFrom (isAbsolute path) ((names path).filter fun n => n != "" && n != ".").dropLast path

/-- Puts a file into the tree, with the directories above it. Where neither can be, the tree stays without it. -/
def addFile (t : FileTree) (path : String) (bytes : Bytes) : FileTree :=
  let t := (t.makeDirectories ("/".intercalate (names path).dropLast)).2
  match t.writeFile path bytes with
  | .ok t => t
  | .error _ => t

def filesBelow (t : FileTree) (place : Place) : List (Place × Bytes) :=
  t.files.filterMap fun (p, bytes) => if place.isPrefixOf p then some (p.drop place.length, bytes) else none

/-- Extends a path by one that starts below it; an absolute one replaces it. -/
def join (path rest : String) : String :=
  if isAbsolute rest then rest
  else if path = "" then rest
  else if path.toList.getLast? == some '/' then path ++ rest
  else path ++ "/" ++ rest

end FileTree

end KeyFob
