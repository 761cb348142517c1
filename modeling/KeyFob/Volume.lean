import KeyFob.Log
import KeyFob.Storage.FileTree

/-!
The file volume. Here it is a directory that counts as mounted once it has been made.
-/

namespace KeyFob

inductive VolumeError
  | mountFailed (rc : Int)
  | unmountFailed (rc : Int)
  | notMounted
deriving DecidableEq, Repr

def VolumeError.message : VolumeError → String
  | mountFailed rc => s!"volume mount failed (rc={rc})"
  | unmountFailed rc => s!"volume unmount failed (rc={rc})"
  | notMounted => "volume not mounted"

structure Volume where
  root : String
  mounted : Bool := false
deriving DecidableEq, Repr

namespace Volume

def defaultRoot : String := ".netkey/spiflash"

/-- Makes the directory. A failure carries the number of the file error. -/
def mount (v : Volume) (t : FileTree) : Except VolumeError Unit × Volume × FileTree × List Line :=
  match t.makeDirectories v.root with
  | (.ok (), t) =>
    (.ok (), { v with mounted := true }, t,
      [⟨.info, .volume, "Volume(sim): storage (4 files max) at " ++ v.root⟩])
  | (.error e, t) => (.error (.mountFailed (e.number?.getD (-1))), v, t, [])

def unmount (v : Volume) : Except VolumeError Unit × Volume × List Line :=
  if v.mounted then (.ok (), { v with mounted := false }, [⟨.info, .volume, "Volume(sim): unmounted /spiflash"⟩])
  else (.error .notMounted, v, [])

end Volume

end KeyFob
