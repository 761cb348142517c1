import KeyFob.Program.Run

/-!
The command line. It gathers the files that the program may look at, follows the run, shows what the run shows and
writes back the files of the store. The operator's input is read to its end.
-/

namespace KeyFob.Main

open Program

def storedNames : List (String × String) :=
  [(Provisioning.space, Provisioning.key), (SoftToken.space, SoftToken.secretKey), (SoftToken.space, SoftToken.pinKey),
    (SoftToken.space, SoftToken.retriesKey), (Config.Settings.space, Config.Settings.key),
    (RestartLog.space, RestartLog.nextKey)] ++
  (List.range RestartLog.slots).map fun n => (RestartLog.space, RestartLog.slotKey n)

def readFile? (path : String) : IO (Option Bytes) := do
  try
    return some (← IO.FS.readBinFile path).data.toList
  catch _ => return none

def gather (t : FileTree) : List String → IO FileTree
  | [] => return t
  | path :: rest => do
    match ← readFile? path with
    | some bytes => gather (t.addFile path bytes) rest
    | none => gather t rest

def writeBack (s : FileStore) (name key : String) : IO Unit := do
  let path := s.path name key
  match s.tree.readFile path with
  | .ok bytes =>
    IO.FS.createDirAll (s.directory name)
    IO.FS.writeBinFile path ⟨bytes.toArray⟩
  | .error _ => try IO.FS.removeFile path catch _ => return ()

def run (args : List String) : IO UInt32 := do
  let invocation : Invocation := { arguments := args, storeRoot := ← IO.getEnv "NETKEY_NVS_DIR" }
  let places : FileStore := ⟨invocation.root, {}⟩
  let paths := args.take 1 ++ storedNames.map fun (name, key) => places.path name key
  let tree ← gather {} paths
  let operator : Operator := { input := ← (← IO.getStdin).readToEnd }
  let seed := UInt64.ofNat (← IO.monoNanosNow)
  let result := Program.run invocation (some operator) (Entropy.scrambled seed) tree
  IO.print (consoleText result.console)
  IO.eprint result.complaint
  for (name, key) in storedNames do writeBack ⟨invocation.root, result.tree⟩ name key
  return UInt32.ofNat (result.code.getD 0)

end KeyFob.Main

def main (args : List String) : IO UInt32 := KeyFob.Main.run args
