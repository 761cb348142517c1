import KeyFob.Program.Host

/-!
One boot of the program: settings, the reason of the last restart, pins, buttons, volume and radio, then the tasks. A
boot ends the program if its settings file is no good; otherwise the tasks run until something asks for a restart.
-/

namespace KeyFob.Program

open Config (Settings)

def version : String := "0.3.0"

/-- The file of settings that is named on the command line, and where the store is if not in its usual place. -/
structure Invocation where
  arguments : List String := []
  storeRoot : Option String := none
deriving DecidableEq, Repr

def defaultStoreRoot : String := ".netkey/nvs"

def Invocation.root (i : Invocation) : String := i.storeRoot.getD defaultStoreRoot

def banner : List Line :=
  ["╔══════════════════════════════════════╗",
    "║  NetKey v" ++ version ++ "                        ║",
    "╚══════════════════════════════════════╝"].map (⟨.info, .boot, ·⟩)

/-- What the operator does once the fob is ready: files appear, the program's own file may go, and lines are typed. -/
structure Operator where
  files : List (String × Bytes) := []
  removesProgram : Bool := false
  input : String := ""
deriving DecidableEq, Repr

/-- How a boot goes on: the program ends with a complaint, or it restarts, or it runs on. -/
inductive BootEnd
  | complains (message : String)
  /-- The flag tells whether the fob had become ready. -/
  | restarts (ready : Bool)
  | runsOn
deriving DecidableEq, Repr

def readText (t : FileTree) (path : String) : Except String String :=
  match t.readFile path with
  | .error e => .error e.message
  | .ok bs => match String.fromUTF8? ⟨bs.toArray⟩ with
    | some s => .ok s
    | none => .error "stream did not contain valid UTF-8"

/-- Settings from the file on the command line, else from the store, else the defaults. -/
def loadSettings (i : Invocation) : OnHost (Except String Settings) := do
  match i.arguments with
  | path :: _ =>
    match readText (← get).store.tree path with
    | .error e => return .error ("reading config file " ++ path ++ "\n\nCaused by:\n    " ++ e)
    | .ok text =>
      match Settings.ofJson text with
      | .error e => return .error ("config file " ++ path ++ ": " ++ e.message)
      | .ok s =>
        info ("Config loaded from " ++ path)
        return .ok s
  | [] =>
    match ← Run.onShelf Settings.load with
    | .ok s =>
      info "Config loaded from NVS"
      return .ok s
    | .error e =>
      Run.log .warn .boot ("NVS config load failed (" ++ e.message ++ "), using defaults")
      return .ok .default

/-- A failure before the tasks run restarts the fob. -/
def bringUpFailed (f : Failure) : OnHost BootEnd := do
  Run.log .error .boot ("Bring-up failed: " ++ f.message)
  Tasks.perform (f.restartReason?.getD .storageInit) Settings.default.restartCountdownSecs
  return .restarts false

def mountVolume : OnHost (Except VolumeError Unit) := do
  let d ← get
  let (r, volume, tree, lines) := d.outside.volume.mount d.store.tree
  setTree tree
  setHost fun h => { h with volume }
  Run.logLines lines
  return r

def startRadio : OnHost Unit := do
  let d ← get
  let called := d.outside.radio.start d.queue
  setHost fun h => { h with radio := called.radio }
  modify fun d => { d with queue := called.queue }
  Run.logLines called.lines

/-- What the operator does to the files and types on the console. -/
def operate (o : Operator) : OnHost Unit := do
  o.files.forM fun (path, bytes) => do setTree ((← get).store.tree.addFile path bytes)
  let (signals, lines) := Console.readAll (← Run.signals) (Console.lines o.input)
  Run.setSignals fun _ => signals
  Run.logLines lines

/-- The tasks, one after another: the link comes up, the fob boots, the operator acts, and the reset monitor looks at
the button until erasing succeeds or the store will not let it. Only then does the session look for its peer; no peer
can be reached from the host, so the session's only end is the pending restart. -/
def runTasks (settings : Settings) (c : Connectivity) (operator : Option Operator) : OnHost BootEnd := do
  let _ ← Tasks.link c
  let (booted, _) ← Lifecycle.run { reinit := settings.reinitOnRestoreFailure }
  match booted with
  | .error _ =>
    Tasks.request .provisioningFailed
    let _ ← Tasks.awaitRestart settings.restartCountdownSecs
    return .restarts false
  | .ok () =>
    match operator with
    | none => return .runsOn
    | some o =>
      operate o
      let _ ← ResetMonitor.run settings.resetPollMs 1
      if ← Run.halting then
        let _ ← Session.run { settings }
        let _ ← Tasks.awaitRestart settings.restartCountdownSecs
        return .restarts true
      else return .runsOn

def bringUp (settings : Settings) (operator : Option Operator) : OnHost BootEnd := do
  info (s!"Config: {settings.networks.toList.length} candidate network(s), " ++
    s!"peer port {settings.peerPort.toNat}")
  let previous ← Run.onShelf do
    let log ← RestartLog.load {}
    log.latest
  if let some r := previous then info ("Previous restart: " ++ r.text)
  Run.logLines [Pins.Levels.resetLine]
  Run.logLines (Console.start {}).2
  match ← mountVolume with
  | .error e => bringUpFailed (.volume e)
  | .ok () =>
    startRadio
    match Connectivity.new settings.networks with
    | .error rule => bringUpFailed (.config (.validationFailed rule))
    | .ok c =>
      Run.logLines (TaskSpec.all.map TaskSpec.startLine)
      info "Tasks running"
      runTasks settings c operator

def boot (i : Invocation) (operator : Option Operator) : OnHost BootEnd := do
  Run.logLines banner
  match FileStore.openAt i.root (← get).store.tree with
  | .error e => bringUpFailed (.storage e)
  | .ok store =>
    modify fun d => { d with store }
    Run.logLines [FileStore.openedLine i.root]
    match ← loadSettings i with
    | .error message => return .complains message
    | .ok settings => bringUp settings operator

end KeyFob.Program
