import KeyFob.Config.Stored
import KeyFob.Storage

/-!
Keeping settings in the store. Settings that break a rule are neither saved nor loaded; without stored settings the
defaults hold.
-/

namespace KeyFob.Config.Settings

def space : String := "netkey"
def key : String := "devcfg"

variable {κ : Type} [Storage κ]

def log (level : Level) (message : String) : OnShelf κ Unit := OnShelf.log level .store ("NvsAdapter: " ++ message)

def load : OnShelf κ (Except ConfigError Settings) := do
  match ← OnShelf.read space key maxStored with
  | .ok bs =>
    let r := decode bs
    if let .ok _ := r then log .info s!"loaded config ({bs.length} bytes)"
    return r
  | .error .notFound =>
    log .info "no stored config, using defaults"
    return .ok default
  | .error e =>
    log .warn ("config read failed: " ++ e.message)
    return .error .ioError

def save (s : Settings) : OnShelf κ (Except ConfigError Unit) := do
  match s.validated with
  | .error e => return .error e
  | .ok s =>
    let bs := s.encode
    if maxStored < bs.length then return .error .storageFull
    match ← OnShelf.write space key bs with
    | .error .full => return .error .storageFull
    | .error _ => return .error .ioError
    | .ok () =>
      log .info s!"config saved ({bs.length} bytes)"
      return .ok ()

end KeyFob.Config.Settings
