import KeyFob.Config.Store
import KeyFob.Proofs.Config.Packing
import KeyFob.Proofs.Storage.Files

/-!
Settings in the store. What breaks a rule is refused before the store is asked; from then on saving answers as the store
does, for the packed form is never too large. What was saved is loaded again, and where saving fails the stored form is
the old one.
-/

namespace KeyFob.Config.Settings

variable {κ : Type} [Storage κ] {s : Settings} {rule : Violation}

def passedOn : Except StorageError Unit → Except ConfigError Unit
  | .ok () => .ok ()
  | .error .full => .error .storageFull
  | .error _ => .error .ioError

theorem passedOn_ne_validationFailed (r : Except StorageError Unit) : passedOn r ≠ .error (.validationFailed rule) := by
  rcases r with e | _
  · cases e <;> nofun
  · nofun

theorem passedOn_eq_ok {r : Except StorageError Unit} : passedOn r = .ok () ↔ r = .ok () := by
  rcases r with e | _
  · cases e <;> exact ⟨nofun, nofun⟩
  · exact ⟨fun _ => rfl, fun _ => rfl⟩

theorem passedOn_eq_full {r : Except StorageError Unit} : passedOn r = .error .storageFull ↔ r = .error .full := by
  rcases r with e | _
  · cases e
    · exact ⟨nofun, nofun⟩
    · exact ⟨fun _ => rfl, fun _ => rfl⟩
    · exact ⟨nofun, nofun⟩
  · exact ⟨nofun, nofun⟩

theorem fits_maxStored (s : Settings) : s.encode.length ≤ maxStored := Nat.le_trans s.length_encode_le (by decide)

theorem save_refused (h : s.validate = .error rule) (σ : Shelf κ) : s.save σ = (.error (.validationFailed rule), σ) := by
  rw [save, validated, h]
  rfl

def written (s : Settings) (store : κ) : Except StorageError Unit × κ := Storage.write space key s.encode store

theorem save_written (h : s.validate = .ok ()) (σ : Shelf κ) :
    (s.save σ).1 = passedOn (s.written σ.store).1 ∧ (s.save σ).2.store = (s.written σ.store).2 := by
  have hwrite : Leads (· = σ) (OnShelf.write space key s.encode : OnShelf κ _) fun r after =>
      r = (s.written σ.store).1 ∧ after.store = (s.written σ.store).2 := by
    rintro _ rfl
    exact ⟨rfl, rfl⟩
  have hsave : Leads (· = σ) (s.save : OnShelf κ _) fun r after =>
      r = passedOn (s.written σ.store).1 ∧ after.store = (s.written σ.store).2 := by
    rw [save, validated, h]
    refine .ite (fun hlarge => absurd s.fits_maxStored (Nat.not_le.2 hlarge)) fun _ => hwrite.bind fun r after => ?_
    rintro ⟨hr, hafter⟩
    rw [← hr]
    rcases r with (_ | _ | _) | _
    · exact ⟨rfl, hafter⟩
    · exact ⟨rfl, hafter⟩
    · exact ⟨rfl, hafter⟩
    · exact ⟨rfl, hafter⟩
  exact hsave σ rfl

def loaded : Except StorageError Bytes → Except ConfigError Settings
  | .ok bs => decode bs
  | .error .notFound => .ok default
  | .error _ => .error .ioError

theorem load_eq (σ : Shelf κ) : (load σ).1 = loaded (Storage.read space key maxStored σ.store).1 := by
  have hread : Leads (· = σ) (OnShelf.read space key maxStored : OnShelf κ _) fun r _ =>
      r = (Storage.read space key maxStored σ.store).1 := by
    rintro _ rfl
    rfl
  have hload : Leads (· = σ) (load : OnShelf κ _) fun r _ => r = loaded (Storage.read space key maxStored σ.store).1 := by
    refine hread.bind fun r after hr => ?_
    rw [← hr]
    rcases r with (_ | _ | _) | bs
    · rfl
    · rfl
    · rfl
    · dsimp only [loaded]
      cases decode bs with
      | ok s => rfl
      | error e => rfl
  exact hload σ rfl

theorem load_of_read {bs : Bytes} {σ : Shelf κ} (h : (Storage.read space key maxStored σ.store).1 = .ok bs) :
    (load σ).1 = decode bs := by
  rw [load_eq, h, loaded]

/-- What saving these settings comes to, with `value` for the stored form. -/
structure Keeping (value : κ → Option Bytes) (s : Settings) (σ : Shelf κ) : Prop where
  refused_iff (rule : Violation) : (s.save σ).1 = .error (.validationFailed rule) ↔ s.validate = .error rule
  saved_iff : (s.save σ).1 = .ok () ↔ s.validate = .ok () ∧ (s.written σ.store).1 = .ok ()
  loaded (h : (s.save σ).1 = .ok ()) : (load (s.save σ).2).1 = .ok s
  unchanged (e : ConfigError) (h : (s.save σ).1 = .error e) : value (s.save σ).2.store = value σ.store
  small : s.encode.length ≤ maxStored
  full_iff : (s.save σ).1 = .error .storageFull ↔ s.validate = .ok () ∧ (s.written σ.store).1 = .error .full

theorem save_keeping {value : κ → Option Bytes} (s : Settings) (σ : Shelf κ) (h : Upholds space key value σ.store) :
    s.Keeping value σ := by
  cases hv : s.validate with
  | error rule =>
    have hsave := save_refused hv σ
    exact {
      refused_iff := fun rule' => by rw [hsave, hv]; simp
      saved_iff := by rw [hsave, hv]; simp
      loaded := fun hok => by rw [hsave] at hok; cases hok
      unchanged := fun e _ => by rw [hsave]
      small := s.fits_maxStored
      full_iff := by rw [hsave, hv]; simp }
  | ok _ =>
    obtain ⟨hresult, hafter⟩ := save_written hv σ
    exact {
      refused_iff := fun rule => by
        rw [hresult, hv]
        exact ⟨fun hr => absurd hr (passedOn_ne_validationFailed _), nofun⟩
      saved_iff := by rw [hresult, hv, passedOn_eq_ok]; simp
      loaded := fun hok => by
        have hwritten := h.write_ok s.encode (passedOn_eq_ok.1 (hresult.symm.trans hok))
        rw [← written, ← hafter] at hwritten
        rw [load_of_read (h.read_ok _ s.encode maxStored hwritten s.fits_maxStored), decode_encode, validated, hv]
      unchanged := fun e he => by
        rw [hafter]
        cases hw : (s.written σ.store).1 with
        | ok _ => rw [hresult, hw] at he; cases he
        | error e' => exact h.write_error s.encode e' hw
      small := s.fits_maxStored
      full_iff := by rw [hresult, hv, passedOn_eq_full]; simp }

/-- A store of files in a directory that opening it has made. -/
def newStore : FileStore := ⟨"fob", { directories := [["fob"]] }⟩

theorem newStore_opened : newStore.Opened := by
  have hopen : FileStore.openAt "fob" {} = .ok newStore := by decide +kernel
  exact FileStore.openAt_opened hopen nofun

theorem default_kept_in_files : Upholds space key (FileStore.value space key) newStore ∧
    (default.save ⟨newStore, []⟩).1 = .ok () ∧ default.Keeping (FileStore.value space key) ⟨newStore, []⟩ := by
  have hspace : FileTree.Plain space := ⟨by decide, by decide, by decide, by decide⟩
  have hkey : FileTree.Plain key := ⟨by decide, by decide, by decide, by decide⟩
  have hupholds := FileStore.upholds newStore_opened hspace hkey
  exact ⟨hupholds, by decide +kernel, save_keeping default ⟨newStore, []⟩ hupholds⟩

end KeyFob.Config.Settings
