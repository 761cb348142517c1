import KeyFob.Proofs.Storage.Directories
import KeyFob.Proofs.Storage.Legible
import KeyFob.Storage.Files

/-!
A value kept in a file. Writing it makes at most one directory, fills a temporary file and renames it. Whichever of these
steps fails, the value is still the old one, and once all of them are done it is the new one.
-/

namespace KeyFob

namespace FileStore

open FileTree (Plain Sound)

def value (name key : String) (s : FileStore) : Option Bytes :=
  match s.tree.readFile (s.path name key) with
  | .ok bytes => some bytes
  | .error _ => none

/-- The root of an opened store is a directory, and its files lie in directories. -/
structure Opened (s : FileStore) : Prop where
  based : ∃ R, s.tree.Based s.root R
  sound : s.tree.Sound

variable {s : FileStore} {name key : String} {bytes : Bytes}

theorem value_eq_some : value name key s = some bytes ↔ ∃ q, s.tree.find (s.path name key) = .ok (.file q bytes) := by
  rw [value, FileTree.readFile]
  cases s.tree.find (s.path name key) with
  | error e => simp [bind, Except.bind]
  | ok found => cases found <;> simp [bind, Except.bind]

theorem value_eq_none (h : ∀ q bytes, s.tree.find (s.path name key) ≠ .ok (.file q bytes)) : value name key s = none := by
  cases hv : value name key s with
  | none => rfl
  | some bytes =>
    obtain ⟨q, hq⟩ := value_eq_some.1 hv
    exact absurd hq (h q bytes)

theorem openAt_opened {root : String} {tree : FileTree} {s : FileStore} (h : openAt root tree = .ok s)
    (htree : tree.Sound) : s.Opened := by
  rw [openAt] at h
  split at h
  · next made hmade =>
    cases h
    have hbased := FileTree.makeDirectories_based (congrArg Prod.fst hmade)
    rw [hmade] at hbased
    exact ⟨hbased.2, hbased.1.sound htree⟩
  · cases h

/-- What is in the store is what is read, if it is not too long. -/
theorem read_value (h : value name key s = some bytes) (size : Nat) (hsize : bytes.length ≤ size) :
    s.read name key size = .ok bytes := by
  have hfile : s.tree.readFile (s.path name key) = .ok bytes := by
    rw [value] at h
    split at h
    · next found hfound => rw [hfound, Option.some.inj h]
    · cases h
  rw [read, hfile]
  exact if_pos hsize

/-- Making the directory of a value brings none to light: no file lies where there was no directory. -/
theorem value_made (h : s.Opened) (hname : Plain name) (hkey : Plain key) :
    value name key { s with tree := (s.tree.makeDirectories (s.directory name)).2 } = value name key s := by
  obtain ⟨R, hR⟩ := h.based
  obtain hsame | ⟨hmade, hshort, hdir, hfile⟩ := FileTree.makeDirectories_join hR hname
  · rw [directory, hsame]
  rw [directory, hmade]
  have hbefore : value name key s = none := by
    refine value_eq_none fun q bytes hq => ?_
    rw [path, directory] at hq
    obtain ⟨e, he⟩ | hwalk := FileTree.find_path s.root hname hkey
    · cases (he s.tree).symm.trans hq
    rw [hwalk s.tree R hR, FileTree.walk_cons _ _ hname, if_neg hshort, hdir, if_neg Bool.false_ne_true] at hq
    obtain ⟨-, hrest, -⟩ := FileTree.look_eq_file hq
    cases hrest
  rw [hbefore]
  refine value_eq_none fun q bytes hq => ?_
  rw [path, directory] at hq
  obtain ⟨e, he⟩ | hwalk := FileTree.find_path s.root hname hkey
  · cases (he _).symm.trans hq
  rw [hwalk _ R (hR.widens (s.tree.withDirectory_widens _)), FileTree.walk_cons _ _ hname, if_neg hshort, if_pos (s.tree.hasDirectory_made _),
    FileTree.walk_cons _ _ hkey] at hq
  split_ifs at hq
  · cases hq
  · obtain ⟨rfl, -, hlookup⟩ := FileTree.look_eq_file hq
    have hparent := h.sound _ _ hlookup
    rw [List.dropLast_concat, hdir] at hparent
    cases hparent

end FileStore

namespace FileTree

variable {t t' : FileTree} {path target : String} {p q : Place} {bytes bytes' : Bytes}

/-- With the same directories, a path that ends outside of them finds the file that is put there. -/
theorem find_to_file (t : FileTree) (hdirs : t'.hasDirectory = t.hasDirectory)
    (hhere : t'.workingDirectory = t.workingDirectory) (h : Takes (t.find path) q)
    (hfile : t'.files.lookup q = some bytes) : t'.find path = .ok (.file q bytes) := by
  obtain ⟨found, hfound⟩ : ∃ found, t.find path = .ok found := by
    rcases h with ⟨bytes, h⟩ | h
    · exact ⟨_, h⟩
    · exact ⟨_, h⟩
  have hwalk := find_eq_walk hfound
  have hstart : t'.start path = t.start path := by rw [start, start, hhere]
  rw [hwalk t] at h
  rw [hwalk t', hstart]
  exact walk_to_file hdirs h hfile

theorem lookup_of_find (h : t.find path = .ok (.file q bytes)) : t.files.lookup q = some bytes :=
  lookup_of_walk ((find_eq_walk h t).symm.trans h)

theorem writeFile_eq_ok (h : t.writeFile path bytes = .ok t') :
    ∃ p, t' = t.insertFile p bytes ∧ t'.find path = .ok (.file p bytes) := by
  rw [writeFile] at h
  cases hf : t.find path with
  | error e => rw [hf] at h; cases h
  | ok found =>
    rw [hf] at h
    cases found with
    | directory p => cases h
    | file p old =>
      cases h
      exact ⟨p, rfl, find_to_file t rfl rfl (Or.inl ⟨old, hf⟩) (lookup_insertFile_self t p bytes)⟩
    | missing p asDirectory =>
      cases asDirectory with
      | true => cases h
      | false =>
        cases h
        exact ⟨p, rfl, find_to_file t rfl rfl (Or.inr hf) (lookup_insertFile_self t p bytes)⟩

/-- A file that was moved is found under its new name. -/
theorem find_renamed (hfrom : t.find path = .ok (.file p bytes)) (h : t.renameFile path target = .ok t') :
    ∃ q, t'.find target = .ok (.file q bytes) := by
  rw [renameFile, hfrom] at h
  change (t.find target >>= _) = _ at h
  cases hf : t.find target with
  | error e => rw [hf] at h; cases h
  | ok found =>
    rw [hf] at h
    cases found with
    | directory q => cases h
    | file q old =>
      refine ⟨q, ?_⟩
      by_cases hqp : q = p
      · cases (congrArg Except.ok (if_pos hqp)).symm.trans h
        subst hqp
        rw [hf, Option.some.inj ((lookup_of_find hf).symm.trans (lookup_of_find hfrom))]
      · cases (congrArg Except.ok (if_neg hqp)).symm.trans h
        exact find_to_file t rfl rfl (Or.inl ⟨old, hf⟩) (lookup_insertFile_self _ q bytes)
    | missing q asDirectory =>
      cases asDirectory with
      | true => cases h
      | false =>
        cases h
        exact ⟨q, find_to_file t rfl rfl (Or.inr hf) (lookup_insertFile_self _ q bytes)⟩

/-- A file can always take the place of another. -/
theorem renameFile_to_file (hfrom : t.find path = .ok (.file p bytes)) (hto : t.find target = .ok (.file q bytes')) :
    ∃ t', t.renameFile path target = .ok t' := by
  rw [renameFile, hfrom]
  change ∃ t', (t.find target >>= _) = _
  rw [hto]
  exact ⟨_, rfl⟩

end FileTree

namespace FileStore

open FileTree (Plain)

variable {s : FileStore} {name key : String} {bytes : Bytes}

theorem value_written (h : (s.write name key bytes).1 = .ok ()) : value name key (s.write name key bytes).2 = some bytes := by
  rw [write] at h ⊢
  split at h
  · cases h
  next made hmade =>
  split at h
  · cases h
  next written hwritten =>
  split at h
  · cases h
  next renamed hrenamed =>
  obtain ⟨p, rfl, hfound⟩ := FileTree.writeFile_eq_ok hwritten
  obtain ⟨q, hq⟩ := FileTree.find_renamed hfound hrenamed
  exact value_eq_some.2 ⟨q, hq⟩

/-- Where the temporary file could be filled and not renamed, there was no value, and there is none. -/
theorem value_stranded {made written : FileTree} {e : FileError}
    (hwritten : made.writeFile (s.temporary name key) bytes = .ok written)
    (he : written.renameFile (s.temporary name key) (s.path name key) = .error e) :
    value name key { s with tree := written } = value name key { s with tree := made } := by
  obtain ⟨p, rfl, hfound⟩ := FileTree.writeFile_eq_ok hwritten
  have hstranded : ∀ q b, (made.insertFile p bytes).find (s.path name key) ≠ .ok (.file q b) := by
    intro q b hq
    obtain ⟨t', ht'⟩ := FileTree.renameFile_to_file hfound hq
    cases he.symm.trans ht'
  have hbefore : ∀ q b, made.find (s.path name key) ≠ .ok (.file q b) := by
    intro q b hq
    have hlookup := FileTree.lookup_of_find hq
    by_cases hqp : q = p
    · subst hqp
      exact hstranded q bytes
        (FileTree.find_to_file made rfl rfl (Or.inl ⟨b, hq⟩) (FileTree.lookup_insertFile_self made q bytes))
    · have hkept := (FileTree.lookup_insertFile_of_ne made bytes hqp).trans hlookup
      exact hstranded q b (FileTree.find_to_file made rfl rfl (Or.inl ⟨b, hq⟩) hkept)
  exact (value_eq_none hstranded).trans (value_eq_none hbefore).symm

theorem value_not_written (h : s.Opened) (hname : Plain name) (hkey : Plain key) {e : StorageError}
    (he : (s.write name key bytes).1 = .error e) : value name key (s.write name key bytes).2 = value name key s := by
  have hmade := value_made h hname hkey
  rw [write] at he ⊢
  split
  · next made hmake =>
    rw [hmake] at hmade
    exact hmade
  next made hmake =>
  rw [hmake] at hmade he
  split
  · exact hmade
  next written hwritten =>
  dsimp only at he
  rw [hwritten] at he
  split
  · next hrename => exact (value_stranded hwritten hrename).trans hmade
  next renamed hrenamed =>
  dsimp only at he
  rw [hrenamed] at he
  cases he

/-- A store of files keeps each of its values whole. -/
theorem upholds (h : s.Opened) (hname : Plain name) (hkey : Plain key) : Upholds name key (value name key) s where
  write_ok _ hok := value_written hok
  write_error _ _ he := value_not_written h hname hkey he
  read_ok _ _ size hv hsize := read_value hv size hsize

end FileStore

end KeyFob
