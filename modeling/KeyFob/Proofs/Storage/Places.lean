import KeyFob.Proofs.Storage.Files

/-!
Where the values of a store lie. Below the place of the root each name space is a directory, and each value a file in it;
while nothing else is in the way there, every path of a value leads to its own place, and a temporary file, whose name
starts with a dot, never lies at the place of a value.
-/

namespace KeyFob

namespace FileTree

structure Label (name : String) : Prop where
  plain : Plain name
  undotted : name.toList.head? ≠ some '.'
  noNul : Char.ofNat 0 ∉ name.toList

instance (name : String) : Decidable (Plain name) :=
  decidable_of_iff (name ≠ "" ∧ name ≠ "." ∧ name ≠ ".." ∧ '/' ∉ name.toList)
    ⟨fun h => ⟨h.1, h.2.1, h.2.2.1, h.2.2.2⟩, fun h => ⟨h.notEmpty, h.notHere, h.notAbove, h.noSlash⟩⟩

instance (name : String) : Decidable (Label name) :=
  decidable_of_iff (Plain name ∧ name.toList.head? ≠ some '.' ∧ Char.ofNat 0 ∉ name.toList)
    ⟨fun h => ⟨h.1, h.2.1, h.2.2⟩, fun h => ⟨h.plain, h.undotted, h.noNul⟩⟩

/-- The name of the temporary file that a value is written to first. -/
def temporaryName (key : String) : String := "." ++ key ++ ".tmp"

theorem toList_temporaryName (key : String) : (temporaryName key).toList = '.' :: key.toList ++ ['.', 't', 'm', 'p'] := by
  rw [temporaryName, String.toList_append, String.toList_append]
  rfl

theorem temporaryName_ne {name : String} (h : Label name) (key : String) : name ≠ temporaryName key := by
  intro heq
  exact h.undotted (by rw [heq, toList_temporaryName]; rfl)

theorem plain_temporaryName {key : String} (h : Label key) : Plain (temporaryName key) := by
  have hlist := toList_temporaryName key
  have hlength : 4 < (temporaryName key).toList.length := by
    rw [hlist]
    simp
  refine ⟨fun hempty => ?_, fun hhere => ?_, fun habove => ?_, ?_⟩
  · rw [hempty] at hlength
    exact absurd hlength (by decide)
  · rw [hhere] at hlength
    exact absurd hlength (by decide)
  · rw [habove] at hlength
    exact absurd hlength (by decide)
  · rw [hlist]
    simpa using h.plain.noSlash

/-- A name in a directory that the file system takes, with the path that leads there. -/
structure Fits (root name leaf : String) : Prop where
  name_le : name.utf8ByteSize ≤ maxName
  leaf_le : leaf.utf8ByteSize ≤ maxName
  path_lt : (join (join root name) leaf).utf8ByteSize < maxPath

instance (root name leaf : String) : Decidable (Fits root name leaf) :=
  decidable_of_iff (name.utf8ByteSize ≤ maxName ∧ leaf.utf8ByteSize ≤ maxName ∧
      (join (join root name) leaf).utf8ByteSize < maxPath)
    ⟨fun h => ⟨h.1, h.2.1, h.2.2⟩, fun h => ⟨h.name_le, h.leaf_le, h.path_lt⟩⟩

/-- What stands in front of a name that is joined to a path. -/
def lead (path : String) : String :=
  if path = "" then "" else if path.toList.getLast? == some '/' then path else path ++ "/"

theorem join_eq_lead (path : String) {name : String} (h : Plain name) : join path name = lead path ++ name := by
  rw [join, h.not_absolute, if_neg Bool.false_ne_true, lead]
  split
  · exact (String.empty_append).symm
  split
  · rfl
  · rfl

theorem le_lead (path : String) : path.utf8ByteSize ≤ (lead path).utf8ByteSize := by
  rw [lead]
  split
  · next hempty => exact hempty ▸ Nat.le_refl _
  split
  · exact Nat.le_refl _
  · rw [String.utf8ByteSize_append]
    exact Nat.le_add_right _ _

theorem noNul_join {path name : String} (hpath : Char.ofNat 0 ∉ path.toList) (h : Plain name)
    (hname : Char.ofNat 0 ∉ name.toList) : Char.ofNat 0 ∉ (join path name).toList := by
  rw [join_eq_lead path h, String.toList_append, List.mem_append, not_or]
  refine ⟨?_, hname⟩
  rw [lead]
  split
  · exact List.not_mem_nil
  split
  · exact hpath
  · rw [String.toList_append, List.mem_append, not_or]
    exact ⟨hpath, by decide⟩

/-- What fits for the temporary file fits for the value. -/
theorem Fits.value {root name key : String} (h : Fits root name (temporaryName key)) (hkey : Label key) :
    Fits root name key := by
  have hle : key.utf8ByteSize ≤ (temporaryName key).utf8ByteSize := by
    rw [temporaryName, String.utf8ByteSize_append, String.utf8ByteSize_append]
    omega
  refine ⟨h.name_le, Nat.le_trans hle h.leaf_le, Nat.lt_of_le_of_lt ?_ h.path_lt⟩
  rw [join_eq_lead _ hkey.plain, join_eq_lead _ (plain_temporaryName hkey), String.utf8ByteSize_append,
    String.utf8ByteSize_append]
  exact Nat.add_le_add_left hle _

theorem Fits.directory_lt {root name leaf : String} (h : Fits root name leaf) (hleaf : Plain leaf) :
    (join root name).utf8ByteSize < maxPath := by
  refine Nat.lt_of_le_of_lt (Nat.le_trans (le_lead _) ?_) h.path_lt
  rw [join_eq_lead _ hleaf, String.utf8ByteSize_append]
  exact Nat.le_add_right _ _

variable {t t' : FileTree} {root name key leaf path : String} {R p q : Place} {bytes : Bytes}

theorem find_of_fits (t : FileTree) (hpath : path ≠ "") (hnul : Char.ofNat 0 ∉ path.toList)
    (hlt : path.utf8ByteSize < maxPath) : t.find path = t.walk (t.start path) (names path) := by
  have hcontains : ¬ path.toList.contains (Char.ofNat 0) = true := by
    rw [List.contains_iff_mem]
    exact hnul
  rw [find, if_neg hcontains, if_neg hpath, if_neg (Nat.not_le.2 hlt)]
  rfl

theorem Based.noNul (h : t.Based root R) : Char.ofNat 0 ∉ root.toList := by
  obtain ⟨rfl, -⟩ | ⟨-, hfind⟩ := h
  · exact List.not_mem_nil
  · intro hnul
    rw [find, if_pos (List.contains_iff_mem.2 hnul)] at hfind
    cases hfind

/-- Nothing but name spaces and files in them is in the way of a value below this place. -/
structure Orderly (t : FileTree) (R : Place) : Prop where
  spaces (name : String) (h : Label name) : t.files.lookup (R ++ [name]) = none
  leaves (name leaf : String) (h : Label name) : t.hasDirectory (R ++ [name, leaf]) = false
  housed (name leaf : String) (bytes : Bytes) (h : Label name) (hfile : t.files.lookup (R ++ [name, leaf]) = some bytes) :
    t.hasDirectory (R ++ [name])

/-- What the path of a leaf leads to. -/
def leafAt (t : FileTree) (R : Place) (name leaf : String) : Except FileError Found :=
  match t.files.lookup (R ++ [name, leaf]) with
  | some bytes => .ok (.file (R ++ [name, leaf]) bytes)
  | none => if t.hasDirectory (R ++ [name]) then .ok (.missing (R ++ [name, leaf]) false) else .error .noEntry

theorem Orderly.walk_leaf (h : t.Orderly R) (hname : Label name) (hleaf : Plain leaf)
    (hfits : Fits root name leaf) : t.walk R [name, leaf] = t.leafAt R name leaf := by
  have hplace : R ++ [name] ++ [leaf] = R ++ [name, leaf] := by simp
  rw [walk_cons t R hname.plain, if_neg (Nat.not_lt.2 hfits.name_le), leafAt]
  by_cases hdir : t.hasDirectory (R ++ [name])
  · rw [if_pos hdir, walk_cons t _ hleaf, if_neg (Nat.not_lt.2 hfits.leaf_le), hplace, h.leaves name leaf hname, look]
    cases t.files.lookup (R ++ [name, leaf]) with
    | some bytes => rfl
    | none => simp [hdir]
  · rw [if_neg hdir, look, h.spaces name hname]
    cases hfile : t.files.lookup (R ++ [name, leaf]) with
    | some bytes => exact absurd (h.housed name leaf bytes hname hfile) hdir
    | none => simp [hdir, hleaf.notEmpty]

theorem Orderly.find_leaf (h : t.Orderly R) (hbased : t.Based root R) (hname : Label name) (hleaf : Plain leaf)
    (hnul : Char.ofNat 0 ∉ leaf.toList) (hfits : Fits root name leaf) :
    t.find (join (join root name) leaf) = t.leafAt R name leaf := by
  rw [find_of_fits t (join_ne_empty _ hleaf) (noNul_join (noNul_join hbased.noNul hname.plain hname.noNul) hleaf hnul)
    hfits.path_lt, hbased.walk_path hname.plain hleaf, h.walk_leaf hname hleaf hfits]

section leaf

variable (hfind : t.find path = t.leafAt R name leaf)

include hfind

theorem readFile_leaf : t.readFile path = match t.files.lookup (R ++ [name, leaf]) with
    | some bytes => .ok bytes
    | none => .error .noEntry := by
  rw [readFile, hfind, leafAt]
  cases t.files.lookup (R ++ [name, leaf]) with
  | some bytes => rfl
  | none => cases t.hasDirectory (R ++ [name]) <;> rfl

theorem isFile_leaf : t.isFile path = (t.files.lookup (R ++ [name, leaf])).isSome := by
  rw [isFile, hfind, leafAt]
  cases t.files.lookup (R ++ [name, leaf]) with
  | some bytes => rfl
  | none => cases t.hasDirectory (R ++ [name]) <;> rfl

theorem removeFile_leaf : t.removeFile path = match t.files.lookup (R ++ [name, leaf]) with
    | some _ => .ok (t.eraseFile (R ++ [name, leaf]))
    | none => .error .noEntry := by
  rw [removeFile, hfind, leafAt]
  cases t.files.lookup (R ++ [name, leaf]) with
  | some bytes => rfl
  | none => cases t.hasDirectory (R ++ [name]) <;> rfl

theorem writeFile_leaf (hdir : t.hasDirectory (R ++ [name])) (bytes : Bytes) :
    t.writeFile path bytes = .ok (t.insertFile (R ++ [name, leaf]) bytes) := by
  rw [writeFile, hfind, leafAt]
  cases t.files.lookup (R ++ [name, leaf]) with
  | some old => rfl
  | none =>
    rw [hdir]
    rfl

end leaf

theorem renameFile_leaf {target leaf' : String} (hfind : t.find path = t.leafAt R name leaf)
    (hto : t.find target = t.leafAt R name leaf') (hfile : t.files.lookup (R ++ [name, leaf]) = some bytes)
    (hdir : t.hasDirectory (R ++ [name])) (hne : leaf' ≠ leaf) :
    t.renameFile path target =
      .ok ((t.eraseFile (R ++ [name, leaf])).insertFile (R ++ [name, leaf']) bytes) := by
  have hplaces : R ++ [name, leaf'] ≠ R ++ [name, leaf] := by simpa using hne
  rw [renameFile, hfind, leafAt, hfile]
  change (t.find target >>= _) = _
  rw [hto, leafAt]
  cases t.files.lookup (R ++ [name, leaf']) with
  | some old => exact congrArg Except.ok (if_neg hplaces)
  | none =>
    rw [hdir]
    rfl

theorem space_ne_leaf (R : Place) (n name leaf : String) : R ++ [n] ≠ R ++ [name, leaf] := by simp

theorem leaf_eq_iff (R : Place) (n l name leaf : String) :
    R ++ [n, l] = R ++ [name, leaf] ↔ n = name ∧ l = leaf := by simp

theorem Orderly.insertFile (h : t.Orderly R) (hdir : t.hasDirectory (R ++ [name])) (leaf : String) (bytes : Bytes) :
    (t.insertFile (R ++ [name, leaf]) bytes).Orderly R where
  spaces n hn := (lookup_insertFile_of_ne t bytes (space_ne_leaf R n name leaf)).trans (h.spaces n hn)
  leaves := h.leaves
  housed n l b hn hfile := by
    by_cases hsame : n = name ∧ l = leaf
    · rw [hsame.1]
      exact hdir
    · rw [lookup_insertFile_of_ne t bytes (mt (leaf_eq_iff R n l name leaf).1 hsame)] at hfile
      exact h.housed n l b hn hfile

theorem Orderly.eraseFile (h : t.Orderly R) (p : Place) : (t.eraseFile p).Orderly R := by
  have hkept (q : Place) (b : Bytes) (hfile : (t.eraseFile p).files.lookup q = some b) : t.files.lookup q = some b := by
    by_cases hq : q = p
    · rw [hq, lookup_eraseFile_self] at hfile
      cases hfile
    · rwa [lookup_eraseFile_of_ne t hq] at hfile
  refine ⟨fun n hn => ?_, h.leaves, fun n l b hn hfile => h.housed n l b hn (hkept _ _ hfile)⟩
  cases hfile : (t.eraseFile p).files.lookup (R ++ [n]) with
  | none => rfl
  | some b => exact absurd ((h.spaces n hn).symm.trans (hkept _ _ hfile)) nofun

theorem Orderly.withDirectory (h : t.Orderly R) (name : String) : (t.withDirectory (R ++ [name])).Orderly R where
  spaces := h.spaces
  leaves n l hn := by
    rw [hasDirectory_withDirectory, h.leaves n l hn, Bool.false_or, beq_eq_false_iff_ne]
    exact (space_ne_leaf R name n l).symm
  housed n l b hn hfile := (t.withDirectory_widens _).directories _ (h.housed n l b hn hfile)

/-- Below this place the tree holds what the map does. -/
structure Holds (R : Place) (C : Contents) (t : FileTree) : Prop where
  orderly : t.Orderly R
  value (name key : String) (hname : Label name) (hkey : Label key) : t.files.lookup (R ++ [name, key]) = C name key

/-- Where nothing lies below the place yet, there is no value. -/
theorem holds_of_clear (hfile : ∀ p, p ≠ [] → t.files.lookup (R ++ p) = none)
    (hdir : ∀ p, p ≠ [] → t.hasDirectory (R ++ p) = false) : Holds R (fun _ _ => none) t where
  orderly :=
    { spaces := fun _ _ => hfile _ (List.cons_ne_nil _ _)
      leaves := fun _ _ _ => hdir _ (List.cons_ne_nil _ _)
      housed := fun _ _ _ _ h => absurd ((hfile _ (List.cons_ne_nil _ _)).symm.trans h) nofun }
  value _ _ _ _ := hfile _ (List.cons_ne_nil _ _)

variable {C : Contents}

theorem Holds.insertFile (h : Holds R C t) (hdir : t.hasDirectory (R ++ [name])) (leaf : String) (bytes : Bytes) :
    Holds R (C.set name leaf (some bytes)) (t.insertFile (R ++ [name, leaf]) bytes) where
  orderly := h.orderly.insertFile hdir leaf bytes
  value n k hn hk := by
    by_cases hsame : n = name ∧ k = leaf
    · obtain ⟨rfl, rfl⟩ := hsame
      rw [lookup_insertFile_self, C.set_self]
    · rw [lookup_insertFile_of_ne t bytes (mt (leaf_eq_iff R n k name leaf).1 hsame), C.set_of_ne _ hsame]
      exact h.value n k hn hk

theorem Holds.eraseFile (h : Holds R C t) (name leaf : String) :
    Holds R (C.set name leaf none) (t.eraseFile (R ++ [name, leaf])) where
  orderly := h.orderly.eraseFile _
  value n k hn hk := by
    by_cases hsame : n = name ∧ k = leaf
    · obtain ⟨rfl, rfl⟩ := hsame
      rw [lookup_eraseFile_self, C.set_self]
    · rw [lookup_eraseFile_of_ne t (mt (leaf_eq_iff R n k name leaf).1 hsame), C.set_of_ne _ hsame]
      exact h.value n k hn hk

theorem Holds.withDirectory (h : Holds R C t) (name : String) : Holds R C (t.withDirectory (R ++ [name])) :=
  ⟨h.orderly.withDirectory name, h.value⟩

/-- No value lies where a temporary file does. -/
theorem Holds.of_temporary {v : Option Bytes} (h : Holds R (C.set name (temporaryName key) v) t) : Holds R C t := by
  refine ⟨h.orderly, fun n k hn hk => (h.value n k hn hk).trans (C.set_of_ne v fun hsame => ?_)⟩
  exact temporaryName_ne hk key hsame.2

/-- A value that is not there is none, whether it was deleted or not. -/
theorem Holds.set_none (h : Holds R C t) (hname : Label name) (hkey : Label key)
    (hnone : t.files.lookup (R ++ [name, key]) = none) : Holds R (C.set name key none) t := by
  refine ⟨h.orderly, fun n k hn hk => ?_⟩
  by_cases hsame : n = name ∧ k = key
  · obtain ⟨rfl, rfl⟩ := hsame
    rw [hnone, C.set_self]
  · rw [C.set_of_ne _ hsame]
    exact h.value n k hn hk

theorem insertFile_widens (t : FileTree) (p : Place) (bytes : Bytes) : t.Widens (t.insertFile p bytes) := ⟨rfl, fun _ h => h⟩

theorem eraseFile_widens (t : FileTree) (p : Place) : t.Widens (t.eraseFile p) := ⟨rfl, fun _ h => h⟩

/-- Making a name space leaves every value as it was. -/
theorem Holds.makeDirectories (h : Holds R C t) (hbased : t.Based root R) (hname : Label name)
    (hle : name.utf8ByteSize ≤ maxName) (hlt : (join root name).utf8ByteSize < maxPath) :
    ∃ made, t.makeDirectories (join root name) = (.ok (), made) ∧ made.hasDirectory (R ++ [name]) ∧
      Holds R C made ∧ t.Widens made := by
  have hpath := join_ne_empty root hname.plain
  have hfind : t.find (join root name) = t.walk R [name] := by
    rw [find_of_fits t hpath (noNul_join hbased.noNul hname.plain hname.noNul) hlt, hbased.walk_directory hname.plain]
  have hensure := ensureDirectory_eq t (join root name)
  rw [hfind, walk_cons t R hname.plain, if_neg (Nat.not_lt.2 hle)] at hensure
  by_cases hdir : t.hasDirectory (R ++ [name])
  · rw [if_pos hdir] at hensure
    exact ⟨t, makeDirectories_of_ensured hpath hensure, hdir, h, .refl t⟩
  · rw [if_neg hdir, look, h.orderly.spaces name hname] at hensure
    exact ⟨_, makeDirectories_of_ensured hpath hensure, t.hasDirectory_made _, h.withDirectory name,
      t.withDirectory_widens _⟩

end FileTree

namespace FileStore

open FileTree (Label Fits Holds temporaryName plain_temporaryName)

structure Names (root name key : String) : Prop where
  name_label : Label name
  key_label : Label key
  fits : Fits root name (temporaryName key)

instance (root name key : String) : Decidable (Names root name key) :=
  decidable_of_iff (Label name ∧ Label key ∧ Fits root name (temporaryName key))
    ⟨fun h => ⟨h.1, h.2.1, h.2.2⟩, fun h => ⟨h.name_label, h.key_label, h.fits⟩⟩

variable {s : FileStore} {name key : String} {R : Place} {C : Contents} {bytes : Bytes}

theorem find_value (h : s.tree.Orderly R) (hbased : s.tree.Based s.root R) (hnames : Names s.root name key) :
    s.tree.find (s.path name key) = s.tree.leafAt R name key :=
  h.find_leaf hbased hnames.name_label hnames.key_label.plain hnames.key_label.noNul
    (hnames.fits.value hnames.key_label)

theorem find_temporary (h : s.tree.Orderly R) (hbased : s.tree.Based s.root R) (hnames : Names s.root name key) :
    s.tree.find (s.temporary name key) = s.tree.leafAt R name (temporaryName key) := by
  have hnul : Char.ofNat 0 ∉ (temporaryName key).toList := by
    rw [FileTree.toList_temporaryName]
    simpa using hnames.key_label.noNul
  exact h.find_leaf hbased hnames.name_label (plain_temporaryName hnames.key_label) hnul hnames.fits

/-- The trees between the steps of a write, and what they hold. -/
structure WriteSteps (R : Place) (C : Contents) (s : FileStore) (name key : String) (bytes : Bytes)
    (made filled renamed : FileTree) : Prop where
  make : s.tree.makeDirectories (s.directory name) = (.ok (), made)
  fill : made.writeFile (s.temporary name key) bytes = .ok filled
  rename : filled.renameFile (s.temporary name key) (s.path name key) = .ok renamed
  made_holds : Holds R C made
  filled_holds : Holds R C filled
  renamed_holds : Holds R (C.set name key (some bytes)) renamed
  made_widens : s.tree.Widens made
  filled_widens : s.tree.Widens filled
  renamed_widens : s.tree.Widens renamed

theorem WriteSteps.write_eq {made filled renamed : FileTree} (h : WriteSteps R C s name key bytes made filled renamed) :
    s.write name key bytes = (.ok (), { s with tree := renamed }) := by
  rw [write, h.make]
  dsimp only
  rw [h.fill]
  dsimp only
  rw [h.rename]

section calls

variable (h : Holds R C s.tree) (hbased : s.tree.Based s.root R) (hnames : Names s.root name key)

include h hbased hnames

theorem read_eq (size : Nat) : s.read name key size = C.read name key size := by
  rw [read, FileTree.readFile_leaf (find_value h.orderly hbased hnames), Contents.read,
    h.value name key hnames.name_label hnames.key_label]
  cases C name key <;> rfl

theorem contains_eq : s.contains name key = (C name key).isSome := by
  rw [contains, FileTree.isFile_leaf (find_value h.orderly hbased hnames),
    h.value name key hnames.name_label hnames.key_label]

theorem delete_eq : ∃ t, s.delete name key = (.ok (), { s with tree := t }) ∧ Holds R (C.set name key none) t ∧
    s.tree.Widens t := by
  rw [delete, FileTree.removeFile_leaf (find_value h.orderly hbased hnames)]
  cases hfile : s.tree.files.lookup (R ++ [name, key]) with
  | some bytes => exact ⟨_, rfl, h.eraseFile name key, s.tree.eraseFile_widens _⟩
  | none => exact ⟨s.tree, rfl, h.set_none hnames.name_label hnames.key_label hfile, .refl _⟩

/-- The name space of a value is made first, and with it no value changes. -/
theorem make_eq : ∃ made, s.tree.makeDirectories (s.directory name) = (.ok (), made) ∧
    made.hasDirectory (R ++ [name]) ∧ Holds R C made ∧ s.tree.Widens made :=
  h.makeDirectories hbased hnames.name_label hnames.fits.name_le
    (hnames.fits.directory_lt (plain_temporaryName hnames.key_label))

/-- Whatever the temporary file is filled with, no value changes. -/
theorem fill_eq (hdir : s.tree.hasDirectory (R ++ [name])) (part : Bytes) :
    ∃ filled, s.tree.writeFile (s.temporary name key) part = .ok filled ∧
      filled.files.lookup (R ++ [name, temporaryName key]) = some part ∧ filled.hasDirectory (R ++ [name]) ∧
        Holds R C filled ∧ s.tree.Widens filled :=
  ⟨_, FileTree.writeFile_leaf (find_temporary h.orderly hbased hnames) hdir part,
    s.tree.lookup_insertFile_self _ part, hdir, (h.insertFile hdir _ part).of_temporary, s.tree.insertFile_widens _ part⟩

/-- The temporary file takes the name of the value. -/
theorem rename_eq (hdir : s.tree.hasDirectory (R ++ [name]))
    (hfile : s.tree.files.lookup (R ++ [name, temporaryName key]) = some bytes) :
    ∃ renamed, s.tree.renameFile (s.temporary name key) (s.path name key) = .ok renamed ∧
      Holds R (C.set name key (some bytes)) renamed ∧ s.tree.Widens renamed := by
  have hne := FileTree.temporaryName_ne hnames.key_label key
  refine ⟨_, FileTree.renameFile_leaf (find_temporary h.orderly hbased hnames) (find_value h.orderly hbased hnames)
    hfile hdir hne, ?_, (s.tree.eraseFile_widens _).trans (FileTree.insertFile_widens _ _ _)⟩
  have herased : Holds R C (s.tree.eraseFile (R ++ [name, temporaryName key])) := (h.eraseFile name _).of_temporary
  exact herased.insertFile hdir key bytes

/-- A write goes through all its steps. -/
theorem write_steps (bytes : Bytes) : ∃ made filled renamed, WriteSteps R C s name key bytes made filled renamed := by
  obtain ⟨made, hmade, hdir, hheld, hwide⟩ := make_eq h hbased hnames
  obtain ⟨filled, hfilled, hfile, hdir', hheld', hwide'⟩ :=
    fill_eq (s := ⟨s.root, made⟩) hheld (hbased.widens hwide) hnames hdir bytes
  obtain ⟨renamed, hrenamed, hheld'', hwide''⟩ :=
    rename_eq (s := ⟨s.root, filled⟩) hheld' ((hbased.widens hwide).widens hwide') hnames hdir' hfile
  exact ⟨made, filled, renamed,
    { make := hmade
      fill := hfilled
      rename := hrenamed
      made_holds := hheld
      filled_holds := hheld'
      renamed_holds := hheld''
      made_widens := hwide
      filled_widens := hwide.trans hwide'
      renamed_widens := (hwide.trans hwide').trans hwide'' }⟩

end calls

end FileStore

end KeyFob
