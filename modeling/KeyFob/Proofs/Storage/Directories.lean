import KeyFob.Proofs.Storage.Tree

/-!
Directories that are made. Where a directory could be made it is found, with everything else as it was; and making the
directory of a value, below a place that is there, adds at most this one directory.
-/

namespace KeyFob

namespace FileTree

variable {t t' : FileTree} {root name key path : String} {p R : Place}

/-- Plain names joined to this path are followed from this place. -/
def Based (t : FileTree) (root : String) (R : Place) : Prop :=
  (root = "" ∧ R = t.workingDirectory) ∨ (root ≠ "" ∧ t.find root = .ok (.directory R))

/-- Files lie in directories. -/
def Sound (t : FileTree) : Prop := ∀ p bytes, t.files.lookup p = some bytes → t.hasDirectory p.dropLast

theorem join_empty (hname : Plain name) : join "" name = name := by
  rw [join, hname.not_absolute]
  rfl

theorem names_join_concat (root : String) (hname : Plain name) : ∃ ns, names (join root name) = ns ++ [name] := by
  by_cases hroot : root = ""
  · exact ⟨[], by rw [hroot, join_empty hname, hname.names]; rfl⟩
  · obtain ⟨ns, hns, -⟩ := names_join hroot hname
    exact ⟨ns, hns⟩

theorem join_ne_empty (root : String) (hname : Plain name) : join root name ≠ "" := by
  intro h
  obtain ⟨ns, hns⟩ := names_join_concat root hname
  have hblank : [""] = ns ++ [name] := by
    rw [← hns, h]
    rfl
  have hparts : ([] : List String) ++ [""] = ns ++ [name] := hblank
  exact hname.notEmpty (List.append_inj_right' hparts rfl |> List.cons.inj |>.1).symm

theorem start_join (hroot : root ≠ "") (hname : Plain name) : t.start (join root name) = t.start root := by
  rw [start, isAbsolute_join hroot hname]
  rfl

theorem names_join_join (hname : Plain name) (hkey : Plain key) :
    names (join (join root name) key) = names (join root name) ++ [key] := by
  obtain ⟨ns, hns, heq | heq⟩ := names_join (join_ne_empty root hname) hkey
  · rw [hns, heq]
  · -- A plain name at its end leaves the directory's path no slash there.
    obtain ⟨ns', hns'⟩ := names_join_concat root hname
    exact absurd (List.append_inj_right' (hns'.symm.trans heq) rfl |> List.cons.inj |>.1) hname.notEmpty

/-- From the place of the root on, the path is followed as its last names say. -/
theorem Based.descend (h : t.Based root R) (hname : Plain name) (more : List String) :
    FileTree.descend t.hasDirectory (t.start (join root name)) (names (join root name) ++ more) =
      FileTree.descend t.hasDirectory R (name :: more) := by
  obtain ⟨rfl, rfl⟩ | ⟨hroot, hfind⟩ := h
  · rw [join_empty hname, hname.names, start, hname.not_absolute]
    rfl
  obtain ⟨ns, hns, hroots⟩ := names_join hroot hname
  have hwithin : FileTree.descend t.hasDirectory (t.start root) (names root) = .ok (.within R) :=
    walk_eq_directory.1 ((find_eq_walk hfind t).symm.trans hfind)
  have hbase : FileTree.descend t.hasDirectory (t.start root) ns = .ok (.within R) := by
    rcases hroots with heq | heq
    · exact heq ▸ hwithin
    · exact descend_concat_blank ns (heq ▸ hwithin)
  rw [start_join hroot hname, hns, List.append_assoc, List.singleton_append]
  exact descend_append ns _ hbase

theorem Based.walk_directory (h : t.Based root R) (hname : Plain name) :
    t.walk (t.start (join root name)) (names (join root name)) = t.walk R [name] := by
  have hd := h.descend hname []
  rw [List.append_nil] at hd
  rw [walk_eq, hd, walk_eq]

theorem Based.walk_path (h : t.Based root R) (hname : Plain name) (hkey : Plain key) :
    t.walk (t.start (join (join root name) key)) (names (join (join root name) key)) = t.walk R [name, key] := by
  rw [walk_eq, start_join (join_ne_empty root hname) hkey, names_join_join hname hkey, h.descend hname [key], walk_eq]

/-- The path of the directory is refused whatever the tree, or leads on from the place of the root. -/
theorem find_directory (root : String) (hname : Plain name) :
    (∃ e, e ≠ .noEntry ∧ ∀ t : FileTree, t.find (join root name) = .error e) ∨
      ∀ (t : FileTree) (R : Place), t.Based root R → t.find (join root name) = t.walk R [name] :=
  (find_cases (join_ne_empty root hname)).imp_right fun hwalk t _ h => (hwalk t).trans (h.walk_directory hname)

theorem find_path (root : String) (hname : Plain name) (hkey : Plain key) :
    (∃ e, ∀ t : FileTree, t.find (join (join root name) key) = .error e) ∨
      ∀ (t : FileTree) (R : Place), t.Based root R → t.find (join (join root name) key) = t.walk R [name, key] := by
  obtain ⟨e, -, he⟩ | hwalk := find_cases (join_ne_empty (join root name) hkey)
  · exact Or.inl ⟨e, he⟩
  · exact Or.inr fun t R h => (hwalk t).trans (h.walk_path hname hkey)

def withDirectory (t : FileTree) (p : Place) : FileTree := { t with directories := p :: t.directories }

theorem hasDirectory_withDirectory (t : FileTree) (p q : Place) :
    (t.withDirectory p).hasDirectory q = (t.hasDirectory q || q == p) := by
  simp only [hasDirectory, withDirectory, List.contains_cons]
  cases q.isEmpty <;> cases q == p <;> simp

structure Grows (t t' : FileTree) : Prop where
  files : t'.files = t.files
  directories (p : Place) (h : t.hasDirectory p) : t'.hasDirectory p

theorem Grows.refl (t : FileTree) : t.Grows t := ⟨rfl, fun _ h => h⟩

theorem Grows.trans {t'' : FileTree} (h : t.Grows t') (h' : t'.Grows t'') : t.Grows t'' :=
  ⟨h'.files.trans h.files, fun p hp => h'.directories p (h.directories p hp)⟩

theorem Grows.sound (h : t.Grows t') (ht : t.Sound) : t'.Sound := fun p bytes hp =>
  h.directories _ (ht p bytes (h.files ▸ hp))

theorem hasDirectory_made (t : FileTree) (p : Place) : (t.withDirectory p).hasDirectory p := by
  rw [hasDirectory_withDirectory, beq_self_eq_true, Bool.or_true]

theorem withDirectory_grows (t : FileTree) (p : Place) : t.Grows (t.withDirectory p) := by
  refine ⟨rfl, fun q hq => ?_⟩
  rw [hasDirectory_withDirectory, hq]
  rfl

structure Widens (t t' : FileTree) : Prop where
  here : t'.workingDirectory = t.workingDirectory
  directories (p : Place) (h : t.hasDirectory p) : t'.hasDirectory p

theorem Widens.refl (t : FileTree) : t.Widens t := ⟨rfl, fun _ h => h⟩

theorem Widens.trans {t'' : FileTree} (h : t.Widens t') (h' : t'.Widens t'') : t.Widens t'' :=
  ⟨h'.here.trans h.here, fun p hp => h'.directories p (h.directories p hp)⟩

theorem Based.widens (h : t.Based root R) (hmore : t.Widens t') : t'.Based root R := by
  obtain ⟨hroot, hR⟩ | ⟨hroot, hfind⟩ := h
  · exact Or.inl ⟨hroot, hR.trans hmore.here.symm⟩
  refine Or.inr ⟨hroot, ?_⟩
  have hwalk := find_eq_walk hfind
  have hstart : t'.start root = t.start root := by rw [start, start, hmore.here]
  rw [hwalk, walk_eq_directory] at hfind
  rw [hwalk, walk_eq_directory, hstart]
  exact descend_within_mono hmore.directories hfind

theorem withDirectory_widens (t : FileTree) (p : Place) : t.Widens (t.withDirectory p) :=
  ⟨rfl, (t.withDirectory_grows p).directories⟩

/-- A plain name leads into a directory, or out of the directories. -/
theorem walk_cons (t : FileTree) (R : Place) (hname : Plain name) (rest : List String) :
    t.walk R (name :: rest) =
      if maxName < name.utf8ByteSize then .error .nameTooLong
      else if t.hasDirectory (R ++ [name]) then t.walk (R ++ [name]) rest
      else look t.files (.leaves (R ++ [name]) rest) := by
  rw [walk_eq, FileTree.descend, if_neg (not_or.2 ⟨hname.notEmpty, hname.notHere⟩), if_neg hname.notAbove, walk_eq]
  split_ifs <;> rfl

theorem ensureDirectory_eq (t : FileTree) (path : String) :
    t.ensureDirectory path = match t.find path with
      | .error e => .error e
      | .ok (.directory _) => .ok t
      | .ok (.file _ _) => .error .occupied
      | .ok (.missing p _) => .ok (t.withDirectory p) := by
  rw [ensureDirectory, makeDirectory, isDirectory]
  cases t.find path with
  | error e => rfl
  | ok found => cases found <;> rfl

/-- Where the path itself is not missed, nothing is made above it. -/
theorem makeDirectories_of_ensure {path : String} (hpath : path ≠ "") (h : t.ensureDirectory path ≠ .error .noEntry) :
    (t.makeDirectories path).2 = match t.ensureDirectory path with
      | .ok t' => t'
      | .error _ => t := by
  rw [makeDirectories, if_neg hpath, makeDirectoriesFrom.eq_def]
  cases he : t.ensureDirectory path with
  | ok t' => rfl
  | error e =>
    rw [he] at h
    cases e with
    | noEntry => exact absurd rfl h
    | _ => rfl

theorem makeDirectories_of_ensured {path : String} (hpath : path ≠ "") (h : t.ensureDirectory path = .ok t') :
    t.makeDirectories path = (.ok (), t') := by
  rw [makeDirectories, if_neg hpath, makeDirectoriesFrom.eq_def, h]

/-- The directory of a value is there, or it is made, or neither is possible. -/
theorem makeDirectories_join (h : t.Based root R) (hname : Plain name) :
    (t.makeDirectories (join root name)).2 = t ∨
      (t.makeDirectories (join root name)).2 = t.withDirectory (R ++ [name]) ∧ ¬ maxName < name.utf8ByteSize ∧
        t.hasDirectory (R ++ [name]) = false ∧ t.files.lookup (R ++ [name]) = none := by
  have hensure := ensureDirectory_eq t (join root name)
  have refused {e : FileError} (he : t.ensureDirectory (join root name) = .error e) (hne : e ≠ .noEntry) :
      (t.makeDirectories (join root name)).2 = t := by
    rw [makeDirectories_of_ensure (join_ne_empty root hname) (by simpa [he] using hne), he]
  obtain ⟨e, hne, he⟩ | hwalk := find_directory root hname
  · rw [he t] at hensure
    exact Or.inl (refused hensure hne)
  rw [hwalk t R h, walk_cons t R hname] at hensure
  split_ifs at hensure with hlong hdir
  · exact Or.inl (refused hensure (by decide))
  · simp only [walk] at hensure
    exact Or.inl (by rw [makeDirectories_of_ensure (join_ne_empty root hname) (by simp [hensure]), hensure])
  · cases hl : t.files.lookup (R ++ [name]) with
    | some bytes =>
      simp only [look, hl, if_true] at hensure
      exact Or.inl (refused hensure (by decide))
    | none =>
      simp only [look, hl, List.all_nil, if_true] at hensure
      refine Or.inr ⟨?_, hlong, Bool.eq_false_iff.2 hdir, rfl⟩
      rw [makeDirectories_of_ensure (join_ne_empty root hname) (by simp [hensure]), hensure]

/-- A directory that was missing is found once it is made. -/
theorem find_withDirectory {asDirectory : Bool} (h : t.find path = .ok (.missing p asDirectory)) :
    (t.withDirectory p).find path = .ok (.directory p) := by
  have hwalk := find_eq_walk h
  rw [hwalk] at h
  rw [hwalk, walk_eq_directory]
  obtain ⟨e, -, hw⟩ | ⟨place, -, hw⟩ | ⟨there, rest, hd, hw⟩ := walk_cases t (t.start path) (names path)
  · cases hw.symm.trans h
  · cases hw.symm.trans h
  · obtain ⟨rfl, hrest, -⟩ := look_eq_missing (hw.symm.trans h)
    exact descend_made (t.withDirectory_grows there).directories (t.hasDirectory_made there) hrest hd

theorem find_ensured (h : t.ensureDirectory path = .ok t') : ∃ R, t'.find path = .ok (.directory R) := by
  rw [ensureDirectory_eq] at h
  cases hf : t.find path with
  | error e => rw [hf] at h; cases h
  | ok found =>
    rw [hf] at h
    cases found with
    | directory R =>
      cases h
      exact ⟨R, hf⟩
    | file q bytes => cases h
    | missing q a =>
      cases h
      exact ⟨q, find_withDirectory hf⟩

theorem ensureDirectory_grows (h : t.ensureDirectory path = .ok t') : t.Grows t' := by
  rw [ensureDirectory_eq] at h
  split at h
  · cases h
  · cases h
    exact .refl t
  · cases h
  · cases h
    exact t.withDirectory_grows _

/-- Directories were made and nothing else was done, and if all went well, this one is there. -/
def Made (t : FileTree) (path : String) (r : Except FileError Unit × FileTree) : Prop :=
  t.Grows r.2 ∧ (r.1 = .ok () → ∃ R, r.2.find path = .ok (.directory R))

/-- The last directory is made behind those above it. -/
theorem made_below (path : String) (r : Except FileError Unit × FileTree) :
    t.Grows r.2 → t.Made path (match r with
      | (.ok (), t₁) => match t₁.ensureDirectory path with
        | .ok t₂ => (.ok (), t₂)
        | .error e => (.error e, t₁)
      | failed => failed) := by
  intro h
  obtain ⟨_ | _, t₁⟩ := r
  · exact ⟨h, nofun⟩
  dsimp only
  cases he : t₁.ensureDirectory path with
  | error e => exact ⟨h, nofun⟩
  | ok t₂ => exact ⟨h.trans (ensureDirectory_grows he), fun _ => find_ensured he⟩

theorem makeDirectoriesFrom_made (t : FileTree) (absolute : Bool) (above : List String) (path : String) :
    t.Made path (t.makeDirectoriesFrom absolute above path) := by
  fun_induction makeDirectoriesFrom t absolute above path with
  | case1 above path t' he => exact ⟨ensureDirectory_grows he, fun _ => find_ensured he⟩
  | case2 => exact ⟨.refl t, nofun⟩
  | case3 path _ _ _ _ _ _ _ _ ih => exact made_below path _ ih.1
  | case4 path _ _ _ _ _ _ _ _ ih => exact made_below path _ ih.1
  | case5 path _ _ _ _ _ ih => exact made_below path _ ih.1
  | case6 => exact ⟨.refl t, nofun⟩

theorem makeDirectories_based (h : (t.makeDirectories path).1 = .ok ()) :
    t.Grows (t.makeDirectories path).2 ∧ ∃ R, (t.makeDirectories path).2.Based path R := by
  by_cases hpath : path = ""
  · rw [makeDirectories, if_pos hpath]
    exact ⟨.refl t, _, Or.inl ⟨hpath, rfl⟩⟩
  · rw [makeDirectories, if_neg hpath] at h ⊢
    obtain ⟨hgrows, hfound⟩ := makeDirectoriesFrom_made t (isAbsolute path)
      ((names path).filter fun n => n != "" && n != ".").dropLast path
    obtain ⟨R, hR⟩ := hfound h
    exact ⟨hgrows, R, Or.inr ⟨hpath, hR⟩⟩

end FileTree

end KeyFob
