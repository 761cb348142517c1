import Mathlib.Tactic.SplitIfs
import KeyFob.Storage.FileTree
import KeyFob.Storage.Memory

/-!
Where a path leads. Only the directories decide how far a path can be followed; what lies at the place where it leaves
them is looked up among the files. So a change to the files moves no path, and a new directory lengthens only those that
lead to its place.
-/

namespace KeyFob.FileTree

/-- How far the directories lead: to the end of the path, or to a place outside of them with names left. -/
inductive Descent
  | within (place : Place)
  | leaves (there : Place) (rest : List String)

def descend (isDir : Place → Bool) : Place → List String → Except FileError Descent
  | here, [] => .ok (.within here)
  | here, name :: rest =>
    if name = "" ∨ name = "." then descend isDir here rest
    else if name = ".." then descend isDir here.dropLast rest
    else if maxName < name.utf8ByteSize then .error .nameTooLong
    else if isDir (here ++ [name]) then descend isDir (here ++ [name]) rest
    else .ok (.leaves (here ++ [name]) rest)

def look (files : List (Place × Bytes)) : Descent → Except FileError Found
  | .within place => .ok (.directory place)
  | .leaves there rest =>
    match files.lookup there with
    | some bytes => if rest = [] then .ok (.file there bytes) else .error .notDirectory
    | none => if rest.all (· == "") then .ok (.missing there !rest.isEmpty) else .error .noEntry

variable {t t' : FileTree} {isDir isDir' : Place → Bool} {here place R : Place} {ns : List String} {bytes : Bytes}

theorem walk_eq (t : FileTree) (here : Place) (ns : List String) :
    t.walk here ns = descend t.hasDirectory here ns >>= look t.files := by
  induction ns generalizing here with
  | nil => rfl
  | cons name rest ih =>
    rw [walk, descend]
    split
    · exact ih here
    split
    · exact ih here.dropLast
    split
    · rfl
    dsimp only
    split
    · exact ih (here ++ [name])
    · rfl

/-- The ways in which a walk can end. -/
theorem walk_cases (t : FileTree) (here : Place) (ns : List String) :
    (∃ e, descend t.hasDirectory here ns = .error e ∧ t.walk here ns = .error e) ∨
    (∃ place, descend t.hasDirectory here ns = .ok (.within place) ∧ t.walk here ns = .ok (.directory place)) ∨
    ∃ there rest, descend t.hasDirectory here ns = .ok (.leaves there rest) ∧
      t.walk here ns = look t.files (.leaves there rest) := by
  rw [walk_eq]
  cases descend t.hasDirectory here ns with
  | error e => exact Or.inl ⟨e, rfl, rfl⟩
  | ok found =>
    cases found with
    | within place => exact Or.inr (Or.inl ⟨place, rfl, rfl⟩)
    | leaves there rest => exact Or.inr (Or.inr ⟨there, rest, rfl, rfl⟩)

theorem look_eq_file {files : List (Place × Bytes)} {there q : Place} {rest : List String}
    (h : look files (.leaves there rest) = .ok (.file q bytes)) :
    there = q ∧ rest = [] ∧ files.lookup q = some bytes := by
  rw [look] at h
  cases hl : files.lookup there with
  | none =>
    rw [hl] at h
    dsimp only at h
    split at h
    · cases h
    · cases h
  | some b =>
    rw [hl] at h
    dsimp only at h
    split at h
    · next hrest =>
      cases h
      exact ⟨rfl, hrest, hl⟩
    · cases h

theorem look_eq_missing {files : List (Place × Bytes)} {there q : Place} {rest : List String} {asDirectory : Bool}
    (h : look files (.leaves there rest) = .ok (.missing q asDirectory)) :
    there = q ∧ rest.all (· == "") ∧ (asDirectory = false → rest = []) := by
  rw [look] at h
  split at h
  · split at h <;> cases h
  · split at h
    · next hrest =>
      cases h
      exact ⟨rfl, hrest, by simp⟩
    · cases h

theorem walk_eq_directory : t.walk here ns = .ok (.directory place) ↔
    descend t.hasDirectory here ns = .ok (.within place) := by
  obtain ⟨e, hd, hw⟩ | ⟨place', hd, hw⟩ | ⟨there, rest, hd, hw⟩ := walk_cases t here ns
  · simp [hd, hw]
  · simp [hd, hw]
  · rw [hd, hw]
    refine iff_of_false (fun h => ?_) (by simp)
    rw [look] at h
    split at h
    · split at h <;> cases h
    · split at h <;> cases h

/-- What was found is a file at this place, or the place for one. -/
def Takes (r : Except FileError Found) (q : Place) : Prop := (∃ bytes, r = .ok (.file q bytes)) ∨ r = .ok (.missing q false)

/-- The path leaves the directories at this place, and with it ends. -/
theorem walk_ends {q : Place} (h : Takes (t.walk here ns) q) : descend t.hasDirectory here ns = .ok (.leaves q []) := by
  obtain ⟨e, hd, hw⟩ | ⟨place', hd, hw⟩ | ⟨there, rest, hd, hw⟩ := walk_cases t here ns
  · simp [Takes, hw] at h
  · simp [Takes, hw] at h
  · rw [hw] at h
    rcases h with ⟨bytes, h⟩ | h
    · obtain ⟨rfl, rfl, -⟩ := look_eq_file h
      exact hd
    · obtain ⟨rfl, -, hrest⟩ := look_eq_missing h
      rw [hd, hrest rfl]

theorem lookup_of_walk {q : Place} (h : t.walk here ns = .ok (.file q bytes)) : t.files.lookup q = some bytes := by
  obtain ⟨e, hd, hw⟩ | ⟨place', hd, hw⟩ | ⟨there, rest, hd, hw⟩ := walk_cases t here ns
  · simp [hw] at h
  · simp [hw] at h
  · rw [hw] at h
    exact (look_eq_file h).2.2

/-- With the same directories, a path that ends outside of them finds the file that is put there. -/
theorem walk_to_file {q : Place} (hdirs : t'.hasDirectory = t.hasDirectory) (h : Takes (t.walk here ns) q)
    (hfile : t'.files.lookup q = some bytes) : t'.walk here ns = .ok (.file q bytes) := by
  rw [walk_eq, hdirs, walk_ends h]
  simp [bind, Except.bind, look, hfile]

theorem lookup_insertFile_self (t : FileTree) (p : Place) (bytes : Bytes) :
    (t.insertFile p bytes).files.lookup p = some bytes := by
  simp [insertFile]

theorem lookup_insertFile_of_ne (t : FileTree) {p q : Place} (bytes : Bytes) (h : q ≠ p) :
    (t.insertFile p bytes).files.lookup q = t.files.lookup q := by
  have hb : (q == p) = false := by simpa using h
  rw [insertFile, List.lookup_cons, hb]
  exact MemoryStore.lookup_filter_ne p q t.files h

theorem lookup_eraseFile_self (t : FileTree) (p : Place) : (t.eraseFile p).files.lookup p = none :=
  MemoryStore.lookup_filter_self p t.files

theorem lookup_eraseFile_of_ne (t : FileTree) {p q : Place} (h : q ≠ p) :
    (t.eraseFile p).files.lookup q = t.files.lookup q :=
  MemoryStore.lookup_filter_ne p q t.files h

/-- The place to which one name leads within the directories. -/
def enter (isDir : Place → Bool) (here : Place) (name : String) : Option Place :=
  if name = "" ∨ name = "." then some here
  else if name = ".." then some here.dropLast
  else if maxName < name.utf8ByteSize then none
  else if isDir (here ++ [name]) then some (here ++ [name])
  else none

theorem descend_of_enter {name : String} (h : enter isDir here name = some place) (rest : List String) :
    descend isDir here (name :: rest) = descend isDir place rest := by
  rw [enter] at h
  rw [descend]
  split_ifs at h ⊢
  · rw [Option.some.inj h]
  · rw [Option.some.inj h]
  · rw [Option.some.inj h]

/-- A descent that stays within the directories enters one after the other. -/
theorem descend_cons_within {name : String} {rest : List String} :
    descend isDir here (name :: rest) = .ok (.within place) ↔
      ∃ there, enter isDir here name = some there ∧ descend isDir there rest = .ok (.within place) := by
  refine ⟨fun h => ?_, fun ⟨there, he, h⟩ => descend_of_enter he rest ▸ h⟩
  rw [descend] at h
  rw [enter]
  split_ifs at h ⊢
  · exact ⟨_, rfl, h⟩
  · exact ⟨_, rfl, h⟩
  · exact ⟨_, rfl, h⟩
  · cases h

/-- A descent goes on from where its first names lead. -/
theorem descend_append (xs ys : List String) (h : descend isDir here xs = .ok (.within R)) :
    descend isDir here (xs ++ ys) = descend isDir R ys := by
  induction xs generalizing here with
  | nil =>
    cases h
    rfl
  | cons name rest ih =>
    obtain ⟨there, he, h⟩ := descend_cons_within.1 h
    rw [List.cons_append, descend_of_enter he]
    exact ih h

/-- A slash at its end leads a path within the directories no further. -/
theorem descend_concat_blank (xs : List String) (h : descend isDir here (xs ++ [""]) = .ok (.within R)) :
    descend isDir here xs = .ok (.within R) := by
  induction xs generalizing here with
  | nil => exact h
  | cons name rest ih =>
    obtain ⟨there, he, h⟩ := descend_cons_within.1 h
    rw [descend_of_enter he]
    exact ih h

/-- More directories lead no path astray that stays within them. -/
theorem descend_within_mono (hmore : ∀ p, isDir p → isDir' p) (h : descend isDir here ns = .ok (.within place)) :
    descend isDir' here ns = .ok (.within place) := by
  induction ns generalizing here with
  | nil => exact h
  | cons name rest ih =>
    obtain ⟨there, he, h⟩ := descend_cons_within.1 h
    refine descend_cons_within.2 ⟨there, ?_, ih h⟩
    rw [enter] at he ⊢
    split_ifs at he ⊢
    · exact he
    · exact he
    · exact he
    · next hnew hold => exact absurd (hmore _ hold) hnew

theorem descend_blanks (isDir : Place → Bool) (here : Place) {rest : List String} (h : rest.all (· == "")) :
    descend isDir here rest = .ok (.within here) := by
  induction rest with
  | nil => rfl
  | cons name rest ih =>
    rw [List.all_cons, Bool.and_eq_true, beq_iff_eq] at h
    rw [descend, if_pos (Or.inl h.1)]
    exact ih h.2

/-- A path that leaves the directories at its end stays within them once there is a directory at this end. -/
theorem descend_made {p : Place} {rest : List String} (hmore : ∀ q, isDir q → isDir' q) (hp : isDir' p) (hrest : rest.all (· == ""))
    (h : descend isDir here ns = .ok (.leaves p rest)) : descend isDir' here ns = .ok (.within p) := by
  induction ns generalizing here with
  | nil => cases h
  | cons name more ih =>
    rw [descend] at h
    rw [descend]
    split_ifs at h with hblank habove hlong hdir
    · rw [if_pos hblank]
      exact ih h
    · rw [if_neg hblank, if_pos habove]
      exact ih h
    · rw [if_neg hblank, if_neg habove, if_neg hlong, if_pos (hmore _ hdir)]
      exact ih h
    · cases h
      rw [if_neg hblank, if_neg habove, if_neg hlong, if_pos hp]
      exact descend_blanks isDir' _ hrest

/-- Names that stand for themselves. -/
structure Plain (name : String) : Prop where
  notEmpty : name ≠ ""
  notHere : name ≠ "."
  notAbove : name ≠ ".."
  noSlash : '/' ∉ name.toList

theorem Plain.names {name : String} (h : Plain name) : names name = [name] := by
  rw [FileTree.names, List.splitOn_eq_singleton h.noSlash, List.map_singleton, String.ofList_toList]

theorem Plain.not_absolute {name : String} (h : Plain name) : isAbsolute name = false := by
  rw [isAbsolute, beq_eq_false_iff_ne]
  exact fun hhead => h.noSlash (List.mem_of_mem_head? hhead)

/-- A plain name goes behind the names of the path, and takes the place of the empty one behind a last slash. -/
theorem names_join {path name : String} (hpath : path ≠ "") (h : Plain name) :
    ∃ ns, names (join path name) = ns ++ [name] ∧ (names path = ns ∨ names path = ns ++ [""]) := by
  rw [join, h.not_absolute, if_neg Bool.false_ne_true, if_neg hpath]
  split
  · next hslash =>
    obtain ⟨cs, hcs⟩ := List.getLast?_eq_some_iff.1 (beq_iff_eq.1 hslash)
    refine ⟨(cs.splitOn '/').map String.ofList, ?_, Or.inr ?_⟩
    · rw [names, String.toList_append, hcs, List.append_assoc, List.singleton_append, List.splitOn_append_cons_self,
        List.map_append]
      exact congrArg _ h.names
    · rw [names, hcs, List.splitOn_append_cons_self, List.map_append]
      rfl
  · refine ⟨names path, ?_, Or.inl rfl⟩
    have hlist : (path ++ "/" ++ name).toList = path.toList ++ '/' :: name.toList := by
      rw [String.toList_append, String.toList_append, List.append_assoc]
      rfl
    rw [names, hlist, List.splitOn_append_cons_self, List.map_append]
    exact congrArg _ h.names

theorem isAbsolute_join {path name : String} (hpath : path ≠ "") (h : Plain name) :
    isAbsolute (join path name) = isAbsolute path := by
  have hne : path.toList ≠ [] := fun hnil => hpath (String.toList_eq_nil_iff.1 hnil)
  obtain ⟨c, cs, hcs⟩ := List.exists_cons_of_ne_nil hne
  rw [join, h.not_absolute, if_neg Bool.false_ne_true, if_neg hpath]
  split
  · rw [isAbsolute, isAbsolute, String.toList_append, hcs]
    rfl
  · rw [isAbsolute, isAbsolute, String.toList_append, String.toList_append, hcs]
    rfl

def start (t : FileTree) (path : String) : Place := if isAbsolute path then [] else t.workingDirectory

/-- A path is refused as it is, whatever the tree, or it is walked along. -/
theorem find_cases {path : String} (hpath : path ≠ "") :
    (∃ e, e ≠ .noEntry ∧ ∀ t : FileTree, t.find path = .error e) ∨
      ∀ t : FileTree, t.find path = t.walk (t.start path) (names path) := by
  unfold find
  split
  · exact Or.inl ⟨.invalidPath, nofun, fun _ => rfl⟩
  split
  · exact Or.inl ⟨.nameTooLong, nofun, fun _ => rfl⟩
  · exact Or.inr fun _ => rfl

/-- A path that leads somewhere in one tree is walked along in every tree. -/
theorem find_eq_walk {path : String} {found : Found} (h : t.find path = .ok found) (t' : FileTree) :
    t'.find path = t'.walk (t'.start path) (names path) := by
  have hpath : path ≠ "" := by
    rintro rfl
    cases h
  obtain ⟨e, -, he⟩ | hwalk := find_cases hpath
  · cases (he t).symm.trans h
  · exact hwalk t'

end KeyFob.FileTree
