import KeyFob.Main
import KeyFob.Proofs.Storage.Places

/-!
A store in files over its whole history. Any number of handles on one root read, write and delete, are opened anew, and are
killed in the middle of a write; whatever their calls, they are answered as a map from names and keys to bytes answers
them, in which a write that was cut short has happened or has not.
-/

namespace KeyFob.FileStore

open FileTree (Holds)

/-- How far a write has come when its process is killed: it has not begun, or the name space is there, or the temporary
file is being filled and holds anything, or this file has the new name. -/
inductive Cut
  | unbegun
  | housed
  | filling (part : Bytes)
  | renamed
deriving DecidableEq, Repr

def cutShort (s : FileStore) (name key : String) (bytes : Bytes) : Cut → FileTree
  | .unbegun => s.tree
  | .housed => (s.tree.makeDirectories (s.directory name)).2
  | .filling part =>
    let made := (s.tree.makeDirectories (s.directory name)).2
    (made.writeFile (s.temporary name key) part).toOption.getD made
  | .renamed => (s.write name key bytes).2.tree

inductive Call
  /-- A handle is opened, by a new process or beside others. -/
  | opens
  | writes (name key : String) (bytes : Bytes)
  /-- The process is killed while it writes. -/
  | dies (name key : String) (bytes : Bytes) (cut : Cut)
  | deletes (name key : String)
  | reads (name key : String) (size : Nat)
  | asks (name key : String)
deriving DecidableEq, Repr

inductive Answer
  | done (result : Except StorageError Unit)
  | got (result : Except StorageError Bytes)
  | told (present : Bool)
  | nothing

namespace Call

/-- The name and key that a call is about. -/
def about? : Call → Option (String × String)
  | opens => none
  | writes name key _ | dies name key _ _ | deletes name key | reads name key _ | asks name key => some (name, key)

def onFiles (root : String) (t : FileTree) : Call → Answer × FileTree
  | opens => match openAt root t with
    | .ok s => (.done (.ok ()), s.tree)
    | .error e => (.done (.error e), (t.makeDirectories root).2)
  | writes name key bytes =>
    let (r, s) := write ⟨root, t⟩ name key bytes
    (.done r, s.tree)
  | dies name key bytes cut => (.nothing, cutShort ⟨root, t⟩ name key bytes cut)
  | deletes name key =>
    let (r, s) := delete ⟨root, t⟩ name key
    (.done r, s.tree)
  | reads name key size => (.got (read ⟨root, t⟩ name key size), t)
  | asks name key => (.told (contains ⟨root, t⟩ name key), t)

/-- A call on a map, where nothing fails and a write has happened once the new name stands. -/
def onMap (C : Contents) : Call → Answer × Contents
  | opens => (.done (.ok ()), C)
  | writes name key bytes => (.done (.ok ()), C.set name key (some bytes))
  | dies name key bytes cut => (.nothing, if cut = .renamed then C.set name key (some bytes) else C)
  | deletes name key => (.done (.ok ()), C.set name key none)
  | reads name key size => (.got (C.read name key size), C)
  | asks name key => (.told (C name key).isSome, C)

end Call

def onFiles : List (String × Call) → FileTree → List Answer × FileTree
  | [], t => ([], t)
  | (root, call) :: rest, t =>
    let (answer, t) := call.onFiles root t
    let (answers, t) := onFiles rest t
    (answer :: answers, t)

def onMap : List (String × Call) → Contents → List Answer × Contents
  | [], C => ([], C)
  | (_, call) :: rest, C =>
    let (answer, C) := call.onMap C
    let (answers, C) := onMap rest C
    (answer :: answers, C)

theorem onFiles_cons (root : String) (call : Call) (rest : List (String × Call)) (t : FileTree) :
    onFiles ((root, call) :: rest) t = ((call.onFiles root t).1 :: (onFiles rest (call.onFiles root t).2).1,
      (onFiles rest (call.onFiles root t).2).2) := rfl

theorem onMap_cons (root : String) (call : Call) (rest : List (String × Call)) (C : Contents) :
    onMap ((root, call) :: rest) C = ((call.onMap C).1 :: (onMap rest (call.onMap C).2).1,
      (onMap rest (call.onMap C).2).2) := rfl

def Call.Admitted (root : String) (call : Call) : Prop := ∀ n ∈ call.about?, Names root n.1 n.2

instance (root : String) (call : Call) : Decidable (call.Admitted root) :=
  inferInstanceAs (Decidable (∀ n ∈ call.about?, Names root n.1 n.2))

/-- The file system takes whatever the program keeps. -/
theorem storedNames_admitted : ∀ n ∈ Main.storedNames, Names Program.defaultStoreRoot n.1 n.2 := by decide +kernel

variable {root name key : String} {R : Place} {C : Contents} {t : FileTree} {bytes : Bytes}

theorem cutShort_holds {s : FileStore} (h : Holds R C s.tree) (hbased : s.tree.Based s.root R)
    (hnames : Names s.root name key) (bytes : Bytes) (cut : Cut) :
    Holds R (if cut = .renamed then C.set name key (some bytes) else C) (s.cutShort name key bytes cut) ∧
      s.tree.Widens (s.cutShort name key bytes cut) := by
  cases cut with
  | unbegun => exact ⟨h, .refl _⟩
  | housed =>
    obtain ⟨made, filled, renamed, steps⟩ := write_steps h hbased hnames bytes
    rw [cutShort, steps.make]
    exact ⟨steps.made_holds, steps.made_widens⟩
  | filling part =>
    -- Up to here a write of the part does the same.
    obtain ⟨made, filled, renamed, steps⟩ := write_steps h hbased hnames part
    rw [cutShort, steps.make]
    dsimp only
    rw [steps.fill]
    exact ⟨steps.filled_holds, steps.filled_widens⟩
  | renamed =>
    obtain ⟨made, filled, renamed, steps⟩ := write_steps h hbased hnames bytes
    rw [cutShort, steps.write_eq]
    exact ⟨steps.renamed_holds, steps.renamed_widens⟩

/-- Each step of a write leads from one of these states to the next. -/
theorem cutShort_steps {s : FileStore} (h : Holds R C s.tree) (hbased : s.tree.Based s.root R)
    (hnames : Names s.root name key) (bytes : Bytes) :
    s.tree.makeDirectories (s.directory name) = (.ok (), s.cutShort name key bytes .housed) ∧
      (s.cutShort name key bytes .housed).writeFile (s.temporary name key) bytes =
        .ok (s.cutShort name key bytes (.filling bytes)) ∧
      (s.cutShort name key bytes (.filling bytes)).renameFile (s.temporary name key) (s.path name key) =
        .ok (s.cutShort name key bytes .renamed) := by
  obtain ⟨made, filled, renamed, steps⟩ := write_steps h hbased hnames bytes
  have hhoused : s.cutShort name key bytes .housed = made := by rw [cutShort, steps.make]
  have hfilling : s.cutShort name key bytes (.filling bytes) = filled := by
    rw [cutShort, steps.make]
    dsimp only
    rw [steps.fill]
    rfl
  rw [hhoused, hfilling, cutShort, steps.write_eq]
  exact ⟨steps.make, steps.fill, steps.rename⟩

theorem openAt_based (h : t.Based root R) : openAt root t = .ok ⟨root, t⟩ := by
  have hmade : t.makeDirectories root = (.ok (), t) := by
    obtain ⟨rfl, -⟩ | ⟨hroot, hfind⟩ := h
    · rfl
    · refine FileTree.makeDirectories_of_ensured hroot ?_
      rw [FileTree.ensureDirectory_eq, hfind]
  rw [openAt, hmade]

/-- One call is answered as on the map, and the files hold what the map does. -/
theorem Call.onFiles_mirrors (h : Holds R C t) (hbased : t.Based root R) (call : Call) (hadmitted : call.Admitted root) :
    (call.onFiles root t).1 = (call.onMap C).1 ∧ Holds R (call.onMap C).2 (call.onFiles root t).2 ∧
      t.Widens (call.onFiles root t).2 := by
  cases call with
  | opens =>
    rw [onFiles, openAt_based hbased]
    exact ⟨rfl, h, .refl t⟩
  | writes name key bytes =>
    obtain ⟨made, filled, renamed, steps⟩ := write_steps (s := ⟨root, t⟩) h hbased (hadmitted _ rfl) bytes
    rw [onFiles, steps.write_eq]
    exact ⟨rfl, steps.renamed_holds, steps.renamed_widens⟩
  | dies name key bytes cut =>
    exact ⟨rfl, cutShort_holds (s := ⟨root, t⟩) h hbased (hadmitted _ rfl) bytes cut⟩
  | deletes name key =>
    obtain ⟨t', ht, hheld, hwide⟩ := delete_eq (s := ⟨root, t⟩) h hbased (hadmitted _ rfl)
    rw [onFiles, ht]
    exact ⟨rfl, hheld, hwide⟩
  | reads name key size =>
    rw [onFiles, read_eq (s := ⟨root, t⟩) h hbased (hadmitted _ rfl)]
    exact ⟨rfl, h, .refl t⟩
  | asks name key =>
    rw [onFiles, contains_eq (s := ⟨root, t⟩) h hbased (hadmitted _ rfl)]
    exact ⟨rfl, h, .refl t⟩

/-- A call changes no value but the one that it is about. -/
theorem Call.onMap_elsewhere {call : Call} (h : call.about? ≠ some (name, key)) (C : Contents) :
    (call.onMap C).2 name key = C name key := by
  have hne {n k : String} (hne : some (n, k) ≠ some (name, key)) : ¬ (name = n ∧ key = k) := by
    rintro ⟨rfl, rfl⟩
    exact hne rfl
  cases call with
  | opens => rfl
  | writes n k bytes => exact C.set_of_ne _ (hne h)
  | dies n k bytes cut =>
    dsimp only [onMap]
    split
    · exact C.set_of_ne _ (hne h)
    · rfl
  | deletes n k => exact C.set_of_ne _ (hne h)
  | reads n k size => rfl
  | asks n k => rfl

structure Mirrored (R : Place) (C : Contents) (t : FileTree) (history : List (String × Call)) : Prop where
  answers : (onFiles history t).1 = (onMap history C).1
  held : Holds R (onMap history C).2 (onFiles history t).2
  elsewhere (name key : String) (h : ∀ x ∈ history, x.2.about? ≠ some (name, key)) :
    (onMap history C).2 name key = C name key

/-- Over any history of handles on one root, with processes killed anywhere in a write, the store is a map from names and
keys to bytes. -/
theorem files_are_a_map (h : Holds R C t) (history : List (String × Call))
    (hadmitted : ∀ x ∈ history, t.Based x.1 R ∧ x.2.Admitted x.1) : Mirrored R C t history := by
  induction history generalizing C t with
  | nil => exact ⟨rfl, h, fun _ _ _ => rfl⟩
  | cons x rest ih =>
    obtain ⟨root, call⟩ := x
    obtain ⟨⟨hbased, hcall⟩, hrest⟩ := List.forall_mem_cons.1 hadmitted
    obtain ⟨hanswer, hheld, hwide⟩ := call.onFiles_mirrors h hbased hcall
    obtain ⟨hanswers, hheld', helsewhere⟩ := ih hheld fun y hy => ⟨(hrest y hy).1.widens hwide, (hrest y hy).2⟩
    refine ⟨?_, ?_, fun name key hx => ?_⟩
    · rw [onFiles_cons, onMap_cons, hanswer, hanswers]
    · rw [onFiles_cons, onMap_cons]
      exact hheld'
    · obtain ⟨hfirst, hlater⟩ := List.forall_mem_cons.1 hx
      rw [onMap_cons]
      exact (helsewhere name key hlater).trans (Call.onMap_elsewhere hfirst C)

def fresh : FileTree := { directories := [["fob"]] }

/-- Two handles, which spell the root in different ways, and two writes that are killed: one while it fills the temporary
file, one behind the rename. -/
def killings : List (String × Call) :=
  [("fob", .opens), ("fob", .writes "token" "pin" [1, 2]), ("fob", .dies "token" "pin" [3, 4, 5] (.filling [3])),
    ("./fob/", .opens), ("./fob/", .reads "token" "pin" 2), ("./fob/", .dies "token" "pin" [6, 7, 8] .renamed),
    ("fob", .opens), ("fob", .reads "token" "pin" 2), ("./fob/", .reads "token" "pin" 3),
    ("fob", .deletes "storage" "initialized"), ("fob", .deletes "token" "pin"), ("fob", .asks "token" "pin")]

theorem killed_writes_happen_or_do_not :
    Holds ["fob"] (fun _ _ => none) fresh ∧ (onFiles killings fresh).1 =
      [.done (.ok ()), .done (.ok ()), .nothing, .done (.ok ()), .got (.ok [1, 2]), .nothing, .done (.ok ()),
        .got (.error .ioError), .got (.ok [6, 7, 8]), .done (.ok ()), .done (.ok ()), .told false] := by
  have hfresh : Holds ["fob"] (fun _ _ => none) fresh :=
    FileTree.holds_of_clear (fun _ _ => rfl) fun p hp => by simp [FileTree.hasDirectory, fresh, hp]
  have hroots : ∀ x ∈ killings, (x.1 = "fob" ∨ x.1 = "./fob/") ∧ x.2.Admitted x.1 := by decide +kernel
  have hbased : ∀ root, root = "fob" ∨ root = "./fob/" → fresh.Based root ["fob"] := by
    rintro root (rfl | rfl)
    · exact Or.inr ⟨by decide, rfl⟩
    · exact Or.inr ⟨by decide, rfl⟩
  have hmirrored := files_are_a_map hfresh killings fun x hx => ⟨hbased _ (hroots x hx).1, (hroots x hx).2⟩
  exact ⟨hfresh, hmirrored.answers.trans rfl⟩

end KeyFob.FileStore
