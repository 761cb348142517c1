import KeyFob.Proofs.Journal.Leads

/-!
Stores that can always be read. A write may fail, and then it has no effect; what has been written can be read back. `Upholds`
is the part of this that one value rests on, whatever else the store holds and however it holds it. `Fallible` stores are those
of which it is known when a read fails, and that tell what is there whenever it does not.
-/

namespace KeyFob

/-- What reading a value comes to where nothing fails: one that is longer than the reader expects cannot be read. -/
def Contents.read (C : Contents) (name key : String) (size : Nat) : Except StorageError Bytes :=
  match C name key with
  | none => .error .notFound
  | some bytes => if bytes.length ≤ size then .ok bytes else .error .ioError

theorem Contents.read_eq_ok_iff {C : Contents} {name key : String} {size : Nat} {bytes : Bytes} :
    C.read name key size = .ok bytes ↔ C name key = some bytes ∧ bytes.length ≤ size := by
  unfold Contents.read
  cases C name key with
  | none => simp
  | some bs =>
    by_cases hle : bs.length ≤ size
    · simp only [if_pos hle, Except.ok.injEq, Option.some.injEq]
      exact ⟨fun h => ⟨h, h ▸ hle⟩, fun h => h.1⟩
    · simp only [if_neg hle, reduceCtorEq, Option.some.injEq, false_iff, not_and]
      exact fun h => h ▸ hle

class Legible (κ : Type) [Storage κ] extends Honest κ where
  read_eq (name key : String) (size : Nat) (s : κ) : (Storage.read name key size s).1 = (contents s).read name key size

/-- Stores whose reads may fail, and otherwise tell what is there. -/
class Fallible (κ : Type) [Storage κ] extends Honest κ where
  /-- What keeps the store from reading a value, if anything does. -/
  outage (name key : String) (s : κ) : Option Outage
  read_eq (name key : String) (size : Nat) (s : κ) : (Storage.read name key size s).1 =
    match outage name key s with
    | some o => .error o.error
    | none => (contents s).read name key size

instance {κ : Type} [Storage κ] [Legible κ] : Fallible κ where
  outage _ _ _ := none
  read_eq := Legible.read_eq

instance : Fallible UnreliableStore where
  outage _ _ s := s.outages.head?.join
  read_eq _ _ _ s := by
    obtain ⟨memory, outages⟩ := s
    match outages with
    | some o :: rest => rfl
    | none :: rest => rfl
    | [] => rfl

namespace OnShelf

variable {κ : Type} [Storage κ] [Legible κ] {C : Contents}

theorem read_legible (name key : String) (size : Nat) :
    Leads (Shelf.Holds C) (read name key size : OnShelf κ _) fun r s => s.Holds C ∧ r = C.read name key size := by
  rintro s rfl
  exact ⟨Honest.contents_read name key size s.store, Legible.read_eq name key size s.store⟩

theorem read_ok_iff (name key : String) (size : Nat) :
    Leads (Shelf.Holds C) (read name key size : OnShelf κ _) fun r s => s.Holds C ∧
      ∀ bytes, r = .ok bytes ↔ C name key = some bytes ∧ bytes.length ≤ size :=
  (read_legible name key size).mono fun _ _ ⟨hs, hr⟩ => ⟨hs, fun _ => hr ▸ Contents.read_eq_ok_iff⟩

end OnShelf

/-- What becomes of a value when the store, as it stands, is asked to replace it. -/
structure Upholds {κ : Type} [Storage κ] (name key : String) (value : κ → Option Bytes) (s : κ) : Prop where
  write_ok (bytes : Bytes) (h : (Storage.write name key bytes s).1 = .ok ()) :
    value (Storage.write name key bytes s).2 = some bytes
  write_error (bytes : Bytes) (e : StorageError) (h : (Storage.write name key bytes s).1 = .error e) :
    value (Storage.write name key bytes s).2 = value s
  read_ok (s' : κ) (bytes : Bytes) (size : Nat) (h : value s' = some bytes) (hsize : bytes.length ≤ size) :
    (Storage.read name key size s').1 = .ok bytes

/-- A store in memory that wears out: its next writes fail as listed, and reads never do. -/
structure WornStore where
  memory : MemoryStore := {}
  outages : List (Option Outage) := []

namespace WornStore

instance : Storage WornStore where
  read name key size s := (s.memory.read name key size, s)
  write name key bytes s :=
    match s.outages with
    | some o :: rest => (.error o.error, { s with outages := rest })
    | outages => (.ok (), ⟨s.memory.insert name key bytes, outages.tail⟩)
  delete name key s := (.ok (), { s with memory := s.memory.erase name key })
  contains name key s := Storage.contains name key s.memory

/-- A write is an outage, with no effect, or a write to the memory. -/
theorem write_cases (name key : String) (bytes : Bytes) (s : WornStore) :
    (∃ e, (Storage.write name key bytes s).1 = .error e ∧ (Storage.write name key bytes s).2.memory = s.memory) ∨
      (Storage.write name key bytes s).1 = .ok () ∧
        (Storage.write name key bytes s).2.memory = s.memory.insert name key bytes := by
  obtain ⟨memory, outages⟩ := s
  match outages with
  | some o :: rest => exact Or.inl ⟨o.error, rfl, rfl⟩
  | none :: rest => exact Or.inr ⟨rfl, rfl⟩
  | [] => exact Or.inr ⟨rfl, rfl⟩

instance : Legible WornStore where
  contents s := s.memory.lookup
  contents_read _ _ _ _ := rfl
  read_ok _ _ _ _ _ h := MemoryStore.read_eq_ok h
  read_notFound _ _ _ _ h := MemoryStore.read_eq_notFound h
  write_ok name key bytes s h := by
    obtain ⟨e, he, -⟩ | ⟨-, hm⟩ := write_cases name key bytes s
    · cases he.symm.trans h
    · rw [hm, MemoryStore.lookup_insert]
  write_error name key bytes s e h := by
    obtain ⟨e, -, hm⟩ | ⟨hok, -⟩ := write_cases name key bytes s
    · rw [hm]
    · cases hok.symm.trans h
  delete_ok name key s _ := MemoryStore.lookup_erase s.memory name key
  delete_error _ _ _ _ h := nomatch h
  read_eq _ _ _ _ := rfl

end WornStore

end KeyFob
