import KeyFob.Storage.Memory

/-!
Stores that may fail but never lie. A store holds a map from names and keys to bytes. An access that succeeds does to the
map what it says, one that fails does nothing to it, and no value is reported missing that is there. An activity on such
a store is judged by what it makes of the map.
-/

namespace KeyFob

/-- What a store holds. -/
abbrev Contents := String → String → Option Bytes

namespace Contents

def set (C : Contents) (name key : String) (value : Option Bytes) : Contents :=
  fun n k => if n = name ∧ k = key then value else C n k

@[simp] theorem set_self (C : Contents) (name key : String) (value : Option Bytes) : C.set name key value name key = value :=
  if_pos ⟨rfl, rfl⟩

theorem set_of_ne (C : Contents) {name key n k : String} (value : Option Bytes) (h : ¬ (n = name ∧ k = key)) :
    C.set name key value n k = C n k :=
  if_neg h

end Contents

/-- Stores of which it is known what they hold, and what each outcome of an access makes of that. -/
class Honest (κ : Type) [Storage κ] where
  contents : κ → Contents
  contents_read (name key : String) (size : Nat) (s : κ) :
    contents (Storage.read name key size s).2 = contents s
  read_ok (name key : String) (size : Nat) (s : κ) (bytes : Bytes) (h : (Storage.read name key size s).1 = .ok bytes) :
    contents s name key = some bytes
  read_notFound (name key : String) (size : Nat) (s : κ) (h : (Storage.read name key size s).1 = .error .notFound) :
    contents s name key = none
  write_ok (name key : String) (bytes : Bytes) (s : κ) (h : (Storage.write name key bytes s).1 = .ok ()) :
    contents (Storage.write name key bytes s).2 = (contents s).set name key (some bytes)
  write_error (name key : String) (bytes : Bytes) (s : κ) (e : StorageError)
    (h : (Storage.write name key bytes s).1 = .error e) : contents (Storage.write name key bytes s).2 = contents s
  delete_ok (name key : String) (s : κ) (h : (Storage.delete name key s).1 = .ok ()) :
    contents (Storage.delete name key s).2 = (contents s).set name key none
  delete_error (name key : String) (s : κ) (e : StorageError) (h : (Storage.delete name key s).1 = .error e) :
    contents (Storage.delete name key s).2 = contents s

namespace MemoryStore

theorem lookup_insert (m : MemoryStore) (name key : String) (bytes : Bytes) :
    (m.insert name key bytes).lookup = Contents.set m.lookup name key (some bytes) := by
  funext n k
  by_cases h : n = name ∧ k = key
  · obtain ⟨rfl, rfl⟩ := h
    rw [lookup_insert_self, Contents.set_self]
  · rw [Contents.set_of_ne _ _ h]
    exact lookup_insert_of_ne _ _ _ _ _ _ (by simpa using h)

theorem lookup_erase (m : MemoryStore) (name key : String) :
    (m.erase name key).lookup = Contents.set m.lookup name key none := by
  funext n k
  by_cases h : n = name ∧ k = key
  · obtain ⟨rfl, rfl⟩ := h
    rw [lookup_erase_self, Contents.set_self]
  · rw [Contents.set_of_ne _ _ h]
    exact lookup_erase_of_ne _ _ _ _ _ (by simpa using h)

theorem read_eq_ok {m : MemoryStore} {name key : String} {size : Nat} {bytes : Bytes}
    (h : m.read name key size = .ok bytes) : m.lookup name key = some bytes := by
  unfold read at h
  cases hl : m.lookup name key with
  | none => simp [hl] at h
  | some bs =>
    by_cases hs : bs.length ≤ size
    · simpa [hl, hs] using h
    · simp [hl, hs] at h

theorem read_eq_notFound {m : MemoryStore} {name key : String} {size : Nat}
    (h : m.read name key size = .error .notFound) : m.lookup name key = none := by
  unfold read at h
  cases hl : m.lookup name key with
  | none => rfl
  | some bs =>
    by_cases hs : bs.length ≤ size
    · simp [hl, hs] at h
    · simp [hl, hs] at h

instance : Honest MemoryStore where
  contents := lookup
  contents_read _ _ _ _ := rfl
  read_ok _ _ _ _ _ h := read_eq_ok h
  read_notFound _ _ _ _ h := read_eq_notFound h
  write_ok name key bytes m _ := lookup_insert m name key bytes
  write_error _ _ _ _ _ h := nomatch h
  delete_ok name key m _ := lookup_erase m name key
  delete_error _ _ _ _ h := nomatch h

end MemoryStore

inductive Outage
  | full
  | ioError
deriving DecidableEq, Repr

def Outage.error : Outage → StorageError
  | full => .full
  | ioError => .ioError

/-- A store in memory whose next accesses fail as listed. -/
structure UnreliableStore where
  memory : MemoryStore := {}
  outages : List (Option Outage) := []

namespace UnreliableStore

def access {α : Type} (f : MemoryStore → Except StorageError α × MemoryStore) (s : UnreliableStore) :
    Except StorageError α × UnreliableStore :=
  match s.outages with
  | some o :: rest => (.error o.error, { s with outages := rest })
  | outages => ((f s.memory).1, ⟨(f s.memory).2, outages.tail⟩)

instance : Storage UnreliableStore where
  read name key size := access (Storage.read name key size)
  write name key bytes := access (Storage.write name key bytes)
  delete name key := access (Storage.delete name key)
  contains name key s := Storage.contains name key s.memory

/-- An access is an outage, with no effect, or an access to the memory. -/
theorem access_cases {α : Type} (f : MemoryStore → Except StorageError α × MemoryStore) (s : UnreliableStore) :
    (∃ o : Outage, (access f s).1 = .error o.error ∧ (access f s).2.memory = s.memory) ∨
      ((access f s).1 = (f s.memory).1 ∧ (access f s).2.memory = (f s.memory).2) := by
  unfold access
  split
  · next o rest _ => exact Or.inl ⟨o, rfl, rfl⟩
  · exact Or.inr ⟨rfl, rfl⟩

theorem error_ne_notFound (o : Outage) : o.error ≠ .notFound := by
  cases o <;> simp [Outage.error]

instance : Honest UnreliableStore where
  contents s := s.memory.lookup
  contents_read name key size s := by
    rcases access_cases (Storage.read name key size) s with ⟨o, -, hm⟩ | ⟨-, hm⟩
    · exact congrArg MemoryStore.lookup hm
    · exact congrArg MemoryStore.lookup hm
  read_ok name key size s bytes h := by
    rcases access_cases (Storage.read name key size) s with ⟨o, hr, -⟩ | ⟨hr, -⟩
    · cases hr.symm.trans h
    · exact MemoryStore.read_eq_ok (hr.symm.trans h)
  read_notFound name key size s h := by
    rcases access_cases (Storage.read name key size) s with ⟨o, hr, -⟩ | ⟨hr, -⟩
    · exact absurd (Except.error.inj (hr.symm.trans h)) (error_ne_notFound o)
    · exact MemoryStore.read_eq_notFound (hr.symm.trans h)
  write_ok name key bytes s h := by
    rcases access_cases (Storage.write name key bytes) s with ⟨o, hr, -⟩ | ⟨-, hm⟩
    · cases hr.symm.trans h
    · exact (congrArg MemoryStore.lookup hm).trans (MemoryStore.lookup_insert _ _ _ _)
  write_error name key bytes s e h := by
    rcases access_cases (Storage.write name key bytes) s with ⟨o, -, hm⟩ | ⟨hr, -⟩
    · exact congrArg MemoryStore.lookup hm
    · cases hr.symm.trans h
  delete_ok name key s h := by
    rcases access_cases (Storage.delete name key) s with ⟨o, hr, -⟩ | ⟨-, hm⟩
    · cases hr.symm.trans h
    · exact (congrArg MemoryStore.lookup hm).trans (MemoryStore.lookup_erase _ _ _)
  delete_error name key s e h := by
    rcases access_cases (Storage.delete name key) s with ⟨o, -, hm⟩ | ⟨hr, -⟩
    · exact congrArg MemoryStore.lookup hm
    · cases hr.symm.trans h

end UnreliableStore

end KeyFob
