import KeyFob.Storage

/-!
A store in memory: a finite map from name space and key to bytes. `lookup` is its view.
-/

namespace KeyFob

structure MemoryStore where
  entries : List ((String × String) × Bytes) := []
deriving DecidableEq, Repr

namespace MemoryStore

def lookup (m : MemoryStore) (name key : String) : Option Bytes := m.entries.lookup (name, key)

def insert (m : MemoryStore) (name key : String) (bytes : Bytes) : MemoryStore :=
  ⟨((name, key), bytes) :: m.entries.filter (·.1 != (name, key))⟩

def erase (m : MemoryStore) (name key : String) : MemoryStore := ⟨m.entries.filter (·.1 != (name, key))⟩

/-- A value that is longer than the reader expects cannot be read. -/
def read (m : MemoryStore) (name key : String) (size : Nat) : Except StorageError Bytes :=
  match m.lookup name key with
  | none => .error .notFound
  | some bs => if bs.length ≤ size then .ok bs else .error .ioError

instance : Storage MemoryStore where
  read name key size m := (m.read name key size, m)
  write name key bytes m := (.ok (), m.insert name key bytes)
  delete name key m := (.ok (), m.erase name key)
  contains name key m := (m.lookup name key).isSome

theorem lookup_filter_ne {α β : Type} [BEq α] [LawfulBEq α] (k l : α) (es : List (α × β)) (h : l ≠ k) :
    (es.filter (·.1 != k)).lookup l = es.lookup l := by
  induction es with
  | nil => rfl
  | cons e es ih =>
    obtain ⟨a, b⟩ := e
    by_cases hk : a = k
    · have hl : (l == a) = false := by simpa [hk] using h
      simp [List.lookup_cons, hk, ih, hk ▸ hl]
    · simp [List.lookup_cons, hk, ih]

theorem lookup_filter_self {α β : Type} [BEq α] [LawfulBEq α] (k : α) (es : List (α × β)) :
    (es.filter (·.1 != k)).lookup k = none := by
  induction es with
  | nil => rfl
  | cons e es ih =>
    obtain ⟨a, b⟩ := e
    by_cases hk : a = k
    · simp [hk, ih]
    · have hl : (k == a) = false := by simpa using Ne.symm hk
      simp [List.lookup_cons, hk, ih, hl]

theorem lookup_insert_self (m : MemoryStore) (name key : String) (bytes : Bytes) :
    (m.insert name key bytes).lookup name key = some bytes := by
  simp [insert, lookup]

theorem lookup_insert_of_ne (m : MemoryStore) (name key name' key' : String) (bytes : Bytes)
    (h : (name', key') ≠ (name, key)) : (m.insert name key bytes).lookup name' key' = m.lookup name' key' := by
  have hb : ((name', key') == (name, key)) = false := by simpa using h
  rw [insert, lookup, List.lookup_cons, hb]
  exact lookup_filter_ne _ _ _ h

theorem lookup_erase_self (m : MemoryStore) (name key : String) : (m.erase name key).lookup name key = none :=
  lookup_filter_self _ _

theorem lookup_erase_of_ne (m : MemoryStore) (name key name' key' : String) (h : (name', key') ≠ (name, key)) :
    (m.erase name key).lookup name' key' = m.lookup name' key' :=
  lookup_filter_ne _ _ _ h

end MemoryStore

end KeyFob
