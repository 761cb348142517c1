import KeyFob.Proofs.Storage.Legible

/-!
Stores without faults. Besides that they can always be read, every write takes effect.
-/

namespace KeyFob

/-- Stores whose accesses never fail. -/
class Reliable (κ : Type) [Storage κ] extends Honest κ where
  read_eq (name key : String) (size : Nat) (s : κ) : (Storage.read name key size s).1 = (contents s).read name key size
  write_eq (name key : String) (bytes : Bytes) (s : κ) : (Storage.write name key bytes s).1 = .ok ()

instance {κ : Type} [Storage κ] [Reliable κ] : Legible κ where
  read_eq := Reliable.read_eq

instance : Reliable MemoryStore where
  read_eq _ _ _ _ := rfl
  write_eq _ _ _ _ := rfl

/-- The access has done what it was asked, and the store holds just this. -/
def Shelf.Done {κ : Type} [Storage κ] [Honest κ] (C : Contents) (r : Except StorageError Unit) (s : Shelf κ) : Prop :=
  r = .ok () ∧ s.Holds C

namespace OnShelf

variable {κ : Type} [Storage κ] [Reliable κ] {C : Contents}

theorem write_reliable (name key : String) (bytes : Bytes) :
    Leads (Shelf.Holds C) (write name key bytes : OnShelf κ _) (Shelf.Done (C.set name key (some bytes))) := by
  rintro s rfl
  have hok := Reliable.write_eq name key bytes s.store
  exact ⟨hok, Honest.write_ok name key bytes s.store hok⟩

end OnShelf

end KeyFob
