import KeyFob.Proofs.Journal.Vault
import KeyFob.Proofs.Storage.Honest

/-!
What an activity leads to, from a state of which something is known: of the activities on a store, what it holds, and of
those of a task, what is in its vault.
-/

namespace KeyFob

/-- From where `P` holds the activity leads to where `Q` holds of its result. -/
def Leads {σ α : Type} (P : σ → Prop) (m : StateM σ α) (Q : α → σ → Prop) : Prop := ∀ s, P s → Q (m s).1 (m s).2

namespace Leads

variable {σ α β : Type} {P P' : σ → Prop} {Q Q' : α → σ → Prop} {R : β → σ → Prop} {m n : StateM σ α}
  {f : α → StateM σ β}

theorem bind (hm : Leads P m Q) (hf : ∀ a, Leads (Q a) (f a) R) : Leads P (m >>= f) R :=
  fun s h => hf (m s).1 (m s).2 (hm s h)

theorem pure {a : α} (h : ∀ s, P s → Q a s) : Leads P (Pure.pure a : StateM σ α) Q := h

theorem mono (h : Leads P m Q) (hQ : ∀ a s, Q a s → Q' a s) : Leads P m Q' := fun s hs => hQ _ _ (h s hs)

theorem ite {p : Prop} [Decidable p] (h : p → Leads P m Q) (h' : ¬ p → Leads P n Q) :
    Leads P (if p then m else n) Q := by
  split
  · next hp => exact h hp
  · next hp => exact h' hp

theorem and (h : Leads P m Q) (h' : Leads P' m Q') :
    Leads (fun s => P s ∧ P' s) m fun a s => Q a s ∧ Q' a s :=
  fun s hs => ⟨h s hs.1, h' s hs.2⟩

end Leads

def ReadFailed (ns : List Note) : Prop :=
  ∃ (name key : String) (size : Nat) (e : StorageError), .read name key size (.error e) ∈ ns

/-- The store holds just this. -/
def Shelf.Holds {κ : Type} [Storage κ] [Honest κ] (C : Contents) (s : Shelf κ) : Prop := Honest.contents s.store = C

/-- Outside of this part the store holds what it held. -/
def Shelf.Elsewhere {κ : Type} [Storage κ] [Honest κ] (part : String) (C : Contents) (s : Shelf κ) : Prop :=
  ∀ name key, name ≠ part → Honest.contents s.store name key = C name key

namespace OnShelf

variable {κ : Type} [Storage κ] [Honest κ] {C : Contents}

theorem log_leads (level : Level) (source : Part) (message : String) :
    Leads (Shelf.Holds C) (log level source message : OnShelf κ Unit) fun _ => Shelf.Holds C :=
  fun _ h => h

theorem read_leads (name key : String) (size : Nat) :
    Leads (Shelf.Holds C) (read name key size : OnShelf κ _) fun r s => Shelf.Holds C s ∧
      match r with
      | .ok bytes => C name key = some bytes
      | .error e => (e = .notFound → C name key = none) ∧ .read name key size (.error e) ∈ s.notes := by
  rintro s rfl
  refine ⟨Honest.contents_read name key size s.store, ?_⟩
  change match (Storage.read name key size s.store).1 with | .ok bytes => _ | .error e => _
  cases hr : (Storage.read name key size s.store).1 with
  | ok bytes => exact Honest.read_ok name key size s.store bytes hr
  | error e =>
    refine ⟨?_, ?_⟩
    · rintro rfl
      exact Honest.read_notFound name key size s.store hr
    · change _ ∈ s.notes ++ [.read name key size (Storage.read name key size s.store).1]
      rw [hr]
      simp

theorem write_leads (name key : String) (bytes : Bytes) :
    Leads (Shelf.Holds C) (write name key bytes : OnShelf κ _) fun r s =>
      match r with
      | .ok () => Shelf.Holds (C.set name key (some bytes)) s
      | .error _ => Shelf.Holds C s := by
  rintro s rfl
  change match (Storage.write name key bytes s.store).1 with | .ok () => _ | .error _ => _
  cases hr : (Storage.write name key bytes s.store).1 with
  | ok _ => exact Honest.write_ok name key bytes s.store hr
  | error e => exact Honest.write_error name key bytes s.store e hr

theorem read_elsewhere {part : String} (name key : String) (size : Nat) :
    Leads (Shelf.Elsewhere part C) (read name key size : OnShelf κ _) fun _ => Shelf.Elsewhere part C := by
  intro s h n k hn
  have hC : Shelf.Holds (Honest.contents s.store) _ := (read_leads name key size s rfl).1
  rw [hC]
  exact h n k hn

theorem write_elsewhere {part : String} (key : String) (bytes : Bytes) :
    Leads (Shelf.Elsewhere part C) (write part key bytes : OnShelf κ _) fun _ => Shelf.Elsewhere part C := by
  intro s h n k hn
  have hw := write_leads part key bytes s rfl
  revert hw
  cases (write part key bytes s).1 with
  | ok _ =>
    intro hw
    rw [hw, Contents.set_of_ne _ _ fun hk => hn hk.1]
    exact h n k hn
  | error e =>
    intro hw
    rw [hw]
    exact h n k hn

theorem delete_leads (name key : String) :
    Leads (Shelf.Holds C) (delete name key : OnShelf κ _) fun r s =>
      match r with
      | .ok () => Shelf.Holds (C.set name key none) s
      | .error _ => Shelf.Holds C s := by
  rintro s rfl
  change match (Storage.delete name key s.store).1 with | .ok () => _ | .error _ => _
  cases hr : (Storage.delete name key s.store).1 with
  | ok _ => exact Honest.delete_ok name key s.store hr
  | error e => exact Honest.delete_error name key s.store e hr

end OnShelf

variable {ε κ τ α β : Type}

/-- From where `P` holds of the vault the activity leads to where `Q` holds of its result and the vault. -/
def Brings (P : Vault κ τ → Prop) (m : Run ε κ τ α) (Q : α → Vault κ τ → Prop) : Prop :=
  Leads (fun d => P d.vault) m fun a d => Q a d.vault

namespace Brings

variable {P P' : Vault κ τ → Prop} {Q Q' : α → Vault κ τ → Prop} {R : β → Vault κ τ → Prop} {m : Run ε κ τ α}
  {f : α → Run ε κ τ β}

theorem bind (hm : Brings P m Q) (hf : ∀ a, Brings (Q a) (f a) R) : Brings P (m >>= f) R := Leads.bind hm hf

theorem pure {a : α} (h : ∀ v, P v → Q a v) : Brings P (Pure.pure a : Run ε κ τ α) Q := fun d => h d.vault

theorem mono (h : Brings P m Q) (hQ : ∀ a v, Q a v → Q' a v) : Brings P m Q' := fun d hd => hQ _ _ (h d hd)

theorem of_bystands (hm : Bystands m) : Brings P m fun _ => P := fun d hd => by
  change P (m d).2.vault
  rw [hm d]
  exact hd

/-- A first step that stands by. -/
theorem after (hm : Bystands m) (hf : ∀ a, Brings P (f a) R) : Brings P (m >>= f) R := (of_bystands hm).bind hf

theorem of_keeps (h : Keeps (fun x y => P x → P y) m) : Brings P m fun _ => P := fun d => h d

theorem onShelf {f : OnShelf κ α} (h : ∀ v, P v → Q (f ⟨v.store, []⟩).1
      ⟨(f ⟨v.store, []⟩).2.store, v.token, v.trail ++ vaultTrail ((f ⟨v.store, []⟩).2.notes.map .note)⟩) :
    Brings P (Run.onShelf f : Run ε κ τ α) Q := by
  intro d hd
  rw [Run.onShelf_vault]
  exact h d.vault hd

/-- A call of the token, announced by its entry. -/
theorem call {e : Entry} (he : e.ofVault = true) {f : τ → OnShelf κ (α × τ)} (h : ∀ v, P v →
      Q (f v.token ⟨v.store, []⟩).1.1 ⟨(f v.token ⟨v.store, []⟩).2.store, (f v.token ⟨v.store, []⟩).1.2,
        v.trail ++ e :: vaultTrail ((f v.token ⟨v.store, []⟩).2.notes.map .note)⟩) :
    Brings P (do Run.add e; Run.withToken f : Run ε κ τ α) Q := by
  intro d hd
  change Q _ ((do Run.add e; Run.withToken f : Run ε κ τ α) d).2.vault
  rw [Run.call_vault he]
  exact h d.vault hd

end Brings

end KeyFob
