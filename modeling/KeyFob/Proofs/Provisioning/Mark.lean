import KeyFob.Proofs.Journal.Leads
import KeyFob.Provisioning.Mark
import KeyFob.RestartLog
import KeyFob.Token.Soft

/-!
What the uses of the mark, and those of the restart log, make of a store that may fail. The parts of the store are
apart: none of the two touches the token's, and only marking marks.
-/

namespace KeyFob

namespace Provisioning

def Marked (C : Contents) : Prop := C space key ≠ none

variable {κ : Type} [Storage κ] [Honest κ] {C : Contents}

theorem isProvisioned_leads : Leads (Shelf.Holds C) (isProvisioned : OnShelf κ _) fun r s => s.Holds C ∧
    match r with
    | .ok true => Marked C
    | .ok false => ¬ Marked C
    | .error _ => ReadFailed s.notes := by
  refine (OnShelf.read_leads _ _ _).bind fun r => ?_
  rintro s ⟨hs, hr⟩
  cases r with
  | ok bytes => exact ⟨hs, fun h => nomatch h.symm.trans hr⟩
  | error e =>
    cases e with
    | notFound => exact ⟨hs, not_not_intro (hr.1 rfl)⟩
    | full => exact ⟨hs, _, _, _, _, hr.2⟩
    | ioError => exact ⟨hs, _, _, _, _, hr.2⟩

/-- The token's part of the store is as it was, and no mark is there that was not. -/
structure Spares (C C' : Contents) : Prop where
  marked (h : Marked C') : Marked C
  secrets (key : String) : C' SoftToken.space key = C SoftToken.space key

def Spared (C : Contents) (s : Shelf κ) : Prop := Spares C (Honest.contents s.store)

theorem Spares.refl (C : Contents) : Spares C C := ⟨id, fun _ => rfl⟩

theorem erase_leads : Leads (Shelf.Holds C) (erase : OnShelf κ _) fun r s =>
    Spared C s ∧ (r = .ok () → ¬ Marked (Honest.contents s.store)) := by
  refine (OnShelf.delete_leads _ _).mono fun r s hs => ?_
  cases r with
  | error e => exact hs ▸ ⟨Spares.refl _, nofun⟩
  | ok _ =>
    have hnone : ¬ Marked (C.set space key none) := not_not_intro (C.set_self _ _ _)
    rw [Spared, hs]
    refine ⟨⟨fun h => absurd h hnone, fun k => C.set_of_ne _ fun hk => ?_⟩, fun _ => hnone⟩
    exact absurd hk.1 (by decide)

/-- The mark does not touch the token's part. -/
theorem mark_leads : Leads (Shelf.Holds C) (mark : OnShelf κ _) fun _ s =>
    ∀ key, Honest.contents s.store SoftToken.space key = C SoftToken.space key := by
  refine (OnShelf.write_leads _ _ _).mono fun r s hs k => ?_
  cases r with
  | error e => rw [hs]
  | ok _ =>
    rw [hs]
    exact C.set_of_ne _ fun hk => absurd hk.1 (by decide)

end Provisioning

namespace RestartLog

variable {κ : Type} [Storage κ] [Honest κ] {C : Contents}

theorem load_elsewhere (l : RestartLog) :
    Leads (Shelf.Elsewhere space C) (l.load : OnShelf κ RestartLog) fun _ => Shelf.Elsewhere space C := by
  refine (OnShelf.read_elsewhere _ _ _).bind fun r => ?_
  cases r with
  | ok bs => exact .pure fun _ h => h
  | error e => exact .pure fun _ h => h

/-- The records have a part of the store to themselves. -/
theorem record_elsewhere (l : RestartLog) (r : RestartRecord) :
    Leads (Shelf.Elsewhere space C) (l.record r : OnShelf κ RestartLog) fun _ => Shelf.Elsewhere space C := by
  have advances : Leads (Shelf.Elsewhere space C) (do
      let _ ← OnShelf.write space nextKey (encodeNext ((l.next + 1) % slots))
      return (⟨(l.next + 1) % slots⟩ : RestartLog) : OnShelf κ RestartLog) fun _ => Shelf.Elsewhere space C :=
    (OnShelf.write_elsewhere _ _).bind fun _ => .pure fun _ h => h
  refine (OnShelf.write_elsewhere _ _).bind fun written => ?_
  cases written with
  | ok _ => exact advances
  | error e => exact Leads.bind (Q := fun _ => Shelf.Elsewhere space C) (fun _ h => h) fun _ => advances

end RestartLog

end KeyFob
