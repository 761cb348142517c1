import KeyFob.Proofs.Journal.Leaves
import KeyFob.Proofs.Provisioning.Boot

/-!
The ends of a boot. `Ends` lists the ways in which a boot can end, each with the outcomes of the accesses and calls that
lead there, and from the stages that it has passed through follow all its calls of the token and all its events.
-/

namespace KeyFob

open Provisioning (Stage)

namespace Provisioning

section outcomes

variable {κ τ : Type} [Storage κ] [Token κ τ]

/-- The read of the mark that a boot begins with. -/
def markRead (s : κ) : Except StorageError Bytes × κ := Storage.read space key markSize s

def generated (s : κ) (t : τ) : (Except ProvisionError Unit × τ) × Shelf κ :=
  Token.generate t (⟨(markRead s).2, []⟩ : Shelf κ)

def marking (s : κ) (t : τ) : Except StorageError Unit × κ := Storage.write space key [1] (generated s t).2.store

def restored (s : κ) (t : τ) : (Except ProvisionError Unit × τ) × Shelf κ :=
  Token.restore t (⟨(markRead s).2, []⟩ : Shelf κ)

def erasing (s : κ) (t : τ) : Except StorageError Unit × κ := Storage.delete space key (restored s t).2.store

/-- The result of a boot, the stages it has passed through, and the store behind it. -/
inductive Ends (reinit : Bool) (s : κ) (t : τ) : Except ProvisionError Unit → List Stage → κ → Prop
  | unread (e : StorageError) (hread : (markRead s).1 = .error e) (hne : e ≠ .notFound) :
    Ends reinit s t (.error (.storage e)) [.start, .failed] (markRead s).2
  | ungenerated (e : ProvisionError) (hread : (markRead s).1 = .error .notFound) (hmade : (generated s t).1.1 = .error e) :
    Ends reinit s t (.error e) [.start, .initializing, .failed] (generated s t).2.store
  | unmarked (e : StorageError) (hread : (markRead s).1 = .error .notFound) (hmade : (generated s t).1.1 = .ok ())
    (hmark : (marking s t).1 = .error e) :
    Ends reinit s t (.error (.storage e)) [.start, .initializing, .failed] (marking s t).2
  | initialized (hread : (markRead s).1 = .error .notFound) (hmade : (generated s t).1.1 = .ok ())
    (hmark : (marking s t).1 = .ok ()) :
    Ends reinit s t (.ok ()) [.start, .initializing, .ready] (marking s t).2
  | restored (bytes : Bytes) (hread : (markRead s).1 = .ok bytes) (hloaded : (restored s t).1.1 = .ok ()) :
    Ends reinit s t (.ok ()) [.start, .restoring, .ready] (restored s t).2.store
  | unrestored (bytes : Bytes) (e : ProvisionError) (hread : (markRead s).1 = .ok bytes)
    (hloaded : (Provisioning.restored s t).1.1 = .error e) (hreinit : reinit = false) :
    Ends reinit s t (.error e) [.start, .restoring, .failed] (Provisioning.restored s t).2.store
  | erased (bytes : Bytes) (e : ProvisionError) (hread : (markRead s).1 = .ok bytes)
    (hloaded : (Provisioning.restored s t).1.1 = .error e) (hreinit : reinit = true) :
    Ends reinit s t (.error e) [.start, .restoring, .failed] (erasing s t).2

/-- What the read of the mark tells the boot. -/
def Tells (s : κ) (r : Except StorageError Bool) : Prop :=
  match r with
  | .ok true => ∃ bytes, (markRead s).1 = .ok bytes
  | .ok false => (markRead s).1 = .error .notFound
  | .error e => (markRead s).1 = .error e ∧ e ≠ .notFound

theorem isProvisioned_tells (s : κ) :
    Leads (fun sh => sh.store = s) (isProvisioned : OnShelf κ _) fun r sh => sh.store = (markRead s).2 ∧ Tells s r := by
  have read : Leads (fun sh => sh.store = s) (OnShelf.read space key markSize : OnShelf κ _) fun r sh =>
      sh.store = (markRead s).2 ∧ (markRead s).1 = r := by
    rintro sh rfl
    exact ⟨rfl, rfl⟩
  refine read.bind fun r => ?_
  rintro sh ⟨hsh, hr⟩
  cases r with
  | ok bytes => exact ⟨hsh, bytes, hr⟩
  | error e =>
    cases e with
    | notFound => exact ⟨hsh, hr⟩
    | full => exact ⟨hsh, hr, nofun⟩
    | ioError => exact ⟨hsh, hr, nofun⟩

end outcomes

end Provisioning

namespace Run

variable {ε κ τ : Type} [Token κ τ]

theorem generate_leaves : Leaves (generate : Run ε κ τ _) fun _ o => o = [.generate] :=
  .step (add_leaves fun _ => ⟨trivial, rfl⟩) fun _ => (withToken_leaves _).mono fun _ _ h => by rw [h]; rfl

theorem restore_leaves : Leaves (restore : Run ε κ τ _) fun _ o => o = [.restore] :=
  .step (add_leaves fun _ => ⟨trivial, rfl⟩) fun _ => (withToken_leaves _).mono fun _ _ h => by rw [h]; rfl

end Run

namespace Lifecycle

open Provisioning

variable {ε κ τ : Type} [Storage κ] [Token κ τ]

theorem generateAndMark_ends {reinit : Bool} {s : κ} {t : τ} (hread : (markRead s).1 = .error .notFound) :
    Brings (fun v => v.store = (markRead s).2 ∧ v.token = t) (generateAndMark : Run ε κ τ _) fun r v =>
      Ends reinit s t r [.start, .initializing, ending r] v.store := by
  refine generateAndMark_brings (A := fun r v => v.store = (generated s t).2.store ∧ (generated s t).1.1 = r)
    (.call rfl ?_) ?_ ?_
  · rintro v ⟨hs, rfl⟩
    rw [hs]
    exact ⟨rfl, rfl⟩
  · rintro e v ⟨hs, hmade⟩
    rw [hs]
    exact .ungenerated e hread hmade
  · refine .onShelf fun v ⟨hs, hmade⟩ => ?_
    have hmark : mark (⟨v.store, []⟩ : Shelf κ) =
        ((marking s t).1, ⟨(marking s t).2, [.write space key [1] (marking s t).1]⟩) := by
      rw [hs]
      rfl
    rw [hmark]
    cases h : (marking s t).1 with
    | ok _ => exact .initialized hread hmade h
    | error e => exact .unmarked e hread hmade h

theorem restoreOrErase_ends {reinit : Bool} {s : κ} {t : τ} {bytes : Bytes} (hread : (markRead s).1 = .ok bytes) :
    Brings (fun v => v.store = (markRead s).2 ∧ v.token = t) (restoreOrErase reinit : Run ε κ τ _) fun r v =>
      Ends reinit s t r [.start, .restoring, ending r] v.store := by
  refine restoreOrErase_brings reinit (A := fun r v => v.store = (restored s t).2.store ∧ (restored s t).1.1 = r)
    (.call rfl ?_) ?_ ?_ ?_
  · rintro v ⟨hs, rfl⟩
    rw [hs]
    exact ⟨rfl, rfl⟩
  · rintro v ⟨hs, hloaded⟩
    rw [hs]
    exact .restored bytes hread hloaded
  · rintro hreinit e v ⟨hs, hloaded⟩
    rw [hs]
    exact .unrestored bytes e hread hloaded hreinit
  · refine fun hreinit e => .onShelf fun v ⟨hs, hloaded⟩ => ?_
    have herase : (erase (⟨v.store, []⟩ : Shelf κ)).2.store = (erasing s t).2 := by
      rw [hs]
      rfl
    rw [herase]
    exact .erased bytes e hread hloaded hreinit

variable [Surroundings ε]

/-- A boot ends in one of these ways. -/
theorem run_ends (reinit : Bool) (s : κ) (t : τ) :
    Brings (fun v => v.store = s ∧ v.token = t) (run { reinit } : Run ε κ τ _) fun r v =>
      Ends reinit s t r.1 r.2.trail v.store ∧ r.2.stage = ending r.1 := by
  refine run_brings (decide_brings
    (B := fun r v => (v.store = (markRead s).2 ∧ v.token = t) ∧ Tells s r) (.onShelf ?_) ?_ ?_ ?_)
  · rintro v ⟨hs, ht⟩
    obtain ⟨hread, htells⟩ := isProvisioned_tells s ⟨v.store, []⟩ hs
    exact ⟨⟨hread, ht⟩, htells⟩
  · rintro e v ⟨⟨hs, -⟩, hread, hne⟩
    rw [hs]
    exact ⟨.unread e hread hne, rfl⟩
  · exact fun d ⟨hd, hread⟩ => ⟨generateAndMark_ends hread d hd, rfl⟩
  · exact fun d ⟨hd, bytes, hread⟩ => ⟨restoreOrErase_ends hread d hd, rfl⟩

/-- What a boot that has passed through these stages leaves in the journal: each change of the stage is told, and the
token is called in between. -/
def stepsThrough : List Stage → List Entry
  | [first, last] => [.led .activity true, .led .activity false, .emit (.lifecycle first last)]
  | [first, .initializing, last] =>
    [.led .activity true, .emit (.lifecycle first .initializing), .generate, .led .activity false,
      .emit (.lifecycle .initializing last)]
  | [first, .restoring, last] =>
    [.led .activity true, .emit (.lifecycle first .restoring), .restore, .led .activity false,
      .emit (.lifecycle .restoring last)]
  | _ => []

omit [Storage κ] [Token κ τ] in
theorem enter_leaves (l : Lifecycle) (target : Stage) :
    Leaves (l.enter target : Run ε κ τ Lifecycle) fun l' o =>
      l' = l.entered target ∧ o = [.emit (.lifecycle l.stage target)] :=
  (Run.log_leaves _ _ _).skip fun _ => (Run.emit_leaves _).step fun _ => .pure ⟨rfl, rfl⟩

omit [Surroundings ε] in
theorem generateAndMark_leaves : Leaves (generateAndMark : Run ε κ τ _) fun _ o => o = [.generate] := by
  refine Run.generate_leaves.step fun r => ?_
  cases r with
  | error e => exact .pure rfl
  | ok _ => exact (Run.onShelf_leaves _).skip fun r => by cases r <;> exact .pure rfl

omit [Surroundings ε] in
theorem restoreOrErase_leaves (reinit : Bool) :
    Leaves (restoreOrErase reinit : Run ε κ τ _) fun _ o => o = [.restore] := by
  refine Run.restore_leaves.step fun r => ?_
  cases r with
  | ok _ => exact .pure rfl
  | error e =>
    cases reinit with
    | false => exact .pure rfl
    | true =>
      refine (Run.log_leaves _ _ _).skip fun _ => (Run.onShelf_leaves _).skip fun r => ?_
      cases r with
      | ok _ => exact .pure rfl
      | error e => exact (Run.log_leaves _ _ _).skip fun _ => .pure rfl

/-- Where a boot stands that has decided, and what that has left in the journal. -/
def Decided (l : Lifecycle) (r : Except ProvisionError Unit × Lifecycle) (o : List Entry) : Prop :=
  (∃ e, r = (.error e, l) ∧ o = []) ∨
    (r.2 = l.entered .initializing ∧ o = [.emit (.lifecycle l.stage .initializing), .generate]) ∨
      (r.2 = l.entered .restoring ∧ o = [.emit (.lifecycle l.stage .restoring), .restore])

theorem decide_leaves (l : Lifecycle) : Leaves (l.decide : Run ε κ τ _) (Decided l) := by
  refine (Run.onShelf_leaves _).skip fun r => ?_
  cases r with
  | error e => exact .pure (Or.inl ⟨_, rfl, rfl⟩)
  | ok marked =>
    cases marked with
    | false =>
      refine (enter_leaves l .initializing).bind fun l' o h => generateAndMark_leaves.bind fun r o' h' => .pure ?_
      rw [h.1, h.2, h']
      exact Or.inr (Or.inl ⟨rfl, rfl⟩)
    | true =>
      refine (enter_leaves l .restoring).bind fun l' o h => (restoreOrErase_leaves _).bind fun r o' h' => .pure ?_
      rw [h.1, h.2, h']
      exact Or.inr (Or.inr ⟨rfl, rfl⟩)

/-- All that a boot does is told by the stages that it has passed through. -/
theorem run_leaves (reinit : Bool) :
    Leaves (run { reinit } : Run ε κ τ _) fun r o => o = stepsThrough r.2.trail := by
  refine (Run.led_leaves _ _).step fun _ => (decide_leaves _).bind fun (r, l) o h => (Run.led_leaves _ _).step fun _ => ?_
  have ends (target : Stage) : Leaves (l.enter target : Run ε κ τ Lifecycle) fun l' o' =>
      [.led .activity true] ++ (o ++ ([.led .activity false] ++ o')) = stepsThrough l'.trail := by
    refine (enter_leaves l target).mono ?_
    rintro l' o' ⟨rfl, rfl⟩
    obtain ⟨e, hl, rfl⟩ | ⟨hl, rfl⟩ | ⟨hl, rfl⟩ := h
    · cases hl
      rfl
    · cases hl
      rfl
    · cases hl
      rfl
  cases r with
  | ok _ => exact (ends .ready).bind fun _ _ h => .pure (by rwa [List.append_nil])
  | error e =>
    exact (Run.log_leaves _ _ _).skip fun _ => (ends .failed).bind fun _ _ h => .pure (by rwa [List.append_nil])

end Lifecycle

end KeyFob
