import KeyFob.Bench.Tokens
import KeyFob.Bench.Turns
import KeyFob.Proofs.Provisioning.Ends
import KeyFob.Proofs.Token.Storing
import KeyFob.Provisioning.ResetMonitor

/-!
The mark over any number of boots and looks at the reset button, on a store that may fail. What a boot does hangs on what
it reads, what it answers is to be found in its stages, and the mark comes and goes only with an access that says so.
-/

namespace KeyFob.Provisioning

section definitions

variable {ε κ τ α : Type}

/-- A step in the life of a fob: it starts, with a new token, or the reset monitor looks at its button. -/
inductive Step (τ : Type)
  | boot (token : τ) (reinit : Bool)
  | poll

def renewed (token : τ) (d : Device ε κ τ) : Device ε κ τ := { d with token, signals := {}, queue := {} }

/-- What the activity adds to the journal. -/
def added (m : Run ε κ τ α) (d : Device ε κ τ) : List Entry := (m d).2.journal.toList.drop d.journal.toList.length

/-- The calls that make secrets or reload them. -/
def secretCalls (t : List Entry) : List Entry :=
  t.filter fun
    | .generate | .restore => true
    | _ => false

def stageChange? : Entry → Option (Stage × Stage)
  | .emit (.lifecycle source target) => some (source, target)
  | _ => none

def stageChanges (t : List Entry) : List (Stage × Stage) := t.filterMap stageChange?

theorem secretCalls_own (t : List Entry) : secretCalls (own t) = secretCalls t :=
  filter_own (fun _ => rfl) (fun _ => rfl) t

theorem stageChanges_own (t : List Entry) : stageChanges (own t) = stageChanges t :=
  filterMap_own (fun _ => rfl) (fun _ => rfl) t

variable [Storage κ] [Token κ τ]

/-- The boot finds no mark, makes secrets, and then sets the mark. -/
structure BootMarks (s : κ) (t : τ) : Prop where
  read : (markRead s).1 = .error .notFound
  made : (generated s t).1.1 = .ok ()
  marked : (marking s t).1 = .ok ()

/-- The boot finds the mark, fails to reload what goes with it, and takes it away. -/
structure BootErases (reinit : Bool) (s : κ) (t : τ) : Prop where
  read : ∃ bytes, (markRead s).1 = .ok bytes
  failed : ∃ e, (restored s t).1.1 = .error e
  asked : reinit = true
  erased : (erasing s t).1 = .ok ()

/-- Where the error of a boot comes from: the read, the token, or the write of the mark. -/
inductive Blamed (s : κ) (t : τ) : ProvisionError → Prop
  | read (e : StorageError) (hread : (markRead s).1 = .error e) (hne : e ≠ .notFound) : Blamed s t (.storage e)
  | generate (e : ProvisionError) (hread : (markRead s).1 = .error .notFound) (hmade : (generated s t).1.1 = .error e) :
    Blamed s t e
  | mark (e : StorageError) (hread : (markRead s).1 = .error .notFound) (hmade : (generated s t).1.1 = .ok ())
    (hmark : (marking s t).1 = .error e) : Blamed s t (.storage e)
  | restore (bytes : Bytes) (e : ProvisionError) (hread : (markRead s).1 = .ok bytes)
    (hloaded : (restored s t).1.1 = .error e) : Blamed s t e

variable [Surroundings ε]

/-- The button has been pressed, and the mark can be deleted. -/
structure PollErases (d : Device ε κ τ) : Prop where
  pressed : (Run.signals d).1.reset = true
  erased : (Storage.delete space key d.store).1 = .ok ()

namespace Step

def perform : Step τ → Run ε κ τ Unit
  | boot token reinit => do
    modify (renewed token)
    let _ ← Lifecycle.run { reinit }
  | poll => do let _ ← ResetMonitor.poll

def Marks (d : Device ε κ τ) : Step τ → Prop
  | boot token _ => BootMarks d.store token
  | poll => False

def Erases (d : Device ε κ τ) : Step τ → Prop
  | boot token reinit => BootErases reinit d.store token
  | poll => PollErases d

end Step

def performSteps : List (Step τ) → Run ε κ τ Unit
  | [] => pure ()
  | step :: rest => do
    step.perform
    performSteps rest

variable [Honest κ]

/-- What holds of a boot that begins here. -/
structure BootLaw (reinit : Bool) (d : Device ε κ τ) : Prop where
  /-- A boot that cannot read the mark calls nothing of the token. -/
  unread (e : StorageError) (h : (markRead d.store).1 = .error e) (hne : e ≠ .notFound) :
    secretCalls (added (Lifecycle.run { reinit }) d) = []
  absent (h : ¬ Marked (Honest.contents d.store)) (hread : ∀ e, (markRead d.store).1 = .error e → e = .notFound) :
    secretCalls (added (Lifecycle.run { reinit }) d) = [.generate]
  present (h : Marked (Honest.contents d.store)) (hread : ∀ e, (markRead d.store).1 = .error e → e = .notFound) :
    secretCalls (added (Lifecycle.run { reinit }) d) = [.restore]
  ready : (Lifecycle.run { reinit } d).1.1 = .ok () ↔ (Lifecycle.run { reinit } d).1.2.stage = .ready
  trail (h : (Lifecycle.run { reinit } d).1.1 = .ok ()) :
    ∃ stage, (stage = .initializing ∨ stage = .restoring) ∧
      (Lifecycle.run { reinit } d).1.2.trail = [.start, stage, .ready]
  told : stageChanges (added (Lifecycle.run { reinit }) d) =
    (Lifecycle.run { reinit } d).1.2.trail.zip (Lifecycle.run { reinit } d).1.2.trail.tail
  error (e : ProvisionError) (h : (Lifecycle.run { reinit } d).1.1 = .error e) : Blamed d.store d.token e

/-- What holds of one step after the other. -/
structure Passage (steps : List (Step τ)) (d : Device ε κ τ) : Prop where
  boots (before after : List (Step τ)) (token : τ) (reinit : Bool) (h : steps = before ++ .boot token reinit :: after) :
    BootLaw reinit (renewed token (performSteps before d).2)
  /-- The mark is there behind a step that sets it, or where it was and the step does not take it away. -/
  mark (before after : List (Step τ)) (step : Step τ) (h : steps = before ++ step :: after) :
    Marked (Honest.contents (performSteps (before ++ [step]) d).2.store) ↔
      step.Marks (performSteps before d).2 ∨
        Marked (Honest.contents (performSteps before d).2.store) ∧ ¬ step.Erases (performSteps before d).2
  appears (h : ¬ Marked (Honest.contents d.store)) (h' : Marked (Honest.contents (performSteps steps d).2.store)) :
    ∃ before token reinit after, steps = before ++ .boot token reinit :: after ∧
      BootMarks (performSteps before d).2.store token
  vanishes (h : Marked (Honest.contents d.store)) (h' : ¬ Marked (Honest.contents (performSteps steps d).2.store)) :
    ∃ before step after, steps = before ++ step :: after ∧ step.Erases (performSteps before d).2

class Discreet (κ τ : Type) [Storage κ] [Honest κ] [Token κ τ] : Prop where
  generate (t : τ) (s : Shelf κ) : Marked (Honest.contents (Token.generate t s).2.store) ↔ Marked (Honest.contents s.store)
  restore (t : τ) (s : Shelf κ) : Marked (Honest.contents (Token.restore t s).2.store) ↔ Marked (Honest.contents s.store)

end definitions

section ends

variable {κ τ : Type} [Storage κ] [Token κ τ] {reinit : Bool} {s s' : κ} {t : τ} {r : Except ProvisionError Unit}
  {trail : List Stage}

/-- What a boot calls the token for, by the read of the mark. -/
def callsBehind : Except StorageError Bytes → List Entry
  | .ok _ => [.restore]
  | .error .notFound => [.generate]
  | .error _ => []

theorem callsBehind_error {e : StorageError} (h : e ≠ .notFound) : callsBehind (.error e) = [] := by
  cases e with
  | notFound => exact absurd rfl h
  | full => rfl
  | ioError => rfl

theorem Ends.calls (h : Ends reinit s t r trail s') :
    secretCalls (Lifecycle.stepsThrough trail) = callsBehind (markRead s).1 := by
  cases h with
  | unread e hread hne =>
    rw [hread, callsBehind_error hne]
    rfl
  | ungenerated _ hread | unmarked _ hread | initialized hread =>
    rw [hread]
    rfl
  | restored _ hread | unrestored _ _ hread | erased _ _ hread =>
    rw [hread]
    rfl

/-- Every change of the stage is told. -/
theorem Ends.told (h : Ends reinit s t r trail s') :
    stageChanges (Lifecycle.stepsThrough trail) = trail.zip trail.tail := by
  cases h <;> rfl

theorem Ends.stages (h : Ends reinit s t (.ok ()) trail s') :
    ∃ stage, (stage = .initializing ∨ stage = .restoring) ∧ trail = [.start, stage, .ready] := by
  cases h with
  | initialized => exact ⟨.initializing, Or.inl rfl, rfl⟩
  | restored => exact ⟨.restoring, Or.inr rfl, rfl⟩

theorem Ends.blamed {e : ProvisionError} (h : Ends reinit s t (.error e) trail s') : Blamed s t e := by
  cases h with
  | unread e hread hne => exact .read e hread hne
  | ungenerated e hread hmade => exact .generate e hread hmade
  | unmarked e hread hmade hmark => exact .mark e hread hmade hmark
  | unrestored bytes e hread hloaded => exact .restore bytes e hread hloaded
  | erased bytes e hread hloaded => exact .restore bytes e hread hloaded

variable [Honest κ]

theorem marked_of_read_ok {bytes : Bytes} (h : (markRead s).1 = .ok bytes) : Marked (Honest.contents s) :=
  fun hnone => nomatch (Honest.read_ok _ _ _ s bytes h).symm.trans hnone

theorem not_marked_of_read_notFound (h : (markRead s).1 = .error .notFound) : ¬ Marked (Honest.contents s) :=
  fun hmark => hmark (Honest.read_notFound _ _ _ s h)

theorem marked_write (s : κ) : Marked (Honest.contents (Storage.write space key [1] s).2) ↔
    (Storage.write space key [1] s).1 = .ok () ∨ Marked (Honest.contents s) := by
  cases h : (Storage.write space key [1] s).1 with
  | ok _ =>
    rw [Marked, Honest.write_ok _ _ _ s h, Contents.set_self]
    exact iff_of_true nofun (Or.inl rfl)
  | error e =>
    rw [Marked, Honest.write_error _ _ _ s e h]
    exact ⟨Or.inr, fun h => h.resolve_left nofun⟩

theorem marked_delete (s : κ) : Marked (Honest.contents (Storage.delete space key s).2) ↔
    Marked (Honest.contents s) ∧ (Storage.delete space key s).1 ≠ .ok () := by
  cases h : (Storage.delete space key s).1 with
  | ok _ =>
    rw [Marked, Honest.delete_ok _ _ s h, Contents.set_self]
    exact iff_of_false (fun hne => hne rfl) fun hne => hne.2 rfl
  | error e =>
    rw [Marked, Honest.delete_error _ _ s e h]
    exact ⟨fun hm => ⟨hm, nofun⟩, fun hm => hm.1⟩

theorem marked_iff_of_neither (hmarks : ¬ BootMarks s t) (herases : ¬ BootErases reinit s t) :
    Marked (Honest.contents s) ↔ BootMarks s t ∨ Marked (Honest.contents s) ∧ ¬ BootErases reinit s t :=
  ⟨fun h => Or.inr ⟨h, herases⟩, fun h => (h.resolve_left hmarks).1⟩

variable [Discreet κ τ]

theorem marked_generated : Marked (Honest.contents (generated s t).2.store) ↔ Marked (Honest.contents s) := by
  refine (Discreet.generate t _).trans ?_
  change Marked (Honest.contents (Storage.read space key markSize s).2) ↔ _
  rw [Honest.contents_read]

theorem marked_restored : Marked (Honest.contents (restored s t).2.store) ↔ Marked (Honest.contents s) := by
  refine (Discreet.restore t _).trans ?_
  change Marked (Honest.contents (Storage.read space key markSize s).2) ↔ _
  rw [Honest.contents_read]

/-- What becomes of the mark in a boot. -/
theorem Ends.marked (h : Ends reinit s t r trail s') : Marked (Honest.contents s') ↔
    BootMarks s t ∨ Marked (Honest.contents s) ∧ ¬ BootErases reinit s t := by
  have unerased (hread : (markRead s).1 = .error .notFound) : ¬ BootErases reinit s t := fun he =>
    nomatch hread.symm.trans he.read.choose_spec
  have unset {bytes : Bytes} (hread : (markRead s).1 = .ok bytes) : ¬ BootMarks s t := fun hm =>
    nomatch hread.symm.trans hm.read
  cases h with
  | unread e hread hne =>
    have hsame : Marked (Honest.contents (markRead s).2) ↔ Marked (Honest.contents s) := by
      rw [markRead, Honest.contents_read]
    refine hsame.trans (marked_iff_of_neither (fun hm => hne ?_) fun he => ?_)
    · cases hread.symm.trans hm.read
      rfl
    · cases hread.symm.trans he.read.choose_spec
  | ungenerated e hread hmade =>
    exact marked_generated.trans (marked_iff_of_neither (fun hm => nomatch hmade.symm.trans hm.made) (unerased hread))
  | unmarked e hread hmade hmark =>
    have hfailed : (marking s t).1 ≠ .ok () := by
      rw [hmark]
      exact nofun
    have hsame : Marked (Honest.contents (marking s t).2) ↔ Marked (Honest.contents s) :=
      (marked_write _).trans ((or_iff_right hfailed).trans marked_generated)
    exact hsame.trans (marked_iff_of_neither (fun hm => hfailed hm.marked) (unerased hread))
  | initialized hread hmade hmark =>
    exact iff_of_true ((marked_write _).2 (Or.inl hmark)) (Or.inl ⟨hread, hmade, hmark⟩)
  | restored bytes hread hloaded =>
    exact marked_restored.trans
      (marked_iff_of_neither (unset hread) fun he => nomatch hloaded.symm.trans he.failed.choose_spec)
  | unrestored bytes e hread hloaded hreinit =>
    exact marked_restored.trans (marked_iff_of_neither (unset hread) fun he => nomatch hreinit.symm.trans he.asked)
  | erased bytes e hread hloaded hreinit =>
    have herases : BootErases reinit s t ↔ (erasing s t).1 = .ok () :=
      ⟨fun he => he.erased, fun hok => ⟨⟨bytes, hread⟩, ⟨e, hloaded⟩, hreinit, hok⟩⟩
    refine (marked_delete _).trans ((and_congr marked_restored (not_congr herases.symm)).trans ?_)
    exact (or_iff_right (unset hread)).symm

end ends

section steps

variable {ε κ τ : Type} [Storage κ] [Honest κ] [Token κ τ] [Surroundings ε]

theorem bootLaw (reinit : Bool) (d : Device ε κ τ) : BootLaw reinit d := by
  obtain ⟨hends, hstage⟩ := Lifecycle.run_ends reinit d.store d.token d ⟨rfl, rfl⟩
  obtain ⟨t, hjournal, -, hown⟩ := Lifecycle.run_leaves reinit d
  have hadded : added (Lifecycle.run { reinit }) d = t := by
    rw [added, hjournal, List.drop_left]
  have hcalls : secretCalls (added (Lifecycle.run { reinit }) d) = callsBehind (markRead d.store).1 := by
    rw [hadded, ← secretCalls_own, hown]
    exact hends.calls
  refine ⟨fun e h hne => ?_, fun h hread => ?_, fun h hread => ?_, ?_, fun h => ?_, ?_, fun e h => ?_⟩
  · rw [hcalls, h, callsBehind_error hne]
  · rw [hcalls]
    cases hr : (markRead d.store).1 with
    | ok bytes => exact absurd (marked_of_read_ok hr) h
    | error e =>
      obtain rfl := hread e hr
      rfl
  · rw [hcalls]
    cases hr : (markRead d.store).1 with
    | ok bytes => rfl
    | error e =>
      obtain rfl := hread e hr
      exact absurd h (not_marked_of_read_notFound hr)
  · rw [hstage]
    cases (Lifecycle.run { reinit } d).1.1 with
    | ok _ => exact iff_of_true rfl rfl
    | error e => exact iff_of_false nofun nofun
  · rw [h] at hends
    exact hends.stages
  · rw [hadded, ← stageChanges_own, hown]
    exact hends.told
  · rw [h] at hends
    exact hends.blamed

omit [Token κ τ] [Honest κ] in
/-- A look at the button erases if that has been pressed, and otherwise does nothing. -/
theorem poll_store (d : Device ε κ τ) : (ResetMonitor.poll d).2.store =
    if (Run.signals d).1.reset then (Storage.delete space key d.store).2 else d.store := by
  have hlooked : (Run.signals d).2.store = d.store := congrArg Vault.store (Run.signals_bystands d)
  have polls : Leads (· = d) (ResetMonitor.poll : Run ε κ τ Bool) fun _ d' =>
      d'.store = if (Run.signals d).1.reset then (Storage.delete space key d.store).2 else d.store := by
    refine Leads.bind (Q := fun signals d' => signals = (Run.signals d).1 ∧ d'.store = d.store) ?_ fun signals => ?_
    · rintro _ rfl
      exact ⟨rfl, hlooked⟩
    rintro d' ⟨rfl, hstore⟩
    cases (Run.signals d).1.reset with
    | false => exact hstore
    | true =>
      have erases : Brings (fun v => v.store = d.store) (Run.onShelf erase : Run ε κ τ _) fun _ v =>
          v.store = (Storage.delete space key d.store).2 :=
        .onShelf fun v hv => congrArg (fun s => (Storage.delete space key s).2) hv
      refine Brings.after (R := fun _ v => v.store = (Storage.delete space key d.store).2) (Run.emit_bystands _)
        (fun _ => erases.bind fun r => ?_) d' hstore
      cases r with
      | ok _ => exact .after (Run.log_bystands _ _ _) fun _ => .after (Run.act_bystands _) fun _ => .pure fun _ h => h
      | error e => exact .after (Run.log_bystands _ _ _) fun _ => .pure fun _ h => h
  exact polls d rfl

omit [Token κ τ] in
/-- What becomes of the mark in a look at the button. -/
theorem poll_marked (d : Device ε κ τ) : Marked (Honest.contents (ResetMonitor.poll d).2.store) ↔
    Marked (Honest.contents d.store) ∧ ¬ PollErases d := by
  rw [poll_store]
  cases hpressed : (Run.signals d).1.reset with
  | false =>
    have hkept : ¬ PollErases d := fun he => nomatch hpressed.symm.trans he.pressed
    exact (and_iff_left hkept).symm
  | true =>
    have herases : PollErases d ↔ (Storage.delete space key d.store).1 = .ok () :=
      ⟨fun he => he.erased, fun h => ⟨hpressed, h⟩⟩
    exact (marked_delete d.store).trans (and_congr Iff.rfl (not_congr herases.symm))

variable [Discreet κ τ]

theorem Step.marked (step : Step τ) (d : Device ε κ τ) : Marked (Honest.contents (step.perform d).2.store) ↔
    step.Marks d ∨ Marked (Honest.contents d.store) ∧ ¬ step.Erases d := by
  cases step with
  | boot token reinit =>
    exact (Lifecycle.run_ends reinit d.store token (renewed token d) ⟨rfl, rfl⟩).1.marked
  | poll => exact (poll_marked d).trans (or_iff_right id).symm

omit [Honest κ] [Discreet κ τ] in
theorem performSteps_append (before after : List (Step τ)) (d : Device ε κ τ) :
    performSteps (before ++ after) d = performSteps after (performSteps before d).2 := by
  induction before generalizing d with
  | nil => rfl
  | cons step before ih => exact ih (step.perform d).2

/-- The mark appears only in a boot that makes secrets and sets it. -/
theorem appears_in_a_boot {steps : List (Step τ)} {d : Device ε κ τ} (h : ¬ Marked (Honest.contents d.store))
    (h' : Marked (Honest.contents (performSteps steps d).2.store)) :
    ∃ before token reinit after, steps = before ++ .boot token reinit :: after ∧
      BootMarks (performSteps before d).2.store token := by
  induction steps generalizing d with
  | nil => exact absurd h' h
  | cons step steps ih =>
    by_cases hm : Marked (Honest.contents (step.perform d).2.store)
    · have hmarks : step.Marks d := ((step.marked d).1 hm).resolve_right fun hkept => h hkept.1
      cases step with
      | boot token reinit => exact ⟨[], token, reinit, steps, rfl, hmarks⟩
      | poll => exact hmarks.elim
    · obtain ⟨before, token, reinit, after, rfl, hmarks⟩ := ih hm h'
      exact ⟨step :: before, token, reinit, after, rfl, hmarks⟩

/-- The mark vanishes only in a step that erases it. -/
theorem vanishes_in_a_step {steps : List (Step τ)} {d : Device ε κ τ} (h : Marked (Honest.contents d.store))
    (h' : ¬ Marked (Honest.contents (performSteps steps d).2.store)) :
    ∃ before step after, steps = before ++ step :: after ∧ step.Erases (performSteps before d).2 := by
  induction steps generalizing d with
  | nil => exact absurd h h'
  | cons step steps ih =>
    by_cases hm : Marked (Honest.contents (step.perform d).2.store)
    · obtain ⟨before, step', after, rfl, herases⟩ := ih hm h'
      exact ⟨step :: before, step', after, rfl, herases⟩
    · refine ⟨[], step, steps, rfl, Classical.byContradiction fun hkept => hm ?_⟩
      exact (step.marked d).2 (Or.inr ⟨h, hkept⟩)

/-- Over any boots and looks at the button, whatever the accesses and the tokens come to. -/
theorem mark_comes_and_goes (steps : List (Step τ)) (d : Device ε κ τ) : Passage steps d where
  boots before after token reinit _ := bootLaw reinit (renewed token (performSteps before d).2)
  mark before after step _ := by
    rw [performSteps_append]
    exact step.marked (performSteps before d).2
  appears := appears_in_a_boot
  vanishes := vanishes_in_a_step

end steps

theorem marked_congr {C C' : Contents} (h : C space key = C' space key) : Marked C ↔ Marked C' := by
  rw [Marked, h, Marked]

instance {κ : Type} [Storage κ] [Honest κ] : Discreet κ SoftToken where
  generate t s :=
    marked_congr (SoftToken.keptByToken_elsewhere.generate t s (fun _ _ _ => rfl) space key (by decide))
  restore t s :=
    marked_congr (SoftToken.keptByToken_elsewhere.restore t s (fun _ _ _ => rfl) space key (by decide))

open Bench in
instance {κ : Type} [Storage κ] [Honest κ] : Discreet κ AnyToken where
  generate
    | .soft t, s => Discreet.generate t s
    | .scripted _, _ => Iff.rfl
  restore
    | .soft t, s => Discreet.restore t s
    | .scripted _, _ => Iff.rfl

/-- A fob that fails to set its mark at first, and later to take it away. -/
def hesitant : Device Bench.Turns UnreliableStore Bench.AnyToken where
  outside := { left := [[.reset]] }
  store := { outages := [none, none, some .full, none, none, none, some .ioError] }
  token := .scripted {}

/-- A token that makes no secrets, two that do, one that cannot reload them, and a look at the button. -/
def hesitation : List (Step Bench.AnyToken) :=
  [.boot (.scripted { generates := .error .corrupted }) true, .boot (.scripted {}) true, .boot (.scripted {}) false,
    .boot (.scripted { restores := .error .missingState }) true, .poll]

theorem mark_comes_late_and_goes_late :
    Discreet UnreliableStore Bench.AnyToken ∧ Passage hesitation hesitant ∧
      ¬ Marked (Honest.contents (performSteps (hesitation.take 2) hesitant).2.store) ∧
      Marked (Honest.contents (performSteps (hesitation.take 4) hesitant).2.store) ∧
      ¬ Marked (Honest.contents (performSteps hesitation hesitant).2.store) := by
  refine ⟨inferInstance, mark_comes_and_goes hesitation hesitant, ?_, ?_, ?_⟩ <;>
    · unfold Marked
      decide +kernel

end KeyFob.Provisioning
