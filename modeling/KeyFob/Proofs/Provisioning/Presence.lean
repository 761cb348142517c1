import KeyFob.Bench.Plan
import KeyFob.Bench.Tokens
import KeyFob.Proofs.Provisioning.Ends
import KeyFob.Proofs.Provisioning.Mark
import KeyFob.Proofs.Storage.Reliable

/-!
How far only the presence of the mark counts, where reading never fails by itself. A mark that can be read back says that
the fob is provisioned, whatever it holds. One that is longer than what is read of it is there as well, but is taken for
a failure of the store: the fob counts neither as provisioned nor as new, and its boot fails.
-/

namespace KeyFob.Provisioning

def Overlong (C : Contents) : Prop := ∃ bytes, C space key = some bytes ∧ markSize < bytes.length

section reads

variable {κ : Type} [Storage κ] [Legible κ]

/-- What reading the mark comes to, by what is stored. -/
inductive ReadsMark (C : Contents) : Except StorageError Bytes → Prop
  | absent (h : C space key = none) : ReadsMark C (.error .notFound)
  | present (bytes : Bytes) (h : C space key = some bytes) (hsize : bytes.length ≤ markSize) : ReadsMark C (.ok bytes)
  | overlong (h : Overlong C) : ReadsMark C (.error .ioError)

theorem markRead_reads (s : κ) : ReadsMark (Honest.contents s) (markRead s).1 := by
  have hread : (markRead s).1 = (Honest.contents s).read space key markSize := Legible.read_eq space key markSize s
  rw [hread, Contents.read]
  cases h : Honest.contents s space key with
  | none => exact .absent h
  | some bytes =>
    dsimp only
    split
    · next hsize => exact .present bytes h hsize
    · next hsize => exact .overlong ⟨bytes, h, Nat.not_le.1 hsize⟩

theorem Overlong.marked {C : Contents} (h : Overlong C) : Marked C := by
  obtain ⟨bytes, hb, -⟩ := h
  rw [Marked, hb]
  exact nofun

theorem ReadsMark.error_iff {C : Contents} {r : Except StorageError Bytes} (h : ReadsMark C r) :
    r = .error .ioError ↔ Overlong C := by
  cases h with
  | absent h => exact iff_of_false nofun fun ⟨bytes, hb, _⟩ => nomatch h.symm.trans hb
  | present bytes h hsize =>
    refine iff_of_false nofun fun ⟨bytes', hb, hlong⟩ => ?_
    obtain rfl := Option.some.inj (h.symm.trans hb)
    exact absurd hsize (Nat.not_le.2 hlong)
  | overlong h => exact iff_of_true rfl h

theorem ReadsMark.ok_iff {C : Contents} {r : Except StorageError Bytes} (h : ReadsMark C r) :
    (∃ bytes, r = .ok bytes) ↔ Marked C ∧ ¬ Overlong C := by
  rw [← h.error_iff]
  cases h with
  | absent h => exact iff_of_false (fun ⟨_, hb⟩ => nomatch hb) fun hm => hm.1 h
  | present bytes h _ => exact iff_of_true ⟨bytes, rfl⟩ ⟨by rw [Marked, h]; exact nofun, nofun⟩
  | overlong h => exact iff_of_false (fun ⟨_, hb⟩ => nomatch hb) fun hm => hm.2 rfl

theorem ReadsMark.notFound_iff {C : Contents} {r : Except StorageError Bytes} (h : ReadsMark C r) :
    r = .error .notFound ↔ ¬ Marked C := by
  cases h with
  | absent h => exact iff_of_true rfl (not_not_intro h)
  | present bytes h _ => exact iff_of_false nofun (not_not_intro (by rw [Marked, h]; exact nofun))
  | overlong h => exact iff_of_false nofun (not_not_intro h.marked)

end reads

section boots

variable {κ τ : Type} [Storage κ] [Token κ τ] {reinit : Bool} {s s' : κ} {t : τ} {r : Except ProvisionError Unit}
  {trail : List Stage}

theorem Ends.restoring_iff (h : Ends reinit s t r trail s') :
    .restoring ∈ trail ↔ ∃ bytes, (markRead s).1 = .ok bytes := by
  cases h with
  | unread e hread | ungenerated _ hread | unmarked _ hread | initialized hread =>
    exact iff_of_false (by decide) fun ⟨bytes, hb⟩ => nomatch hread.symm.trans hb
  | restored bytes hread | unrestored bytes _ hread | erased bytes _ hread =>
    exact iff_of_true (by decide) ⟨bytes, hread⟩

theorem Ends.initializing_iff (h : Ends reinit s t r trail s') :
    .initializing ∈ trail ↔ (markRead s).1 = .error .notFound := by
  cases h with
  | unread e hread hne => exact iff_of_false (by decide) fun hb => hne (Except.error.inj (hread.symm.trans hb))
  | ungenerated _ hread | unmarked _ hread | initialized hread => exact iff_of_true (by decide) hread
  | restored bytes hread | unrestored bytes _ hread | erased bytes _ hread =>
    exact iff_of_false (by decide) fun hb => nomatch hread.symm.trans hb

theorem Ends.of_unread {e : StorageError} (h : Ends reinit s t r trail s') (hread : (markRead s).1 = .error e)
    (hne : e ≠ .notFound) : r = .error (.storage e) ∧ trail = [.start, .failed] ∧ s' = (markRead s).2 := by
  cases h with
  | unread e' hread' => exact ⟨by rw [Except.error.inj (hread'.symm.trans hread)], rfl, rfl⟩
  | ungenerated _ hread' | unmarked _ hread' | initialized hread' =>
    exact absurd (Except.error.inj (hread.symm.trans hread')) hne
  | restored _ hread' | unrestored _ _ hread' | erased _ _ hread' => cases hread.symm.trans hread'

theorem Tells.eq_presence [Legible κ] {told : Except StorageError Bool} (h : Tells s told)
    (hshort : ¬ Overlong (Honest.contents s)) : told = .ok (Honest.contents s space key).isSome := by
  have hreads := markRead_reads s
  match told, h with
  | .ok true, ⟨bytes, hread⟩ =>
    rw [hread] at hreads
    cases hreads with
    | present _ hmark => rw [hmark]; rfl
  | .ok false, hread =>
    rw [show (markRead s).1 = .error .notFound from hread] at hreads
    cases hreads with
    | absent hmark => rw [hmark]; rfl
  | .error e, ⟨hread, hne⟩ =>
    rw [hread] at hreads
    cases hreads with
    | absent => exact absurd rfl hne
    | overlong hlong => exact absurd hlong hshort

theorem Tells.eq_error [Legible κ] {told : Except StorageError Bool} (h : Tells s told)
    (hlong : Overlong (Honest.contents s)) : told = .error .ioError := by
  have hread : (markRead s).1 = .error .ioError := (markRead_reads s).error_iff.2 hlong
  match told, h with
  | .ok true, ⟨_, hok⟩ => cases hread.symm.trans hok
  | .ok false, hnone => cases hread.symm.trans hnone
  | .error e, ⟨herror, _⟩ => rw [Except.error.inj (herror.symm.trans hread)]

end boots

variable {ε κ τ : Type} [Surroundings ε] [Storage κ] [Legible κ] [Token κ τ]

/-- Only the presence of the mark counts, for what is told of the fob and for where its boot goes. -/
structure PresenceCounts (reinit : Bool) (d : Device ε κ τ) : Prop where
  told : (isProvisioned ⟨d.store, []⟩).1 = .ok (Honest.contents d.store space key).isSome
  restoring : .restoring ∈ (Lifecycle.run { reinit } d).1.2.trail ↔ Marked (Honest.contents d.store)
  initializing : .initializing ∈ (Lifecycle.run { reinit } d).1.2.trail ↔ ¬ Marked (Honest.contents d.store)

/-- The mark is taken for a failure of the store, which is left as it is. -/
structure Fails (reinit : Bool) (d : Device ε κ τ) : Prop where
  told : (isProvisioned ⟨d.store, []⟩).1 = .error .ioError
  result : (Lifecycle.run { reinit } d).1.1 = .error (.storage .ioError)
  trail : (Lifecycle.run { reinit } d).1.2.trail = [.start, .failed]
  unchanged : Honest.contents (Lifecycle.run { reinit } d).2.store = Honest.contents d.store

variable (reinit : Bool) (d : Device ε κ τ)

theorem presenceCounts (h : ¬ Overlong (Honest.contents d.store)) : PresenceCounts reinit d := by
  obtain ⟨hends, -⟩ := Lifecycle.run_ends (ε := ε) reinit d.store d.token d ⟨rfl, rfl⟩
  have hreads := markRead_reads d.store
  have htold := (isProvisioned_tells d.store ⟨d.store, []⟩ rfl).2.eq_presence h
  refine ⟨htold, hends.restoring_iff.trans (hreads.ok_iff.trans (and_iff_left h)), ?_⟩
  exact hends.initializing_iff.trans hreads.notFound_iff

theorem fails (h : Overlong (Honest.contents d.store)) : Fails reinit d := by
  obtain ⟨hends, -⟩ := Lifecycle.run_ends (ε := ε) reinit d.store d.token d ⟨rfl, rfl⟩
  have hread : (markRead d.store).1 = .error .ioError := (markRead_reads d.store).error_iff.2 h
  obtain ⟨hresult, htrail, hstore⟩ := hends.of_unread hread nofun
  refine ⟨(isProvisioned_tells d.store ⟨d.store, []⟩ rfl).2.eq_error h, hresult, htrail, ?_⟩
  exact (congrArg Honest.contents hstore).trans (Honest.contents_read space key markSize d.store)

/-- A mark counts by its presence alone exactly where it is not longer than what is read of it. One that is makes every
boot fail. -/
theorem presence_counts_unless_overlong :
    (PresenceCounts reinit d ↔ ¬ Overlong (Honest.contents d.store)) ∧
      (Overlong (Honest.contents d.store) → Fails reinit d) := by
  refine ⟨⟨fun hcounts hlong => ?_, presenceCounts reinit d⟩, fails reinit d⟩
  cases hcounts.told.symm.trans (fails reinit d hlong).told

def holding (mark : Bytes) : Device Bench.Plan MemoryStore Bench.AnyToken where
  outside := {}
  store := ({} : MemoryStore).insert space key mark
  token := .scripted {}

theorem presence_counts_up_to_eight_bytes :
    PresenceCounts true (holding (List.replicate 8 255)) ∧ Fails true (holding (List.replicate 9 255)) := by
  have hshort : ¬ Overlong (Honest.contents (holding (List.replicate 8 255)).store) := fun ⟨bytes, hb, hlong⟩ => by
    obtain rfl : List.replicate 8 255 = bytes := Option.some.inj hb
    exact absurd hlong (by decide)
  have hlong : Overlong (Honest.contents (holding (List.replicate 9 255)).store) := ⟨_, rfl, by decide⟩
  exact ⟨(presence_counts_unless_overlong true _).1.2 hshort, (presence_counts_unless_overlong true _).2 hlong⟩

/-- A fob with a mark of nine bytes. -/
theorem marked_but_not_restored :
    Marked (Honest.contents (holding (List.replicate 9 1)).store) ∧
      (isProvisioned ⟨(holding (List.replicate 9 1)).store, []⟩).1 = .error .ioError ∧
      .restoring ∉ (Lifecycle.run { reinit := true } (holding (List.replicate 9 1))).1.2.trail :=
  ⟨nofun, rfl, by decide +kernel⟩

end KeyFob.Provisioning
