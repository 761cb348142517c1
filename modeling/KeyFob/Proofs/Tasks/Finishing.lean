import KeyFob.Proofs.Journal.Effects
import KeyFob.Proofs.Provisioning.Contest
import KeyFob.Proofs.RestartLog.Ring
import KeyFob.Tasks

/-!
All that comes before a restart, whatever fails on the way: the record with the time at which it began, the countdown, and
the release of the volume.
-/

namespace KeyFob

namespace RestartLog

variable {κ : Type} [Storage κ]

/-- A record that the store does not take is warned of, and the position moves on all the same. -/
theorem record_accessed (l : RestartLog) (r : RestartRecord) (s : Shelf κ) :
    let written := Storage.write space (slotKey l.next) r.encode s.store
    let next := encodeNext ((l.next + 1) % slots)
    let moved := Storage.write space nextKey next written.2
    Accessed [.note (.write space (slotKey l.next) r.encode written.1), .note (.write space nextKey next moved.1)] moved.2 s
      (l.record r s).2 := by
  intro written next moved
  have writes : Leads (· = s) (OnShelf.write space (slotKey l.next) r.encode : OnShelf κ _) fun _ =>
      Accessed [.note (.write space (slotKey l.next) r.encode written.1)] written.2 s := by
    rintro s rfl
    exact .write _ _ _ s
  have moves : Leads (Accessed [.note (.write space (slotKey l.next) r.encode written.1)] written.2 s)
      (do let _ ← OnShelf.write space nextKey next; return ⟨(l.next + 1) % slots⟩ : OnShelf κ RestartLog) fun _ =>
        Accessed [.note (.write space (slotKey l.next) r.encode written.1), .note (.write space nextKey next moved.1)]
          moved.2 s := by
    rintro s' h
    have hmoved := Accessed.write space nextKey next s'
    rw [h.store_eq] at hmoved
    exact h.trans hmoved
  refine writes.bind (R := fun _ => Accessed _ _ s) (fun w => ?_) s rfl
  cases w with
  | ok _ => exact moves
  | error e => exact Leads.bind (Q := fun _ => Accessed _ _ s) (fun s' h => h.log _ _ _) fun _ => moves

/-- A new log takes up the position that the store tells, or the first slot. -/
theorem load_record_accessed (r : RestartRecord) (s : Shelf κ) :
    let told := Storage.read space nextKey 4 s.store
    let slot := slotTold told.1
    let written := Storage.write space (slotKey slot) r.encode told.2
    let next := encodeNext ((slot + 1) % slots)
    let moved := Storage.write space nextKey next written.2
    Accessed [.note (.read space nextKey 4 told.1), .note (.write space (slotKey slot) r.encode written.1),
      .note (.write space nextKey next moved.1)] moved.2 s ((do let l ← load {}; l.record r : OnShelf κ RestartLog) s).2 := by
  intro told slot written next moved
  have hrecorded : (do let l ← load {}; l.record r : OnShelf κ RestartLog) s =
      (⟨slot⟩ : RestartLog).record r (OnShelf.read space nextKey 4 s).2 := by
    change (load {} s).1.record r (load {} s).2 = _
    rw [load_eq]
    rfl
  rw [hrecorded]
  exact (Accessed.read space nextKey 4 s).trans (record_accessed ⟨slot⟩ r (OnShelf.read space nextKey 4 s).2)

end RestartLog

namespace Tasks

open RestartLog (space nextKey slotKey slots slotTold encodeNext)

variable {ε κ τ : Type} [Surroundings ε]

def secondsLater (n : Nat) (o : ε) : ε := (fun o => (Surroundings.elapse 1000 o).2)^[n] o

theorem countdown_did (n : Nat) (d : Device ε κ τ) : Did (List.replicate n (.delay 1000)) d (countdown n d).2 ∧
    (countdown n d).2.outside = secondsLater n d.outside := by
  induction n generalizing d with
  | zero => exact ⟨.refl d, rfl⟩
  | succ n ih =>
    let told := (Run.log .info .restart s!"RESTART | restarting in {n + 1} seconds" d).2
    obtain ⟨hdid, houtside⟩ := ih (Run.delay 1000 told).2
    refine ⟨(Run.log_did d _ _ _).after ((Run.delay_did told 1000).trans hdid), houtside.trans ?_⟩
    rw [Run.delay_outside]
    rfl

/-- How many seconds are counted down: none if the operator has asked for the restart. -/
def seconds (reason : Restart.Reason) (secs : UInt32) : Nat := if reason = .hardReset then 0 else secs.toNat

/-- A volume that is not released is warned of, and that is all. -/
theorem release_leads {l : List Entry} {d : Device ε κ τ} {o : ε} :
    Leads (fun d' => Did l d d' ∧ d'.outside = o)
      (do
        match ← Run.unmount with
        | .ok () => pure ()
        | .error e => Run.log .warn .restart ("RESTART | " ++ e.message) : Run ε κ τ Unit)
      fun _ => Did (l ++ if Surroundings.mounted o then [.unmount] else []) d := by
  refine Leads.bind (Q := fun _ => Did (l ++ if Surroundings.mounted o then [.unmount] else []) d) ?_ fun r => ?_
  · rintro d' ⟨hdid, rfl⟩
    exact hdid.trans (Run.unmount_did d')
  · cases r with
    | ok _ => exact .pure fun _ h => h
    | error e => exact fun d' h => h.before (Run.log_did d' _ _ _)

theorem prepare_did (reason : Restart.Reason) (secs : UInt32) (d : Device ε κ τ) :
    Did (List.replicate (seconds reason secs) (.delay 1000) ++
      if Surroundings.mounted (secondsLater (seconds reason secs) d.outside) then [.unmount] else []) d
      (prepare reason secs d).2 := by
  by_cases hreason : reason = .hardReset
  · rw [seconds, if_pos hreason]
    subst hreason
    exact release_leads _ ⟨Run.log_did d .info .restart _, rfl⟩
  · have hfatal : reason.isFatal = true := bne_iff_ne.2 hreason
    rw [seconds, if_neg hreason]
    unfold prepare
    rw [if_pos hfatal]
    obtain ⟨hdid, houtside⟩ := countdown_did secs.toNat (Run.log .error .restart ("RESTART | " ++ reason.text) d).2
    exact release_leads _ ⟨(Run.log_did d _ _ _).after hdid, houtside⟩

/-- Whatever the store and the volume answer, and whatever the others do during the countdown: the store is asked for the
position and given the record, then each second is waited for unless the operator has asked, and then a volume that is
still mounted is released once. The record bears the time at which all this began, and what is written reads back as what
is returned. -/
theorem finish_runs_through [Storage κ] (reason : Restart.Reason) (secs : UInt32) (d : Device ε κ τ) :
    let record : RestartRecord := ⟨UInt64.ofNat (Surroundings.uptime d.outside), reason⟩
    let told := Storage.read space nextKey 4 d.store
    let slot := slotTold told.1
    let next := encodeNext ((slot + 1) % slots)
    let written := Storage.write space (slotKey slot) record.encode told.2
    let moved := Storage.write space nextKey next written.2
    let counted := if reason = .hardReset then 0 else secs.toNat
    (finish reason secs d).1 = record ∧ RestartRecord.decode? record.encode = some record ∧
    effects ((finish reason secs d).2.journal.since d.journal) =
      [.note (.read space nextKey 4 told.1), .note (.write space (slotKey slot) record.encode written.1),
        .note (.write space nextKey next moved.1)] ++ List.replicate counted (.delay 1000) ++
      (if Surroundings.mounted (secondsLater counted d.outside) then [.unmount] else []) ∧
    (finish reason secs d).2.store = moved.2 := by
  intro record told slot next written moved counted
  let recording : OnShelf κ RestartLog := do let l ← RestartLog.load {}; l.record record
  let recorded := (Run.onShelf recording d).2
  have hfinish : finish reason secs d = (record, (prepare reason secs recorded).2) := rfl
  have haccessed := RestartLog.load_record_accessed record ⟨d.store, []⟩
  have hdid := (Run.onShelf_did d haccessed).trans (prepare_did reason secs recorded)
  have hkept : (prepare reason secs recorded).2.store = recorded.store :=
    congrArg Vault.store (prepare_bystands reason secs recorded)
  rw [hfinish]
  exact ⟨rfl, record.decode?_encode, hdid.since.trans (List.append_assoc _ _ _).symm, hkept.trans haccessed.store_eq⟩

end Tasks

end KeyFob
