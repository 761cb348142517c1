import Mathlib.Logic.Function.Iterate
import KeyFob.Bench.Plan
import KeyFob.Bench.Tokens
import KeyFob.Proofs.Journal.Effects
import KeyFob.Proofs.Tasks.Ending

/-!
The reset monitor from poll to poll. Until it finds the button pressed it only waits. From then on each of its polls is an
attempt to erase the mark, until one succeeds or it finds that somebody else has asked for a restart.
-/

namespace KeyFob

theorem restart_foldl {as : List Action} (h : ∀ r, .restart r ∉ as) (s : Signals) :
    (as.foldl Action.apply s).restart = s.restart := by
  induction as generalizing s with
  | nil => rfl
  | cons a as ih =>
    rw [List.foldl_cons, ih fun r hr => h r (List.mem_cons_of_mem _ hr)]
    cases a with
    | restart r => exact absurd List.mem_cons_self (h r)
    | _ => rfl

/-- Nobody takes the reset flag down. -/
theorem reset_foldl (as : List Action) {s : Signals} (h : s.reset = true) : (as.foldl Action.apply s).reset = true := by
  induction as generalizing s with
  | nil => exact h
  | cons a as ih =>
    refine ih ?_
    cases a with
    | reset => rfl
    | _ => exact h

variable {ε κ τ : Type} [Surroundings ε]

/-- What others do while so much time passes, none of which is to ask for a restart. -/
structure Harmless (P : ε → Prop) (ms : Nat) (o : ε) (done : List Action × ε) : Prop where
  stays : P done.2
  unasked (r : Restart.Reason) : .restart r ∉ done.1
  clock : Surroundings.uptime done.2 = Surroundings.uptime o + ms

/-- From where `P` holds nobody else asks for a restart, whatever else they do, and the clock follows the delays of a
monitor that polls with this period. -/
structure Calm (pollMs : Nat) (P : ε → Prop) : Prop where
  elapse (o : ε) (h : P o) : Harmless P pollMs o (Surroundings.elapse pollMs o)
  meanwhile (o : ε) (h : P o) : Harmless P 0 o (Surroundings.meanwhile o)
  told (o : ε) (h : P o) : Harmless P 0 o (Surroundings.told .hardResetRequested o)

/-- From one device to the other so much time has passed, with these effects, and no restart was asked for. -/
structure Passed (P : ε → Prop) (ms : Nat) (l : List Entry) (store : κ) (d d' : Device ε κ τ) : Prop where
  did : Did l d d'
  stays : P d'.outside
  clock : Surroundings.uptime d'.outside = Surroundings.uptime d.outside + ms
  store_eq : d'.store = store
  restart_eq : d'.signals.restart = d.signals.restart
  reset (h : d.signals.reset = true) : d'.signals.reset = true

namespace Passed

variable {P : ε → Prop} {ms ms' : Nat} {l l' : List Entry} {store store' : κ} {d d' d'' : Device ε κ τ}

theorem refl (h : P d.outside) : Passed P 0 [] d.store d d := ⟨.refl d, h, rfl, rfl, rfl, id⟩

theorem trans (h : Passed P ms l store d d') (h' : Passed P ms' l' store' d' d'') :
    Passed P (ms + ms') (l ++ l') store' d d'' where
  did := h.did.trans h'.did
  stays := h'.stays
  clock := by rw [h'.clock, h.clock, Nat.add_assoc]
  store_eq := h'.store_eq
  restart_eq := h'.restart_eq.trans h.restart_eq
  reset hd := h'.reset (h.reset hd)

theorem unhalted (h : Passed P ms l store d d') (hopen : d.signals.halting = false) : d'.signals.halting = false := by
  rw [Signals.halting, h.restart_eq]
  exact hopen

/-- A step that leaves the store as it was. -/
theorem step (h : Passed P ms l store d d') (h' : Passed P ms' l' d'.store d' d'') :
    Passed P (ms + ms') (l ++ l') store d d'' := by
  rw [← h.store_eq]
  exact h.trans h'

/-- What comes behind a step that takes no time and has no effect. -/
theorem onward (h : Passed P 0 [] store d d') (h' : Passed P ms l d'.store d' d'') : Passed P ms l store d d'' := by
  have hstep := h.step h'
  rw [Nat.zero_add] at hstep
  exact hstep

/-- A step that takes no time and has no effect. -/
theorem quietly (h : Passed P ms l store d d') (h' : Passed P 0 [] d'.store d' d'') : Passed P ms l store d d'' := by
  have hstep := h.step h'
  rw [Nat.add_zero, List.append_nil] at hstep
  exact hstep

/-- A step that changes nothing but the journal. -/
theorem add (h : P d.outside) (e : Entry) : Passed P 0 (effects [e]) d.store d (Run.add e d).2 :=
  ⟨Run.add_did d e, h, rfl, rfl, rfl, id⟩

theorem log (h : Passed P ms l store d d') (level : Level) (source : Part) (message : String) :
    Passed P ms l store d (Run.log level source message d').2 :=
  h.quietly (Passed.add h.stays (.note (.log ⟨level, source, message⟩)))

/-- The others act, and then things stand like this outside. -/
theorem actAll {done : List Action × ε} (h : Harmless P ms d.outside done) :
    Passed P ms [] d.store d (Run.actAll done.1 { d with outside := done.2 }).2 := by
  have hdid : Did [] { d with outside := done.2 } (Run.actAll done.1 { d with outside := done.2 }).2 := Run.actAll_did _ _
  rw [Run.actAll_eq] at hdid ⊢
  exact ⟨hdid, h.stays, h.clock, rfl, restart_foldl h.unasked _, reset_foldl _⟩

end Passed

namespace Calm

variable {pollMs : Nat} {P : ε → Prop} (hc : Calm pollMs P) {d : Device ε κ τ}
include hc

theorem meanwhile_passed (h : P d.outside) : Passed P 0 [] d.store d (Run.meanwhile d).2 :=
  Passed.actAll (hc.meanwhile _ h)

theorem delay_passed (h : P d.outside) : Passed P pollMs [.delay pollMs] d.store d (Run.delay pollMs d).2 := by
  have hdelay := (Passed.add h (.delay pollMs)).trans (Passed.actAll (d := (Run.add (.delay pollMs) d).2) (hc.elapse _ h))
  rw [Nat.zero_add] at hdelay
  exact hdelay

theorem emit_passed (h : P d.outside) :
    Passed P 0 [.emit .hardResetRequested] d.store d (Run.emit .hardResetRequested d).2 :=
  (Passed.add h (.emit .hardResetRequested)).trans
    (Passed.actAll (d := (Run.add (.emit .hardResetRequested) d).2) (hc.told _ h))

end Calm

namespace ResetMonitor

variable [Storage κ]

/-- One round of a monitor that does not end with it. -/
def round (pollMs : UInt32) : Run ε κ τ Unit := do
  let _ ← poll
  let _ ← Run.halting
  Run.delay pollMs.toNat

/-- The fob at the poll with this number, if the monitor has not ended before. -/
def atPoll (pollMs : UInt32) (n : Nat) (d : Device ε κ τ) : Device ε κ τ := (fun d => (round pollMs d).2)^[n] d

/-- The poll that comes now finds that the button has been pressed. -/
def Pressed (d : Device ε κ τ) : Prop := (Run.signals d).1.reset = true

/-- The fob as the mark is about to be erased. -/
def announced (d : Device ε κ τ) : Device ε κ τ := (Run.emit .hardResetRequested (Run.signals d).2).2

def attempt (s : κ) : Except StorageError Unit × κ := Storage.delete Provisioning.space Provisioning.key s

def tried (n : Nat) (s : κ) : κ := (fun s => (attempt s).2)^[n] s

/-- All that a poll can come to. -/
inductive Polled (d : Device ε κ τ) : Bool × Device ε κ τ → Prop
  | idle (h : ¬ Pressed d) : Polled d (false, (Run.signals d).2)
  | refused (h : Pressed d) (e : StorageError) (hfailed : (attempt d.store).1 = .error e) :
    Polled d (false, (Run.log .warn .provisioning ("RESET: erase failed (" ++ e.message ++ "), retrying")
      (Run.onShelf Provisioning.erase (announced d)).2).2)
  | erased (h : Pressed d) (hok : (attempt d.store).1 = .ok ()) :
    Polled d (true, (Run.act (.restart .hardReset) (Run.log .info .provisioning "RESET: provisioning erased"
      (Run.onShelf Provisioning.erase (announced d)).2).2).2)

omit [Storage κ] in
theorem announced_store (d : Device ε κ τ) : (announced d).store = d.store :=
  congrArg Vault.store ((Run.emit_bystands _ _).trans (Run.signals_bystands d))

theorem polled (d : Device ε κ τ) : Polled d (poll d) := by
  have hpoll : Leads (· = d) (poll : Run ε κ τ Bool) fun r d' => Polled d (r, d') := by
    unfold poll
    refine Leads.bind (Q := fun s d' => s = (Run.signals d).1 ∧ d' = (Run.signals d).2) ?_ fun s => ?_
    · rintro _ rfl
      exact ⟨rfl, rfl⟩
    cases hs : s.reset with
    | false =>
      rintro _ ⟨rfl, rfl⟩
      exact .idle (Bool.eq_false_iff.1 hs)
    | true =>
      refine Leads.bind (Q := fun _ d' => Pressed d ∧ d' = announced d) ?_ fun _ => ?_
      · rintro _ ⟨rfl, rfl⟩
        exact ⟨hs, rfl⟩
      refine Leads.bind (Q := fun r d' => Pressed d ∧ (attempt d.store).1 = r ∧
        d' = (Run.onShelf Provisioning.erase (announced d)).2) ?_ fun r => ?_
      · rintro _ ⟨hpressed, rfl⟩
        refine ⟨hpressed, ?_, rfl⟩
        rw [← announced_store]
        rfl
      cases r with
      | ok _ =>
        rintro _ ⟨hpressed, hok, rfl⟩
        exact .erased hpressed hok
      | error e =>
        rintro _ ⟨hpressed, hfailed, rfl⟩
        exact .refused hpressed e hfailed
  exact hpoll d rfl

omit [Storage κ] in
theorem pressed_of_reset {d : Device ε κ τ} (h : d.signals.reset = true) : Pressed d := by
  have hsignals : (Run.signals d).1 = (Surroundings.meanwhile d.outside).1.foldl Action.apply d.signals :=
    congrArg (·.2.signals) (Run.actAll_eq (Surroundings.meanwhile d.outside).1
      { d with outside := (Surroundings.meanwhile d.outside).2 })
  rw [Pressed, hsignals]
  exact reset_foldl _ h

/-- Neither the poll nor the look behind it ends the monitor. -/
structure GoesOn (d : Device ε κ τ) : Prop where
  unended : (poll d).1 = false
  unhalted : (Run.halting (poll d).2).1 = false

variable {pollMs : UInt32} {d : Device ε κ τ}

theorem run_succ (pollMs : UInt32) (n : Nat) (d : Device ε κ τ) :
    run pollMs (n + 1) d = if (poll d).1 then (true, (poll d).2)
      else if (Run.halting (poll d).2).1 then (true, (Run.halting (poll d).2).2)
      else run pollMs n (round pollMs d).2 := by
  change (if (poll d).1 = true then (pure true : Run ε κ τ Bool) else do
    if ← Run.halting then return true
    Run.delay pollMs.toNat
    run pollMs n) (poll d).2 = _
  split
  · rfl
  · change (if (Run.halting (poll d).2).1 = true then (pure true : Run ε κ τ Bool) else do
      Run.delay pollMs.toNat
      run pollMs n) (Run.halting (poll d).2).2 = _
    split <;> rfl

theorem GoesOn.run_succ (h : GoesOn d) (n : Nat) : run pollMs (n + 1) d = run pollMs n (round pollMs d).2 := by
  rw [ResetMonitor.run_succ, h.unended, h.unhalted]
  rfl

/-- A monitor that so many polls have not ended stands where rounds that did not end it have led. -/
theorem run_of_unended {n : Nat} (h : (run pollMs n d).1 = false) (m : Nat) :
    run pollMs (n + m) d = run pollMs m (atPoll pollMs n d) := by
  induction n generalizing d with
  | zero => rw [Nat.zero_add]; rfl
  | succ n ih =>
    have hunended : ¬ (poll d).1 = true := fun hended => by
      rw [run_succ, if_pos hended] at h
      cases h
    rw [run_succ, if_neg hunended] at h
    have hunhalted : ¬ (Run.halting (poll d).2).1 = true := fun hhalted => by
      rw [if_pos hhalted] at h
      cases h
    rw [if_neg hunhalted] at h
    rw [Nat.succ_add, run_succ, if_neg hunended, if_neg hunhalted, ih h]
    rfl

theorem run_of_goesOn {n : Nat} (h : ∀ i < n, GoesOn (atPoll pollMs i d)) (m : Nat) :
    run pollMs (n + m) d = run pollMs m (atPoll pollMs n d) := by
  induction n generalizing d with
  | zero => rw [Nat.zero_add]; rfl
  | succ n ih =>
    have hfirst : GoesOn d := h 0 (Nat.succ_pos n)
    rw [Nat.succ_add, hfirst.run_succ, ih fun i hi => h (i + 1) (Nat.succ_lt_succ hi)]
    rfl

/-- What an attempt does: it is announced, and the store is asked once. -/
def attemptEntries (s : κ) : List Entry :=
  [.emit .hardResetRequested, .note (.delete Provisioning.space Provisioning.key (attempt s).1)]

def retries (pollMs : UInt32) (k : Nat) (s : κ) : List Entry :=
  (List.range k).flatMap fun j => attemptEntries (tried j s) ++ [.delay pollMs.toNat]

section calm

variable {P : ε → Prop} (hc : Calm pollMs.toNat P)
include hc

theorem asked_passed (h : P d.outside) : Passed P 0 (attemptEntries d.store) (attempt d.store).2 d
    (Run.onShelf Provisioning.erase (announced d)).2 := by
  have hlook := hc.meanwhile_passed h
  have hannounced := hlook.trans (hc.emit_passed hlook.stays)
  have haccessed := Accessed.delete Provisioning.space Provisioning.key ⟨(announced d).store, []⟩
  have herase : Passed P 0 [.note (.delete Provisioning.space Provisioning.key (attempt (announced d).store).1)]
      (attempt (announced d).store).2 (announced d) (Run.onShelf Provisioning.erase (announced d)).2 :=
    ⟨Run.onShelf_did _ haccessed, hannounced.stays, rfl, haccessed.store_eq, rfl, id⟩
  rw [announced_store] at herase
  exact hannounced.trans herase

/-- What comes behind a poll that does not end the monitor and leaves no restart pending. -/
theorem round_passed {l : List Entry} {store : κ} (hpoll : Passed P 0 l store d (poll d).2)
    (hopen : d.signals.halting = false) (hunended : (poll d).1 = false) : GoesOn d ∧
      Passed P pollMs.toNat (l ++ [.delay pollMs.toNat]) store d (round pollMs d).2 ∧
      ((poll d).2.signals.reset = true → (round pollMs d).2.signals.reset = true) := by
  have hlook := hc.meanwhile_passed hpoll.stays
  have hrest := hlook.onward (hc.delay_passed hlook.stays)
  have hround := hpoll.step hrest
  rw [Nat.zero_add] at hround
  exact ⟨⟨hunended, hlook.unhalted (hpoll.unhalted hopen)⟩, hround, hrest.reset⟩

theorem round_idle (h : P d.outside) (hopen : d.signals.halting = false) (hidle : ¬ Pressed d) :
    GoesOn d ∧ Passed P pollMs.toNat [.delay pollMs.toNat] d.store d (round pollMs d).2 := by
  have hpolled := polled d
  generalize hpoll : poll d = ended at hpolled
  cases hpolled with
  | refused hpressed _ _ => exact absurd hpressed hidle
  | erased hpressed _ => exact absurd hpressed hidle
  | idle _ =>
    have hpassed : Passed P 0 [] d.store d (poll d).2 := by
      rw [hpoll]
      exact hc.meanwhile_passed h
    obtain ⟨hon, hround, -⟩ := round_passed hc hpassed hopen (congrArg Prod.fst hpoll)
    exact ⟨hon, hround⟩

/-- The button is still found pressed behind an attempt that has failed. -/
theorem round_refused (h : P d.outside) (hopen : d.signals.halting = false) (hpressed : Pressed d) {e : StorageError}
    (hfailed : (attempt d.store).1 = .error e) : GoesOn d ∧ (round pollMs d).2.signals.reset = true ∧
      Passed P pollMs.toNat (attemptEntries d.store ++ [.delay pollMs.toNat]) (attempt d.store).2 d (round pollMs d).2 := by
  have hpolled := polled d
  generalize hpoll : poll d = ended at hpolled
  cases hpolled with
  | idle hidle => exact absurd hpressed hidle
  | erased _ hok => cases hfailed.symm.trans hok
  | refused _ _ _ =>
    have hpassed : Passed P 0 (attemptEntries d.store) (attempt d.store).2 d (poll d).2 := by
      rw [hpoll]
      exact (asked_passed hc h).log _ _ _
    obtain ⟨hon, hround, hreset⟩ := round_passed hc hpassed hopen (congrArg Prod.fst hpoll)
    refine ⟨hon, hreset ?_, hround⟩
    rw [hpoll]
    exact (hc.emit_passed (hc.meanwhile_passed h).stays).reset hpressed

/-- The polls that find nothing. -/
theorem idle_rounds (h : P d.outside) (hopen : d.signals.halting = false) {s : Nat}
    (hidle : ∀ i < s, ¬ Pressed (atPoll pollMs i d)) : (∀ i < s, GoesOn (atPoll pollMs i d)) ∧
    Passed P (s * pollMs.toNat) (List.replicate s (.delay pollMs.toNat)) d.store d (atPoll pollMs s d) := by
  induction s with
  | zero =>
    rw [Nat.zero_mul]
    exact ⟨fun i hi => absurd hi (Nat.not_lt_zero i), .refl h⟩
  | succ s ih =>
    obtain ⟨hon, hpassed⟩ := ih fun i hi => hidle i (Nat.lt_succ_of_lt hi)
    have hstill : (atPoll pollMs s d).signals.halting = false := hpassed.unhalted hopen
    obtain ⟨hlast, hround⟩ := round_idle hc hpassed.stays hstill (hidle s (Nat.lt_succ_self s))
    refine ⟨Nat.forall_lt_succ_right.2 ⟨hon, hlast⟩, ?_⟩
    rw [atPoll, Function.iterate_succ_apply', Nat.succ_mul, List.replicate_succ']
    exact hpassed.step hround

/-- The polls that are refused, from one that finds the button pressed. -/
theorem refused_rounds (h : P d.outside) (hopen : d.signals.halting = false) (hpressed : Pressed d) {k : Nat}
    (hfailed : ∀ j < k, ∃ e, (attempt (tried j d.store)).1 = .error e) : (∀ i < k, GoesOn (atPoll pollMs i d)) ∧
    Pressed (atPoll pollMs k d) ∧
    Passed P (k * pollMs.toNat) (retries pollMs k d.store) (tried k d.store) d (atPoll pollMs k d) := by
  induction k with
  | zero =>
    rw [Nat.zero_mul]
    exact ⟨fun i hi => absurd hi (Nat.not_lt_zero i), hpressed, .refl h⟩
  | succ k ih =>
    obtain ⟨hon, hfound, hpassed⟩ := ih fun i hi => hfailed i (Nat.lt_succ_of_lt hi)
    have hstill : (atPoll pollMs k d).signals.halting = false := hpassed.unhalted hopen
    -- The store answers an attempt as the attempts before have left it, whatever else has happened.
    obtain ⟨e, he⟩ := hfailed k (Nat.lt_succ_self k)
    rw [← hpassed.store_eq] at he
    obtain ⟨hlast, hreset, hround⟩ := round_refused hc hpassed.stays hstill hfound he
    rw [hpassed.store_eq] at hround
    have hnext : atPoll pollMs (k + 1) d = (round pollMs (atPoll pollMs k d)).2 := Function.iterate_succ_apply' _ _ _
    refine ⟨Nat.forall_lt_succ_right.2 ⟨hon, hlast⟩, ?_, ?_⟩
    · rw [hnext]
      exact pressed_of_reset hreset
    · have htried : tried (k + 1) d.store = (attempt (tried k d.store)).2 := Function.iterate_succ_apply' _ _ _
      have hretries : retries pollMs (k + 1) d.store =
          retries pollMs k d.store ++ (attemptEntries (tried k d.store) ++ [.delay pollMs.toNat]) := by
        rw [retries, List.range_succ, List.flatMap_append, List.flatMap_singleton]
        rfl
      rw [hnext, Nat.succ_mul, htried, hretries]
      exact hpassed.trans hround

/-- The polls that find nothing, and behind them those that are refused. -/
theorem first_rounds (h : P d.outside) (hopen : d.signals.halting = false) {s : Nat}
    (hidle : ∀ i < s, ¬ Pressed (atPoll pollMs i d)) (hpressed : Pressed (atPoll pollMs s d)) {k : Nat}
    (hfailed : ∀ j < k, ∃ e, (attempt (tried j d.store)).1 = .error e) : (∀ i < s + k, GoesOn (atPoll pollMs i d)) ∧
    Pressed (atPoll pollMs (s + k) d) ∧
    Passed P ((s + k) * pollMs.toNat) (List.replicate s (.delay pollMs.toNat) ++ retries pollMs k d.store)
      (tried k d.store) d (atPoll pollMs (s + k) d) := by
  have hsum (j : Nat) : atPoll pollMs (s + j) d = atPoll pollMs j (atPoll pollMs s d) := by
    rw [Nat.add_comm]
    exact Function.iterate_add_apply _ _ _ _
  obtain ⟨hwaits, hwaited⟩ := idle_rounds hc h hopen hidle
  rw [← hwaited.store_eq] at hfailed
  obtain ⟨hrefused, hfound, hpassed⟩ := refused_rounds hc hwaited.stays (hwaited.unhalted hopen) hpressed hfailed
  rw [hwaited.store_eq] at hpassed
  refine ⟨fun i hi => ?_, hsum k ▸ hfound, ?_⟩
  · obtain hlt | hle := Nat.lt_or_ge i s
    · exact hwaits i hlt
    · obtain ⟨j, rfl⟩ := Nat.exists_eq_add_of_le hle
      exact hsum j ▸ hrefused j (Nat.lt_of_add_lt_add_left hi)
  · rw [hsum, Nat.add_mul]
    exact hwaited.trans hpassed

/-- The first attempt that succeeds ends the monitor, and asks for the restart. -/
theorem poll_erases (h : P d.outside) (hpressed : Pressed d) (hok : (attempt d.store).1 = .ok ()) : (poll d).1 = true ∧
    ∃ erased, Passed P 0 (attemptEntries d.store) (attempt d.store).2 d erased ∧
      (poll d).2 = (Run.act (.restart .hardReset) erased).2 := by
  have hpolled := polled d
  generalize hpoll : poll d = ended at hpolled
  cases hpolled with
  | idle hidle => exact absurd hpressed hidle
  | refused _ e hfailed => cases hok.symm.trans hfailed
  | erased _ _ => exact ⟨rfl, _, (asked_passed hc h).log _ _ _, rfl⟩

end calm

/-- A monitor that finds the button pressed at this poll, and whose first attempts to erase the mark fail, so many of them:
it polls in time, leaves the store alone until then, makes one attempt with each further poll, and returns with the first
that succeeds. -/
structure Erases [Honest κ] (pollMs : UInt32) (s k : Nat) (d : Device ε κ τ) : Prop where
  goesOn (n : Nat) (h : n ≤ s + k) : run pollMs n d = (false, atPoll pollMs n d)
  clock (n : Nat) (h : n ≤ s + k) : Surroundings.uptime (atPoll pollMs n d).outside =
    Surroundings.uptime d.outside + n * pollMs.toNat
  untouched (n : Nat) (h : n ≤ s) : (atPoll pollMs n d).store = d.store
  returns (n : Nat) (h : s + k < n) : (run pollMs n d).1 = true
  effects (n : Nat) (h : s + k < n) : effects ((run pollMs n d).2.journal.since d.journal) =
    List.replicate s (.delay pollMs.toNat) ++ retries pollMs k d.store ++ attemptEntries (tried k d.store)
  inTime (n : Nat) (h : s + k < n) : Surroundings.uptime (run pollMs n d).2.outside =
    Surroundings.uptime d.outside + (s + k) * pollMs.toNat
  absent (n : Nat) (h : s + k < n) :
    Honest.contents (run pollMs n d).2.store Provisioning.space Provisioning.key = none
  requested (n : Nat) (h : s + k < n) : (run pollMs n d).2.signals.restart = ⟨true, some .hardReset⟩

theorem erases [Honest κ] {P : ε → Prop} (hc : Calm pollMs.toNat P) (h : P d.outside) (hopen : d.signals.halting = false)
    {s k : Nat} (hidle : ∀ i < s, ¬ Pressed (atPoll pollMs i d)) (hpressed : Pressed (atPoll pollMs s d))
    (hfailed : ∀ j < k, ∃ e, (attempt (tried j d.store)).1 = .error e) (hok : (attempt (tried k d.store)).1 = .ok ()) :
    Erases pollMs s k d := by
  have waited (n : Nat) (hn : n ≤ s) := idle_rounds hc h hopen fun i hi => hidle i (Nat.lt_of_lt_of_le hi hn)
  have refused (j : Nat) (hj : j ≤ k) := first_rounds hc h hopen hidle hpressed fun i hi =>
    hfailed i (Nat.lt_of_lt_of_le hi hj)
  obtain ⟨hgoes, hfound, hpassed⟩ := refused k (Nat.le_refl k)
  rw [← hpassed.store_eq] at hok
  obtain ⟨hended, erased, herased, hpoll⟩ := poll_erases hc hpassed.stays hfound hok
  have hwhole := hpassed.trans herased
  -- However many polls are granted, the monitor gets to the one that erases the mark, and no further.
  have hrun (n : Nat) (hn : s + k < n) : run pollMs n d = (true, (Run.act (.restart .hardReset) erased).2) := by
    obtain ⟨m, rfl⟩ := Nat.exists_eq_add_of_lt hn
    rw [Nat.add_assoc, run_of_goesOn hgoes, run_succ, if_pos hended, hpoll]
  rw [hpassed.store_eq] at hok hwhole
  refine ⟨fun n hn => ?_, fun n hn => ?_, fun n hn => (waited n hn).2.store_eq, fun n hn => ?_, fun n hn => ?_,
    fun n hn => ?_, fun n hn => ?_, fun n hn => ?_⟩
  · exact run_of_goesOn (fun i hi => hgoes i (Nat.lt_of_lt_of_le hi hn)) 0
  · obtain hle | hge := Nat.le_total n s
    · exact (waited n hle).2.clock
    · obtain ⟨j, rfl⟩ := Nat.exists_eq_add_of_le hge
      exact (refused j (Nat.le_of_add_le_add_left hn)).2.2.clock
  · rw [hrun n hn]
  · rw [hrun n hn]
    exact (hwhole.did.before (Run.act_did erased _)).since
  · rw [hrun n hn]
    exact hwhole.clock
  · rw [hrun n hn]
    change Honest.contents erased.store _ _ = none
    rw [hwhole.store_eq, attempt, Honest.delete_ok _ _ _ hok, Contents.set_self]
  · rw [hrun n hn]
    change erased.signals.restart.request .hardReset = _
    rw [hwhole.restart_eq, d.signals.restart.request_of_open _ hopen]

/-- A monitor that finds, at this poll, that somebody else has asked for a restart: if it has not erased the mark it returns
at once, and if it has it leaves the other's reason alone. -/
structure GivesWay [Honest κ] (pollMs : UInt32) (n : Nat) (d : Device ε κ τ) : Prop where
  returns (hunended : (poll (atPoll pollMs n d)).1 = false)
    (hpending : (poll (atPoll pollMs n d)).2.signals.halting = true) (m : Nat) (hm : n < m) :
    let polled := (poll (atPoll pollMs n d)).2
    let ended := run pollMs m d
    ended.1 = true ∧ effects (ended.2.journal.since polled.journal) = [] ∧ ended.2.store = polled.store ∧
      ended.2.signals.restart = polled.signals.restart
  keeps (hpressed : Pressed (atPoll pollMs n d)) (hok : (attempt (atPoll pollMs n d).store).1 = .ok ())
    (hpending : (announced (atPoll pollMs n d)).signals.halting = true) (m : Nat) (hm : n < m) :
    let ended := run pollMs m d
    ended.1 = true ∧ Honest.contents ended.2.store Provisioning.space Provisioning.key = none ∧
      ended.2.signals.restart = (announced (atPoll pollMs n d)).signals.restart

theorem givesWay [Honest κ] {n : Nat} (h : (run pollMs n d).1 = false) : GivesWay pollMs n d where
  returns hunended hpending m hm := by
    obtain ⟨m, rfl⟩ := Nat.exists_eq_add_of_lt hm
    have hhalted : (Run.halting (poll (atPoll pollMs n d)).2).1 = true := Run.halting_pending.kept.halting hpending
    rw [Nat.add_assoc, run_of_unended h, run_succ, hunended, if_neg Bool.false_ne_true, if_pos hhalted]
    exact ⟨rfl, (Run.halting_did _).since, congrArg Vault.store (Run.halting_bystands _), Run.halting_pending.kept _ hpending⟩
  keeps hpressed hok hpending m hm := by
    obtain ⟨m, rfl⟩ := Nat.exists_eq_add_of_lt hm
    rw [Nat.add_assoc, run_of_unended h, run_succ]
    have hpolled := polled (atPoll pollMs n d)
    generalize poll (atPoll pollMs n d) = ended at hpolled
    cases hpolled with
    | idle hidle => exact absurd hpressed hidle
    | refused _ e hfailed => cases hok.symm.trans hfailed
    | erased _ _ =>
      refine ⟨rfl, ?_, (announced (atPoll pollMs n d)).signals.restart.request_of_halting _ hpending⟩
      change Honest.contents (attempt (announced (atPoll pollMs n d)).store).2 _ _ = none
      rw [announced_store, attempt, Honest.delete_ok _ _ _ hok, Contents.set_self]

/-- Where nobody else asks for a restart the monitor erases the mark with the first attempt that does not fail, however many
have failed before, and asks for a hard reset. Where somebody does it returns, and the other's reason stays. -/
theorem reset_is_carried_out [Honest κ] (pollMs : UInt32) (d : Device ε κ τ) :
    (∀ (P : ε → Prop) (s k : Nat), Calm pollMs.toNat P → P d.outside → d.signals.halting = false →
      (∀ i < s, ¬ Pressed (atPoll pollMs i d)) → Pressed (atPoll pollMs s d) →
      (∀ j < k, ∃ e, (attempt (tried j d.store)).1 = .error e) → (attempt (tried k d.store)).1 = .ok () →
      Erases pollMs s k d) ∧
    ∀ n, (run pollMs n d).1 = false → GivesWay pollMs n d :=
  ⟨fun _ _ _ hc h hopen hidle hpressed hfailed hok => erases hc h hopen hidle hpressed hfailed hok, fun _ h => givesWay h⟩

section plan

open Bench (Plan Timed due)

/-- As far as it is planned nobody asks for a restart, and nobody sets the clock. -/
def Unasked (p : Plan) : Prop :=
  p.eventsToHalt = none ∧ ∀ t ∈ p.timed, ∃ a, t.planned = .act a ∧ ∀ r, a ≠ .restart r

theorem due_unasked (now : Nat) (timed : List Timed) (h : ∀ t ∈ timed, ∃ a, t.planned = .act a ∧ ∀ r, a ≠ .restart r) :
    (due now timed).1 = now ∧ (∀ r, .restart r ∉ (due now timed).2.1) ∧ ∀ t ∈ (due now timed).2.2, t ∈ timed := by
  induction timed with
  | nil => exact ⟨rfl, fun _ => List.not_mem_nil, fun _ ht => ht⟩
  | cons t rest ih =>
    obtain ⟨⟨a, ha, hr⟩, hrest⟩ := List.forall_mem_cons.1 h
    obtain ⟨hnow, hactions, hlater⟩ := ih hrest
    rw [due]
    split
    · rw [ha]
      refine ⟨hnow, fun r hm => ?_, fun u hu => List.mem_cons_of_mem _ (hlater u hu)⟩
      obtain hm | hm := List.mem_cons.1 hm
      · exact hr r hm.symm
      · exact hactions r hm
    · refine ⟨hnow, hactions, fun u hu => ?_⟩
      obtain rfl | hu := List.mem_cons.1 hu
      · exact List.mem_cons_self
      · exact List.mem_cons_of_mem _ (hlater u hu)

theorem calm_plan (pollMs : Nat) : Calm pollMs Unasked where
  elapse p h := by
    obtain ⟨hnow, hactions, hlater⟩ := due_unasked (p.now + pollMs) p.timed h.2
    exact ⟨⟨h.1, fun t ht => h.2 t (hlater t ht)⟩, hactions, hnow⟩
  meanwhile p h := ⟨h, fun _ => List.not_mem_nil, rfl⟩
  told p h := by
    have htold : Surroundings.told .hardResetRequested p = ([], p) := by
      change p.told = _
      rw [Plan.told, h.1]
    rw [htold]
    exact ⟨h, fun _ => List.not_mem_nil, rfl⟩

/-- The button is pressed between the third poll and the fourth, and the store refuses twice. -/
def pressedLater : Device Plan UnreliableStore Bench.AnyToken where
  outside := { timed := [⟨2500, .act .reset⟩] }
  store := ⟨⟨[((Provisioning.space, Provisioning.key), [1])]⟩, [some .ioError, some .full]⟩
  token := .scripted {}

def pressedBehindAPanic (outages : List (Option Outage)) : Device Plan UnreliableStore Bench.AnyToken where
  outside := {}
  store := ⟨⟨[((Provisioning.space, Provisioning.key), [1])]⟩, outages⟩
  token := .scripted {}
  signals := ({} : Signals).pressReset.request .taskPanic

instance (d : Device ε κ τ) : Decidable (Pressed d) := inferInstanceAs (Decidable (_ = true))

theorem reset_is_carried_out_behind_two_failures :
    Erases 1000 3 2 pressedLater ∧ (run 1000 5 pressedLater).1 = false ∧ (run 1000 6 pressedLater).1 = true ∧
      (run 1000 1 (pressedBehindAPanic [some .full])).2.signals.restart = ⟨true, some .taskPanic⟩ ∧
      (run 1000 1 (pressedBehindAPanic [])).2.signals.restart = ⟨true, some .taskPanic⟩ := by
  have hidle : ∀ i < 3, ¬ Pressed (atPoll 1000 i pressedLater) := by decide +kernel
  have hpressed : Pressed (atPoll 1000 3 pressedLater) := by decide +kernel
  have hfailed : ∀ j < 2, ∃ e, (attempt (tried j pressedLater.store)).1 = .error e
    | 0, _ => ⟨.ioError, rfl⟩
    | 1, _ => ⟨.full, rfl⟩
  have hunasked : Unasked pressedLater.outside := ⟨rfl, List.forall_mem_singleton.2 ⟨.reset, rfl, nofun⟩⟩
  have herases := (reset_is_carried_out 1000 pressedLater).1 Unasked 3 2 (calm_plan _) hunasked rfl hidle hpressed hfailed rfl
  have hrefused := (reset_is_carried_out 1000 (pressedBehindAPanic [some .full])).2 0 rfl
  have herased := (reset_is_carried_out 1000 (pressedBehindAPanic [])).2 0 rfl
  obtain ⟨-, -, -, hreturned⟩ := hrefused.returns rfl rfl 1 Nat.one_pos
  obtain ⟨-, -, hkept⟩ := herased.keeps rfl rfl rfl 1 Nat.one_pos
  exact ⟨herases, congrArg Prod.fst (herases.goesOn 5 (Nat.le_refl 5)), herases.returns 6 (Nat.lt_succ_self 5),
    hreturned, hkept⟩

end plan

end ResetMonitor

end KeyFob
