import Mathlib.Data.List.Induction
import KeyFob.Proofs.Gate.Timing
import KeyFob.Proofs.Journal.Reading
import KeyFob.Proofs.Journal.Split
import KeyFob.Proofs.Provisioning.Ends
import KeyFob.Proofs.Session.Rounds

/-!
The LEDs as a boot and a session drive them. The activity LED is lit around each call of the token and dark whenever nothing
is going on; the gate alone writes to the link LED, and it leaves it lit. `lamps` reads a journal for both, and every boot
and every cycle takes it from rest to rest.
-/

namespace KeyFob

def Entry.callsToken : Entry → Bool
  | generate | restore | process _ => true
  | _ => false

/-- The LEDs as they were last written, and whether the gate is judging a command. -/
structure Lamps where
  activity : Option Bool := none
  link : Option Bool := none
  judging : Bool := false
deriving DecidableEq

namespace Lamps

def write (m : Lamps) : Led → Bool → Lamps
  | .activity, on => { m with activity := some on }
  | .link, on => { m with link := some on }

def next (m : Lamps) : Entry → Lamps
  | .led l on => m.write l on
  | .judge _ => { m with judging := true }
  | .judged _ => { m with judging := false }
  | _ => m

/-- What must be true of the LEDs where an entry stands. -/
def Fits (m : Lamps) : Entry → Prop
  | .generate | .restore | .process _ => m.activity = some true
  | .led .link _ => m.judging = true
  | .judge _ => m.judging = false
  | .judged out => m.judging = true ∧ m.link ≠ some false ∧ (out ≠ .bypassed → m.link = some true)
  | _ => True

/-- Between the calls, and while nobody waits for the button. -/
structure AtRest (m : Lamps) : Prop where
  activity : m.activity = some false
  link : m.link ≠ some false
  judging : m.judging = false

end Lamps

def lamps : Reading Lamps := ⟨Lamps.next, Lamps.Fits⟩

def Entry.isUnlit : Entry → Bool
  | led _ _ | judge _ | judged _ | generate | restore | process _ => false
  | _ => true

theorem lamps_ignores : lamps.Ignores fun x => !x.isUnlit := by
  intro m x hx
  cases x <;> first | exact ⟨rfl, trivial⟩ | cases hx

theorem lamps_ignores_others : lamps.Ignores Entry.isOwn :=
  lamps_ignores.mono fun x hx => by cases x <;> first | rfl | cases hx

theorem lamps_tells_unlit {m : Lamps} {t : List Entry} (h : ∀ x ∈ t, x.isUnlit = true) : lamps.Tells m t m :=
  lamps_ignores.tells fun x hx => by simp [h x hx]

theorem lamps_tells_own {m m' : Lamps} {t : List Entry} : lamps.Tells m (own t) m' ↔ lamps.Tells m t m' :=
  lamps_ignores_others.tells_filter

/-- The entries take the LEDs from rest to rest. -/
def KeepsRest (t : List Entry) : Prop := ∀ m : Lamps, m.AtRest → ∃ m', lamps.Tells m t m' ∧ m'.AtRest

theorem keepsRest_nil : KeepsRest [] := fun m hm => ⟨m, rfl, hm⟩

theorem keepsRest_of_unlit {t : List Entry} (h : ∀ x ∈ t, x.isUnlit = true) : KeepsRest t :=
  fun m hm => ⟨m, lamps_tells_unlit h, hm⟩

theorem KeepsRest.append {t u : List Entry} (h : KeepsRest t) (h' : KeepsRest u) : KeepsRest (t ++ u) := by
  intro m hm
  obtain ⟨m', ht, hm'⟩ := h m hm
  obtain ⟨m'', hu, hm''⟩ := h' m' hm'
  exact ⟨m'', ht.append hu, hm''⟩

theorem lastWrite_concat (l : Led) (t : List Entry) (x : Entry) :
    lastWrite l (t ++ [x]) = match x with
      | .led l' on => if l' = l then some on else lastWrite l t
      | _ => lastWrite l t := by
  rw [lastWrite, ledWrites, List.filterMap_append, List.reverse_append]
  cases x with
  | led l' on =>
    by_cases h : l' = l <;> simp [h, lastWrite, ledWrites]
  | _ => rfl

/-- What a reading from the start knows of the LEDs is how they were last written. -/
theorem lamps_after (t : List Entry) :
    (lamps.after {} t).activity = lastWrite .activity t ∧ (lamps.after {} t).link = lastWrite .link t := by
  induction t using List.reverseRecOn with
  | nil => exact ⟨rfl, rfl⟩
  | append_singleton t x ih =>
    rw [Reading.after_append, lastWrite_concat, lastWrite_concat]
    cases x with
    | led l on =>
      cases l with
      | activity => exact ⟨rfl, ih.2⟩
      | link => exact ⟨ih.1, rfl⟩
    | _ => exact ih

/-- While the gate judges a command it has begun to and has not finished. -/
theorem judge_of_judging {t : List Entry} (h : (lamps.after {} t).judging = true) :
    ∃ before c m, t = before ++ .judge c :: m ∧ ∀ out, .judged out ∉ m := by
  induction t using List.reverseRecOn with
  | nil => cases h
  | append_singleton t x ih =>
    rw [Reading.after_append] at h
    have later (ht : (lamps.after {} t).judging = true) (hx : ∀ out, x ≠ .judged out) :
        ∃ before c m, t ++ [x] = before ++ .judge c :: m ∧ ∀ out, .judged out ∉ m := by
      obtain ⟨before, c, m, rfl, hm⟩ := ih ht
      refine ⟨before, c, m ++ [x], by simp, fun out hout => ?_⟩
      rcases List.mem_append.1 hout with hout | hout
      · exact hm out hout
      · exact hx out (List.mem_singleton.1 hout).symm
    cases x with
    | judge c => exact ⟨t, c, [], rfl, nofun⟩
    | judged out => cases h
    | led l on => cases l <;> exact later h nofun
    | _ => exact later h nofun

/-- What the gate judges it finishes to judge before it judges anything else. -/
theorem judged_of_judging {m m' : Lamps} {t : List Entry} (h : lamps.Tells m t m') (hm : m.judging = true)
    (hm' : m'.judging = false) : ∃ v out after, t = v ++ .judged out :: after ∧ ∀ c, .judge c ∉ v := by
  induction t generalizing m with
  | nil =>
    obtain rfl := h
    cases hm.symm.trans hm'
  | cons x t ih =>
    obtain ⟨hfits, ht⟩ := h
    have later (hx : ∀ c, x ≠ .judge c) (hnext : (lamps.next m x).judging = true) :
        ∃ v out after, x :: t = v ++ .judged out :: after ∧ ∀ c, .judge c ∉ v := by
      obtain ⟨v, out, after, rfl, hv⟩ := ih ht hnext
      refine ⟨x :: v, out, after, rfl, fun c hc => ?_⟩
      rcases List.mem_cons.1 hc with hc | hc
      · exact hx c hc.symm
      · exact hv c hc
    cases x with
    | judge c => cases hm.symm.trans hfits
    | judged out => exact ⟨[], out, t, rfl, nofun⟩
    | led l on => cases l <;> exact later nofun hm
    | _ => exact later nofun hm

structure KeepsLamps (t : List Entry) : Prop where
  called (a b : List Entry) (x : Entry) (h : t = a ++ x :: b) (hx : x.callsToken = true) :
    lastWrite .activity a = some true
  dark : lastWrite .activity t = some false
  /-- The gate has begun to judge a command and has not finished, and when it has, the LED is lit. -/
  prompted (a b : List Entry) (on : Bool) (h : t = a ++ .led .link on :: b) :
    ∃ before c m v out after, a = before ++ .judge c :: m ∧ (∀ out, .judged out ∉ m) ∧ b = v ++ .judged out :: after ∧
      (∀ c, .judge c ∉ v) ∧ lastWrite .link (a ++ .led .link on :: v) = some true
  judged (a b : List Entry) (out : Gate.Outcome) (h : t = a ++ .judged out :: b) :
    lastWrite .link a ≠ some false ∧ (out ≠ .bypassed → lastWrite .link a = some true)

theorem lastWrite_of_mem {l : Led} {on : Bool} {t : List Entry} (h : .led l on ∈ t) : lastWrite l t ≠ none := by
  have hwrite : (l, on) ∈ (ledWrites t).reverse := List.mem_reverse.2 (List.mem_filterMap.2 ⟨_, h, rfl⟩)
  simp only [lastWrite, ne_eq, Option.map_eq_none_iff, List.find?_eq_none, not_forall]
  exact ⟨_, hwrite, by simp⟩

theorem keepsLamps_of_tells {t : List Entry} {m : Lamps} (h : lamps.Tells {} t m) (hm : m.AtRest) : KeepsLamps t := by
  have judged (a b : List Entry) (out : Gate.Outcome) (ht : t = a ++ .judged out :: b) :
      lastWrite .link a ≠ some false ∧ (out ≠ .bypassed → lastWrite .link a = some true) := by
    rw [ht] at h
    obtain ⟨⟨-, hlit⟩, -⟩ := h.fits
    rwa [(lamps_after a).2] at hlit
  refine ⟨fun a b x ht hx => ?_, ?_, fun a b on ht => ?_, judged⟩
  · rw [ht] at h
    rw [← (lamps_after a).1]
    cases x with
    | generate => exact h.fits.1
    | restore => exact h.fits.1
    | process c => exact h.fits.1
    | _ => cases hx
  · rw [← (lamps_after t).1, ← h.eq_after]
    exact hm.activity
  · have hread := h
    rw [ht] at hread
    obtain ⟨hjudging, hlater⟩ := hread.fits
    obtain ⟨before, c, u, ha, hu⟩ := judge_of_judging hjudging
    obtain ⟨v, out, after, rfl, hv⟩ := judged_of_judging hlater hjudging hm.judging
    refine ⟨before, c, u, v, out, after, ha, hu, rfl, hv, ?_⟩
    have hdone := (judged (a ++ .led .link on :: v) after out (by simp [ht])).1
    have hmem : .led .link on ∈ a ++ .led .link on :: v := List.mem_append_right a List.mem_cons_self
    have hwritten := lastWrite_of_mem hmem
    rcases hlast : lastWrite .link (a ++ .led .link on :: v) with _ | _ | _
    · exact absurd hlast hwritten
    · exact absurd hlast hdone
    · rfl

namespace Gate

open Config (ConfirmPolicy)

/-- The pulses of a wait leave the activity LED dark, as it was. -/
theorem prompts_tell (halfMs k : Nat) {m : Lamps} (hjudging : m.judging = true) (hdark : m.activity = some false) :
    ∃ m', lamps.Tells m (prompts halfMs k) m' ∧ m'.judging = true ∧ m'.activity = some false := by
  induction k generalizing m with
  | zero => exact ⟨m, rfl, hjudging, hdark⟩
  | succ k ih =>
    have hpulse : lamps.Tells m (prompt halfMs) { m with activity := some false, link := some false } :=
      ⟨trivial, trivial, hjudging, trivial, trivial, hjudging, trivial, rfl⟩
    obtain ⟨m', hlater, hm'⟩ := ih (m := { m with activity := some false, link := some false }) hjudging rfl
    refine ⟨m', ?_, hm'⟩
    rw [prompts, List.replicate_succ, List.flatten_cons]
    exact hpulse.append hlater

/-- An evaluation writes to the link LED only while it judges, and then leaves it lit. -/
theorem Judges.keepsRest {p : ConfirmPolicy} {c : Card.Command} {out : Outcome} {g : List Entry}
    (h : Judges p c out g) : KeepsRest (.judge c :: (g ++ [.judged out])) := by
  intro m hm
  have waited (k : Nat) (b : Bool) (out : Outcome) : ∃ m' : Lamps, lamps.Tells m
      (.judge c :: ((.clearConfirm :: (prompts p.halfPeriodMs.toNat k ++ [.takeConfirm b, .led .link true])) ++
        [.judged out])) m' ∧ m'.AtRest := by
    obtain ⟨m', hpulses, hjudging, hdark⟩ :=
      prompts_tell p.halfPeriodMs.toNat k (m := { m with judging := true }) rfl hm.activity
    have hend : lamps.Tells m' [.takeConfirm b, .led .link true, .judged out]
        { m' with link := some true, judging := false } :=
      ⟨trivial, hjudging, ⟨hjudging, nofun, fun _ => rfl⟩, rfl⟩
    rw [List.cons_append, List.append_assoc]
    exact ⟨_, ⟨hm.judging, trivial, hpulses.append hend⟩, hdark, nofun, rfl⟩
  cases h with
  | bypassed =>
    refine ⟨{ m with judging := false }, ⟨hm.judging, ⟨rfl, hm.link, fun hne => absurd rfl hne⟩, rfl⟩, ?_⟩
    exact ⟨hm.activity, hm.link, rfl⟩
  | confirmed _ k ms => exact waited k true _
  | lockedOut => exact waited _ false _

end Gate

/-- However a boot ends, it ends with the LEDs at rest. -/
theorem Provisioning.Ends.atRest {κ τ : Type} [Storage κ] [Token κ τ] {reinit : Bool} {s s' : κ} {t : τ}
    {r : Except ProvisionError Unit} {trail : List Stage} (h : Ends reinit s t r trail s') :
    lamps.Tells {} (Lifecycle.stepsThrough trail) { activity := some false } := by
  have unread : lamps.Tells {} (Lifecycle.stepsThrough [.start, .failed]) { activity := some false } :=
    ⟨trivial, trivial, trivial, rfl⟩
  have made (last : Stage) :
      lamps.Tells {} (Lifecycle.stepsThrough [.start, .initializing, last]) { activity := some false } :=
    ⟨trivial, trivial, rfl, trivial, trivial, rfl⟩
  have reloaded (last : Stage) :
      lamps.Tells {} (Lifecycle.stepsThrough [.start, .restoring, last]) { activity := some false } :=
    ⟨trivial, trivial, rfl, trivial, trivial, rfl⟩
  cases h with
  | unread => exact unread
  | ungenerated | unmarked | initialized => exact made _
  | restored | unrestored | erased => exact reloaded _

namespace Session

open Card (Command)
open Config (Endpoint)

variable {s s' : Session} {o : List Entry} {c : Command}

/-- The activity LED is lit while the token answers. -/
theorem processing_keepsRest (c : Command) (r : Card.Response) : KeepsRest (processing c r) := fun m hm =>
  ⟨{ m with activity := some false }, ⟨trivial, rfl, trivial, trivial, rfl⟩, rfl, hm.link, hm.judging⟩

theorem Dials.unlit {index : Nat} {peer : Endpoint} {r : Dialed} (h : Dials index peer s r s' o) :
    ∀ x ∈ o, x.isUnlit = true := by
  have failed (s : Session) (link : Option Nat) : ∀ x ∈ s.redial peer link, x.isUnlit = true := by
    simp [redial, Entry.isUnlit]
  induction h with
  | halted => simp
  | connected => simp [Entry.isUnlit]
  | refused => simp [Entry.isUnlit]
  | linkLost s => exact failed s _
  | again _ ih => exact List.forall_mem_append.2 ⟨failed _ _, ih⟩

theorem dropped_unlit (s : Session) (epoch : UInt32) : ∀ x ∈ s.dropped epoch, x.isUnlit = true := by
  unfold dropped
  split <;> simp [Entry.isUnlit]

theorem pending_unlit (c : Command) : ∀ x ∈ pending c, x.isUnlit = true := by
  unfold pending
  split <;> simp [Entry.isUnlit]

theorem Answers.keepsRest {r : Card.Response} {locked : Bool} (h : Answers s c r locked s' o) : KeepsRest o := by
  cases h with
  | lockedOut hg => simpa using hg.keepsRest.append (keepsRest_of_unlit (t := [.emit _]) (by simp [Entry.isUnlit]))
  | @confirmed g waitedMs hg r =>
    have htold : KeepsRest [.emit (.confirmed c.ins waitedMs)] := keepsRest_of_unlit (by simp [Entry.isUnlit])
    simpa using (hg.keepsRest.append htold).append (processing_keepsRest c r)
  | bypassed hg r => simpa using hg.keepsRest.append (processing_keepsRest c r)

theorem Serves.keepsRest {r : Outcome} (h : Serves s c r s' o) : KeepsRest o := by
  have before : KeepsRest (pending c) := keepsRest_of_unlit (pending_unlit c)
  cases h with
  | writeFailed h => exact (before.append h.keepsRest).append (keepsRest_of_unlit (by simp [Entry.isUnlit]))
  | lockedOut h => exact (before.append h.keepsRest).append (keepsRest_of_unlit (by simp [Entry.isUnlit]))
  | served h elapsedMs => exact (before.append h.keepsRest).append (keepsRest_of_unlit (by simp [Entry.isUnlit]))

theorem Connects.keepsRest {r : Outcome} (h : Connects s r s' o) : KeepsRest o := by
  cases h with
  | readFailed e => exact keepsRest_of_unlit (by simp [Entry.isUnlit])
  | empty raw epoch =>
    have hread : KeepsRest [.receive (.ok raw), .readEpoch epoch] := keepsRest_of_unlit (by simp [Entry.isUnlit])
    have hend : KeepsRest [.invalidate, .close, .emit .exchangeEmpty] := keepsRest_of_unlit (by simp [Entry.isUnlit])
    simpa using (hread.append (keepsRest_of_unlit (dropped_unlit s epoch))).append hend
  | command raw epoch _ h =>
    have hread : KeepsRest [.receive (.ok raw), .readEpoch epoch] := keepsRest_of_unlit (by simp [Entry.isUnlit])
    simpa using (hread.append (keepsRest_of_unlit (dropped_unlit s epoch))).append h.keepsRest

/-- However a cycle ends, it begins and ends with the LEDs at rest. -/
theorem Cycles.keepsRest {e : CycleEnd} (h : Cycles s e s' o) : KeepsRest o := by
  have look (link : Option Nat) : KeepsRest [.readLink link] := keepsRest_of_unlit (by simp [Entry.isUnlit])
  cases h with
  | halted => exact keepsRest_nil
  | waiting => exact look none
  | unknown index => exact look (some index)
  | ended index _ h => exact (look (some index)).append (keepsRest_of_unlit h.unlit)
  | connected index _ h h' =>
    exact (look (some index)).append ((keepsRest_of_unlit h.unlit).append h'.keepsRest)

theorem Consecutive.keepsRest {σ : Signals} {ts : List (List Entry)} (h : Consecutive s σ ts) : KeepsRest ts.flatten := by
  induction h with
  | nil => exact keepsRest_nil
  | cons _ hc _ ih =>
    refine KeepsRest.append (fun m hm => ?_) ih
    obtain ⟨m', ht, hm'⟩ := hc.keepsRest m hm
    exact ⟨m', lamps_tells_own.1 ht, hm'⟩

/-- An activity that does nothing to the LEDs. -/
def Unlit {ε κ τ α : Type} (m : Run ε κ τ α) : Prop := ∀ d, ledWrites ((m d).2.journal.since d.journal) = []

theorem unlit_of_leaves {ε κ τ α : Type} {m : Run ε κ τ α} {P : α → List Entry → Prop} (h : Leaves m P)
    (hP : ∀ a o, P a o → ledWrites o = []) : Unlit m := by
  intro d
  obtain ⟨t, hj, -, ht⟩ := h d
  rw [Journal.since_eq hj, ← ledWrites_own]
  exact hP _ _ ht

variable {ε κ τ : Type} [Surroundings ε] [Storage κ] [Token κ τ]

/-- Whatever comes of a boot and of the cycles behind it, the activity LED is lit whenever the token makes, reloads or uses
its secrets, none of which touches it, and dark when the boot or the latest cycle has ended. The link LED is written only
while the gate judges a command, and then it is left lit. -/
theorem activity_led_is_lit_for_every_call_and_dark_behind_every_cycle (reinit : Bool) (d : Device ε κ τ) (s : Session)
    (rounds : List Round) :
    let booted := (Lifecycle.run { reinit } d).2
    KeepsLamps (booted.journal.since d.journal ++ (s.trails booted rounds).flatten) ∧
      Unlit (Run.generate : Run ε κ τ _) ∧ Unlit (Run.restore : Run ε κ τ _) ∧
      ∀ c buffer, Unlit (Run.process c buffer : Run ε κ τ _) := by
  intro booted
  obtain ⟨t, hj, -, hown⟩ := Lifecycle.run_leaves (ε := ε) (κ := κ) (τ := τ) reinit d
  obtain ⟨hends, -⟩ := Lifecycle.run_ends (ε := ε) reinit d.store d.token d ⟨rfl, rfl⟩
  have hboot : lamps.Tells {} t { activity := some false } := by
    rw [← lamps_tells_own, hown]
    exact hends.atRest
  obtain ⟨m, hcycles, hm⟩ :=
    (consecutive_trails s booted rounds).keepsRest { activity := some false } ⟨rfl, nofun, rfl⟩
  rw [Journal.since_eq hj]
  refine ⟨keepsLamps_of_tells (hboot.append hcycles) hm, ?_, ?_, fun c buffer => ?_⟩
  · exact unlit_of_leaves Run.generate_leaves fun _ o ho => by rw [ho]; rfl
  · exact unlit_of_leaves Run.restore_leaves fun _ o ho => by rw [ho]; rfl
  · exact unlit_of_leaves (Run.process_leaves c buffer) fun _ o ho => by rw [ho]; rfl

end Session

end KeyFob
