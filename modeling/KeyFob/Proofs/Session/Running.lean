import KeyFob.Bench.Plan
import KeyFob.Bench.Turns
import KeyFob.Proofs.Session.Dialing
import KeyFob.Proofs.Session.Rounds
import KeyFob.Session.Loop

/-!
The run of a session, cycle after cycle, where the others act only while time passes. Each cycle that is followed by
another has taken a dial from the script, so a run ends no later than with the dial behind the last of them, unless it
finds the link down and waits for it.
-/

namespace KeyFob.Session

open Config (Endpoint Network Settings)

/-- Cycles, each of which takes up the signals and the script that the one before it has left, and how they end. -/
inductive Courses (settings : Settings) : Signals → List Dial → LoopEnd → List Entry → Signals → Prop
  | halted {σ σ' : Signals} {script script' : List Dial} {t : List Entry}
    (h : Attends settings σ script (.done .halted) t script' σ') : Courses settings σ script .halted t σ'
  | fatal {σ σ' : Signals} {script script' : List Dial} {t : List Entry} {reason : Restart.Reason}
    (h : Attends settings σ script (.fatal reason) t script' σ') : Courses settings σ script (.fatal reason) t σ'
  | waiting {σ σ' : Signals} {script script' : List Dial} {t : List Entry}
    (h : Attends settings σ script .waiting t script' σ') : Courses settings σ script .waiting t σ'
  | next {σ σ' σ'' : Signals} {script script' : List Dial} {r : Outcome} {e : LoopEnd} {t u : List Entry} (n : Note)
    (h : Attends settings σ script (.done r) t script' σ') (hr : r ≠ .halted)
    (hrest : Courses settings σ' script' e u σ'') : Courses settings σ script e (t ++ .note n :: u) σ''

def StaysUp (settings : Settings) (σ : Signals) (t : List Entry) : Prop :=
  ∀ u : List Entry, u <+: t → Up settings (replayed σ u)

theorem up_iff {settings : Settings} {σ : Signals} :
    Up settings σ ↔ (σ.link.current.bind fun i => settings.networks.toList[i]?).isSome = true := by
  simp only [Up, Option.isSome_iff_exists, Option.bind_eq_some_iff]
  exact exists_comm

instance (settings : Settings) (σ : Signals) : Decidable (Up settings σ) := decidable_of_iff _ up_iff.symm

theorem staysUp_nil {settings : Settings} {σ : Signals} : StaysUp settings σ [] ↔ Up settings σ := by
  simp [StaysUp, replayed]

theorem staysUp_cons {settings : Settings} {σ : Signals} {x : Entry} {t : List Entry} :
    StaysUp settings σ (x :: t) ↔ Up settings σ ∧ StaysUp settings (x.replay σ) t := by
  constructor
  · exact fun h => ⟨h [] List.nil_prefix, fun u hu => h (x :: u) (List.cons_prefix_cons.2 ⟨rfl, hu⟩)⟩
  · rintro ⟨h, ht⟩ u hu
    cases u with
    | nil => exact h
    | cons y u =>
      obtain ⟨rfl, hu'⟩ := List.cons_prefix_cons.1 hu
      exact ht u hu'

instance staysUpDecidable (settings : Settings) : ∀ σ t, Decidable (StaysUp settings σ t)
  | _, [] => decidable_of_iff _ staysUp_nil.symm
  | σ, x :: t =>
    have := staysUpDecidable settings (x.replay σ) t
    decidable_of_iff _ staysUp_cons.symm

section courses

variable {settings : Settings} {σ σ' : Signals} {script : List Dial} {e : LoopEnd} {t : List Entry}

/-- Every dial of a run is made in time. -/
theorem Courses.at_dial (h : Courses settings σ script e t σ') {pre post : List Entry} {peer : Endpoint}
    {x : Except DialError Unit} (ht : t = pre ++ .dial peer x :: post) :
    (replayed σ pre).halting = false ∧ ∃ (i : Nat) (n : Network), (replayed σ pre).link.current = some i ∧
      settings.networks.toList[i]? = some n ∧ peer = n.peerAt settings.peerPort := by
  have cycle : ∀ {σ σ' e t script script' pre post}, Attends settings σ script e t script' σ' →
      t = pre ++ .dial peer x :: post → (replayed σ pre).halting = false ∧ ∃ (i : Nat) (n : Network),
        (replayed σ pre).link.current = some i ∧ settings.networks.toList[i]? = some n ∧
          peer = n.peerAt settings.peerPort := by
    intro σ σ' e t script script' pre post h ht
    obtain ⟨hhalting, i, n, hi, hn, hp, -⟩ := h.at_dial ht
    exact ⟨hhalting, i, n, hi, hn, hp⟩
  induction h generalizing pre with
  | halted h => exact cycle h ht
  | fatal h => exact cycle h ht
  | waiting h => exact cycle h ht
  | next n h hr hrest ih =>
    rcases split_cases ht with ⟨b, hb, -⟩ | ⟨v, rfl, hv⟩
    · exact cycle h hb
    obtain ⟨w, rfl, hw⟩ := append_split (a := [Entry.note n]) hv (by simp)
    rw [replayed_append, ← h.accounts.eq_replayed]
    have hdial := ih hw
    exact hdial

theorem Courses.dials_le (h : Courses settings σ script e t σ') : dials t ≤ script.length + 1 := by
  induction h with
  | halted h => have := h.script_length.1; omega
  | fatal h => have := h.script_length.1; omega
  | waiting h => have := h.script_length.1; omega
  | @next _ _ _ _ _ r _ t u n h hr hrest ih =>
    have hlen := (h.script_length.2 r rfl hr).1
    have hsum : dials (t ++ .note n :: u) = dials t + dials u := dials_append t (.note n :: u)
    omega

theorem Courses.halted_iff (h : Courses settings σ script e t σ') : e = .halted ↔ σ'.halting = true := by
  induction h with
  | halted h => simp [h.pending.1 rfl]
  | fatal h => simp [h.pending.2 (by simp)]
  | waiting h => simp [h.pending.2 (by simp)]
  | next n h hr hrest ih => exact ih

theorem Courses.of_staysUp (h : Courses settings σ script e t σ') (hup : StaysUp settings σ t) :
    e = .halted ∨ e = .fatal .socketAllocation := by
  induction h with
  | halted h => exact Or.inl rfl
  | fatal h =>
    rcases h.of_up (hup [] List.nil_prefix) with ⟨r, hr⟩ | hr
    · cases hr
    · cases hr
      exact Or.inr rfl
  | waiting h =>
    rcases h.of_up (hup [] List.nil_prefix) with ⟨r, hr⟩ | hr
    · cases hr
    · cases hr
  | @next _ _ _ _ _ r _ t u n h hr hrest ih =>
    refine ih fun w hw => ?_
    obtain ⟨v, rfl⟩ := hw
    have := hup (t ++ .note n :: w) ⟨v, by simp⟩
    rw [replayed_append, ← h.accounts.eq_replayed] at this
    exact this

end courses

variable {ε κ τ : Type} [Surroundings ε] [Token κ τ]

theorem cycles_of_done {s s' : Session} {d d' : Device ε κ τ} {r : Outcome}
    (h : serveOnce s d = ((.done r, s'), d')) (hr : r ≠ .halted) :
    cycles s d =
      if d'.dials.length < d.dials.length then
        cycles s' (log .debug ("SESSION: cycle ended " ++ r.text) d').2
      else ((.waiting, s'), (log .debug ("SESSION: cycle ended " ++ r.text) d').2) := by
  rw [cycles, h]
  cases r <;> first | exact absurd rfl hr | rfl

theorem cycles_courses (hstill : Still ε) (s : Session) (d : Device ε κ τ) :
    ∃ t, (cycles s d).2.journal.toList = d.journal.toList ++ t ∧
      Courses s.settings d.signals d.dials (cycles s d).1.1 t (cycles s d).2.signals := by
  induction hn : d.dials.length using Nat.strongRecOn generalizing s d with
  | ind n ih =>
    subst hn
    obtain ⟨t, hj, ha⟩ := serveOnce_attends hstill s d
    have hset : (serveOnce s d).1.2.settings = s.settings := by
      obtain ⟨_, -, -, hc⟩ := serveOnce_leaves s d
      exact Cycles.settings hc
    rcases hr : serveOnce s d with ⟨⟨e, s'⟩, d'⟩
    rw [hr] at hj ha hset
    cases e with
    | fatal reason =>
      rw [cycles, hr]
      exact ⟨t, hj, .fatal ha⟩
    | waiting =>
      rw [cycles, hr]
      exact ⟨t, hj, .waiting ha⟩
    | done r =>
      by_cases hhalted : r = .halted
      · subst hhalted
        rw [cycles, hr]
        exact ⟨t, hj, .halted ha⟩
      obtain ⟨hlen, hpos⟩ := ha.script_length.2 r rfl hhalted
      have hlt : d'.dials.length < d.dials.length := by
        simp only at hlen
        omega
      rw [cycles_of_done hr hhalted, if_pos hlt]
      obtain ⟨u, hj', hu⟩ := ih d'.dials.length hlt s' (log .debug ("SESSION: cycle ended " ++ r.text) d').2 rfl
      rw [hset] at hu
      refine ⟨t ++ .note (.log ⟨.debug, .session, "SESSION: cycle ended " ++ r.text⟩) :: u, ?_, .next _ ha hhalted hu⟩
      rw [hj']
      change (d'.journal.add _).toList ++ u = _
      rw [Journal.toList_add, hj]
      simp

/-- A run begins with a line of its own. -/
theorem run_courses (hstill : Still ε) (s : Session) (d : Device ε κ τ) :
    ∃ (n : Note) (t : List Entry), (run s d).2.journal.since d.journal = .note n :: t ∧
      Courses s.settings d.signals d.dials (run s d).1.1 t (run s d).2.signals := by
  obtain ⟨t, hj, ht⟩ := cycles_courses hstill s
    (log .info s!"SESSION: serving peers on port {s.settings.peerPort.toNat}" d).2
  let n : Note := .log ⟨.info, .session, s!"SESSION: serving peers on port {s.settings.peerPort.toNat}"⟩
  have hrun : (run s d).2.journal.toList = d.journal.toList ++ .note n :: t := by
    refine hj.trans ?_
    change (d.journal.add (.note n)).toList ++ t = _
    rw [Journal.toList_add, List.append_assoc]
    rfl
  exact ⟨n, t, Journal.since_eq hrun, ht⟩

/-- Where the others act only while time passes, a session dials while no restart is pending and the link is up on a
candidate, the peer of that candidate, and within a cycle again and again after a backoff each, until the link is lost,
a restart is pending, a socket is refused or the peer answers. With the link up all along a run ends, with no more than
one dial beyond its script, and without a reason of its own if and only if a restart is pending. -/
theorem run_dials_in_time_and_ends (hstill : Still ε) (s : Session) (d : Device ε κ τ) :
    let t := (run s d).2.journal.since d.journal
    let e := (run s d).1.1
    (∀ (pre post : List Entry) (peer : Endpoint) (r : Except DialError Unit), t = pre ++ .dial peer r :: post →
      (replayed d.signals pre).halting = false ∧ ∃ (i : Nat) (n : Network),
        (replayed d.signals pre).link.current = some i ∧ s.settings.networks.toList[i]? = some n ∧
          peer = n.peerAt s.settings.peerPort) ∧
    (∀ (s : Session) (d : Device ε κ τ) (pre post : List Entry) (peer : Endpoint) (r : Except DialError Unit),
      (serveOnce s d).2.journal.since d.journal = pre ++ .dial peer r :: post → ∃ (i k : Nat),
        own pre = .readLink (some i) :: retries s.settings i peer k ∧
          Onward s.settings i peer (replayed d.signals pre) r post (serveOnce s d).1.1) ∧
    dials t ≤ d.dials.length + 1 ∧ (e = .halted ↔ (run s d).2.signals.halting = true) ∧
    (StaysUp s.settings d.signals t → e = .halted ∨ e = .fatal .socketAllocation) := by
  intro t e
  obtain ⟨n, u, ht, hrun⟩ := run_courses hstill s d
  rw [show t = .note n :: u from ht]
  refine ⟨?_, ?_, hrun.dials_le, hrun.halted_iff, fun hup => hrun.of_staysUp fun v hv => ?_⟩
  · intro pre post peer r hpre
    obtain ⟨pre, rfl, hu⟩ := append_split (a := [Entry.note n]) hpre (by simp)
    have hdial := hrun.at_dial hu
    exact hdial
  · intro s d pre post peer r ht
    obtain ⟨t', hj, ha⟩ := serveOnce_attends hstill s d
    rw [Journal.since_eq hj] at ht
    obtain ⟨-, i, n, -, -, -, ⟨k, hk⟩, hon⟩ := ha.at_dial ht
    exact ⟨i, k, hk, hon⟩
  · exact hup (.note n :: v) (List.cons_prefix_cons.2 ⟨rfl, hv⟩)

def lateToAnswer : Device Bench.Plan MemoryStore Bench.AnyToken where
  outside := {}
  store := {}
  token := .scripted {}
  signals := ({} : Signals).linkUp 0
  dials := [.fails .connect, .connects { message := [0x00, 0xB0, 0x00, 0x00] }]

theorem still_plan : Still Bench.Plan := fun _ => rfl

theorem late_peer_is_dialed_again :
    let s : Session := { settings := .default }
    let t := (run s lateToAnswer).2.journal.since lateToAnswer.journal
    Still Bench.Plan ∧ StaysUp s.settings lateToAnswer.signals t ∧ dials t = lateToAnswer.dials.length + 1 ∧
      dials t ≤ lateToAnswer.dials.length + 1 ∧
      ((run s lateToAnswer).1.1 = .halted ∨ (run s lateToAnswer).1.1 = .fatal .socketAllocation) := by
  intro s t
  have hup : StaysUp s.settings lateToAnswer.signals t := by decide +kernel
  obtain ⟨-, -, hle, -, hends⟩ := run_dials_in_time_and_ends still_plan s lateToAnswer
  exact ⟨still_plan, hup, by decide +kernel, hle, hends hup⟩

end KeyFob.Session
