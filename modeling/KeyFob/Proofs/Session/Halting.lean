import KeyFob.Proofs.Journal.Leads
import KeyFob.Proofs.Restart.Pending
import KeyFob.Proofs.Session.Running

/-!
Why a session goes no further, whatever the others do meanwhile. A cycle that neither halts nor fails nor waits has
taken a dial from the script and is followed by another, so the run of a session is that of its cycles, up to one that
fails, that finds the link down, or that finds a restart pending.
-/

namespace KeyFob.Session

open Config (Endpoint)

variable {ε κ τ : Type}

/-- What holds behind a cycle that began with so many dials in the script, by the way in which it has ended. -/
structure Leaving (dials : Nat) (e : CycleEnd) (d : Device ε κ τ) : Prop where
  halted (h : e = .done .halted) : d.signals.halting = true
  shorter {r : Outcome} (h : e = .done r) (hr : r ≠ .halted) : d.dials.length < dials

theorem Leaving.of_fatal {dials : Nat} {d : Device ε κ τ} (reason : Restart.Reason) : Leaving dials (.fatal reason) d :=
  ⟨nofun, nofun⟩

theorem Leaving.of_done {dials : Nat} {d : Device ε κ τ} {r : Outcome} (h : d.dials.length < dials)
    (hr : r ≠ .halted) : Leaving dials (.done r) d where
  halted he := absurd (CycleEnd.done.inj he) hr
  shorter _ _ := h

theorem Leaving.of_halting {dials : Nat} {d : Device ε κ τ} (h : d.signals.halting = true) :
    Leaving dials (.done .halted) d where
  halted _ := h
  shorter he hr := absurd (CycleEnd.done.inj he).symm hr

/-- The same behind dialing, which may come to a connection. -/
def Dialed.Leaving (dials : Nat) (r : Dialed) (d : Device ε κ τ) : Prop :=
  match r with
  | .connected _ => d.dials.length < dials
  | .ended e => Session.Leaving dials e d

theorem Dialed.Leaving.of_fewer {n dials : Nat} {r : Dialed} {d : Device ε κ τ} (h : r.Leaving n d) (hn : n ≤ dials) :
    r.Leaving dials d := by
  cases r with
  | connected x => exact Nat.lt_of_lt_of_le h hn
  | ended e => exact ⟨h.halted, fun he hr => Nat.lt_of_lt_of_le (h.shorter he hr) hn⟩

theorem leads_of_undialed {α : Type} {m : Run ε κ τ α} (h : Undialed m) (script : List Dial) :
    Leads (fun d => d.dials = script) m fun _ d => d.dials = script :=
  fun d hd => (h d).trans hd

theorem refused_leaving (peer : Endpoint) (s : Session) (n : Nat) (P : Device ε κ τ → Prop) :
    Leads P (dialFrom.refused peer s : Run ε κ τ _) fun r d => r.1.Leaving n d :=
  fun _ _ => .of_fatal _

variable [Surroundings ε]

theorem halting_leads (script : List Dial) : Leads (fun d : Device ε κ τ => d.dials = script) Run.halting
    fun b d => (b = true → d.signals.halting = true) ∧ d.dials = script :=
  fun d hd => ⟨id, (Run.meanwhile_undialed d).trans hd⟩

variable [Token κ τ]

theorem dialFrom_leaving (index : Nat) (peer : Endpoint) (script : List Dial) (s : Session) :
    Leads (fun d => d.dials = script) (dialFrom index peer script s : Run ε κ τ _)
      fun r d => r.1.Leaving script.length d := by
  induction script generalizing s with
  | nil =>
    unfold dialFrom
    refine (halting_leads []).bind fun halting => ?_
    cases halting with
    | true => exact .pure fun d h => .of_halting (h.1 rfl)
    | false => exact refused_leaving peer s _ _
  | cons dial rest ih =>
    unfold dialFrom
    refine (halting_leads (dial :: rest)).bind fun halting => ?_
    cases halting with
    | true => exact .pure fun d h => .of_halting (h.1 rfl)
    | false =>
      have taken : Leads (fun d => (false = true → d.signals.halting = true) ∧ d.dials = dial :: rest)
          (modify fun d => { d with dials := rest } : Run ε κ τ Unit) fun _ d => d.dials = rest :=
        fun _ _ => rfl
      rcases dial with ⟨_ | _⟩ | x
      · exact taken.bind fun _ => refused_leaving peer s _ _
      · refine taken.bind fun _ => (leads_of_undialed (Run.add_undialed _) rest).bind fun _ => ?_
        refine (leads_of_undialed Run.invalidate_undialed rest).bind fun _ => ?_
        refine (leads_of_undialed (Run.emit_undialed _) rest).bind fun _ => ?_
        refine (leads_of_undialed (Run.delay_undialed _) rest).bind fun _ => ?_
        refine (leads_of_undialed Run.readLink_undialed rest).bind fun link => .ite (fun _ => ?_) fun _ => ?_
        · refine .pure fun d hd => Leaving.of_done ?_ (by decide)
          rw [hd]
          exact Nat.lt_succ_self _
        · exact (ih s.failed).mono fun r d h => h.of_fewer (Nat.le_succ _)
      · refine taken.bind fun _ => (leads_of_undialed (Run.add_undialed _) rest).bind fun _ => .pure fun d hd => ?_
        change d.dials.length < (Dial.connects x :: rest).length
        rw [hd]
        exact Nat.lt_succ_self _

theorem serveLink_leaving (s : Session) (script : List Dial) :
    Leads (fun d => d.dials = script) (serveLink s : Run ε κ τ _) fun r d => Leaving script.length r.1 d := by
  unfold serveLink
  refine (leads_of_undialed Run.readLink_undialed script).bind fun link => ?_
  cases link with
  | none => exact .pure fun d _ => ⟨nofun, nofun⟩
  | some index =>
    dsimp only
    split
    · exact fun _ _ => .of_fatal _
    · next network hn =>
      rintro d rfl
      have hget : (get : Run ε κ τ _) d = (d, d) := rfl
      rw [Run.bind_apply, hget, Run.bind_apply]
      have hdialed := dialFrom_leaving index (network.peerAt s.settings.peerPort) d.dials s d rfl
      generalize dialFrom index (network.peerAt s.settings.peerPort) d.dials s d = dialed at hdialed ⊢
      rcases dialed with ⟨⟨r, s₁⟩, d₁⟩
      cases r with
      | ended e => exact hdialed
      | connected x =>
        let logged := (log .debug ("SESSION: connected to " ++ (network.peerAt s.settings.peerPort).text) d₁).2
        obtain ⟨-, -, -, -, hr, hdials⟩ := serveConnection_undials s₁ x logged
        refine Leaving.of_done ?_ hr
        change (serveConnection s₁ x logged).2.dials.length < d.dials.length
        rw [hdials]
        exact hdialed

theorem serveOnce_leaving (s : Session) (script : List Dial) :
    Leads (fun d => d.dials = script) (serveOnce s : Run ε κ τ _) fun r d => Leaving script.length r.1 d := by
  refine (halting_leads script).bind fun halting => ?_
  cases halting with
  | true => exact .pure fun d h => .of_halting (h.1 rfl)
  | false => exact fun d h => serveLink_leaving s script d h.2

/-- A cycle that has an outcome other than that a restart is pending is followed by another. -/
theorem cycles_next {s s' : Session} {d d' : Device ε κ τ} {r : Outcome} (h : serveOnce s d = ((.done r, s'), d'))
    (hr : r ≠ .halted) : cycles s d = cycles s' (log .debug ("SESSION: cycle ended " ++ r.text) d').2 := by
  have hleaving := serveOnce_leaving s d.dials d rfl
  rw [h] at hleaving
  rw [cycles_of_done h hr, if_pos (hleaving.shorter rfl hr)]

/-- Cycles, each of which takes up the session that the one before it has left, and how they end. -/
inductive Laps : Session → LoopEnd → Session → List Entry → Prop
  | halted {s s' : Session} {o : List Entry} (h : Cycles s (.done .halted) s' o) : Laps s .halted s' o
  | fatal {s s' : Session} {o : List Entry} {reason : Restart.Reason} (h : Cycles s (.fatal reason) s' o) :
    Laps s (.fatal reason) s' o
  | waiting {s s' : Session} {o : List Entry} (h : Cycles s .waiting s' o) : Laps s .waiting s' o
  | next {s s' s'' : Session} {r : Outcome} {e : LoopEnd} {o o' : List Entry} (h : Cycles s (.done r) s' o)
    (hr : r ≠ .halted) (hrest : Laps s' e s'' o') : Laps s e s'' (o ++ o')

theorem cycles_laps (s : Session) (d : Device ε κ τ) :
    ∃ t, (cycles s d).2.journal.toList = d.journal.toList ++ t ∧ Accounts d.signals t (cycles s d).2.signals ∧
      Laps s (cycles s d).1.1 (cycles s d).1.2 (own t) ∧
        ((cycles s d).1.1 = .halted → (cycles s d).2.signals.halting = true) := by
  -- Only a cycle that has taken a dial is followed by another.
  induction hn : d.dials.length using Nat.strongRecOn generalizing s d with
  | ind n ih =>
    subst hn
    obtain ⟨t, hj, hs, hc⟩ := serveOnce_leaves s d
    have hleaving := serveOnce_leaving s d.dials d rfl
    rcases hr : serveOnce s d with ⟨⟨e, s'⟩, d'⟩
    rw [hr] at hj hs hc hleaving
    cases e with
    | fatal reason =>
      rw [cycles, hr]
      exact ⟨t, hj, hs, .fatal hc, fun h => by cases h⟩
    | waiting =>
      rw [cycles, hr]
      exact ⟨t, hj, hs, .waiting hc, fun h => by cases h⟩
    | done r =>
      by_cases hhalted : r = .halted
      · subst hhalted
        rw [cycles, hr]
        exact ⟨t, hj, hs, .halted hc, fun _ => hleaving.halted rfl⟩
      rw [cycles_next hr hhalted]
      let n : Note := .log ⟨.debug, .session, "SESSION: cycle ended " ++ r.text⟩
      obtain ⟨u, hj', hs', hlaps, hend⟩ := ih d'.dials.length (hleaving.shorter rfl hhalted) s'
        (log .debug ("SESSION: cycle ended " ++ r.text) d').2 rfl
      refine ⟨t ++ .note n :: u, ?_, hs.append ⟨trivial, hs'⟩, ?_, hend⟩
      · rw [hj']
        change (d'.journal.add (.note n)).toList ++ u = _
        rw [Journal.toList_add, hj]
        simp
      · have hown : own (t ++ .note n :: u) = own t ++ own u := own_append t (.note n :: u)
        rw [hown]
        exact .next hc hhalted hlaps

theorem cycles_leaves (s : Session) : Leaves (cycles s : Run ε κ τ _) fun (e, s') o => Laps s e s' o := by
  intro d
  obtain ⟨t, hj, hs, hlaps, -⟩ := cycles_laps s d
  exact ⟨t, hj, hs, hlaps⟩

theorem run_leaves (s : Session) : Leaves (run s : Run ε κ τ _) fun (e, s') o => Laps s e s' o :=
  (log_leaves _ _).skip fun _ => cycles_leaves s

/-- A session halts only with a restart pending. -/
theorem run_pending (s : Session) : EndsPending (run s : Run ε κ τ _) (·.1 = .halted) := by
  refine .after (.of_leaves (log_leaves _ _)) fun _ => ⟨.of_leaves (cycles_leaves s), fun d h => ?_⟩
  obtain ⟨-, -, -, -, hend⟩ := cycles_laps s d
  exact hend h

theorem Dials.not_waiting {index : Nat} {peer : Endpoint} {r : Dialed} {s s' : Session} {o : List Entry}
    (h : Dials index peer s r s' o) : r ≠ .ended .waiting := by
  induction h with
  | again _ ih => exact ih
  | _ => simp

/-- A session waits only for a link that it has just seen down. -/
theorem Laps.link_down {s s' : Session} {e : LoopEnd} {o : List Entry} (h : Laps s e s' o) (he : e = .waiting) :
    ∃ o', o = o' ++ [.readLink none] := by
  induction h with
  | halted => cases he
  | fatal => cases he
  | waiting h =>
    cases h with
    | waiting => exact ⟨[], rfl⟩
    | ended _ _ h => exact absurd rfl h.not_waiting
  | @next _ _ _ _ _ o _ _ _ _ ih =>
    obtain ⟨o', rfl⟩ := ih he
    exact ⟨o ++ o', (List.append_assoc _ _ _).symm⟩

end KeyFob.Session
