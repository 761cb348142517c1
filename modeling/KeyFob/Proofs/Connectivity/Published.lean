import KeyFob.Proofs.Connectivity.Collapse
import KeyFob.Proofs.Session.Halting

/-!
The candidates that the link is set up on. The manager publishes only places in its own list of networks, whatever
becomes of its calls to the station, so a session with the same list always finds the network that it looks up.
-/

namespace KeyFob

open Config (NetworkList)

namespace Connectivity

theorem inRange_new {networks : NetworkList} {c : Connectivity} (h : new networks = .ok c) :
    c.networks = networks ∧ c.InRange := by
  unfold new at h
  split at h
  · cases h
  · next hne =>
    injection h with h
    subst h
    have hpos := List.length_pos_iff.2 hne
    exact ⟨rfl, hpos, hpos⟩

theorem networks_after (c : Connectivity) (e : LinkEvent) : (c.after e).networks = c.networks := by
  cases e <;> rfl

/-- The only link that an event sets up is that of the candidate in flight. -/
theorem linkUp_mem_transitions {e : LinkEvent} {inFlight i : Nat}
    (h : .linkUp i ∈ (e.transitions inFlight).flatMap Transition.writes) : i = inFlight := by
  cases e with
  | stationStarted => cases h
  | gotAddress => simpa [LinkEvent.transitions, Transition.writes] using h
  | disconnected reason => simp [LinkEvent.transitions, Transition.writes] at h

theorem linkUp_mem_linkWrites {t : List Entry} {i : Nat} : .linkUp i ∈ linkWrites t ↔ .acted (.linkUp i) ∈ t := by
  refine ⟨fun h => ?_, fun h => List.mem_filterMap.2 ⟨_, h, rfl⟩⟩
  obtain ⟨x, hx, hwrite⟩ := List.mem_filterMap.1 h
  cases x with
  | acted a =>
    cases a with
    | linkUp j => exact Action.linkUp.inj (Option.some.inj hwrite) ▸ hx
    | _ => cases hwrite
  | _ => cases hwrite

variable {ε κ τ : Type} [Surroundings ε]

/-- Whatever the radio reports, the link is only set up on candidates that there are. -/
theorem InRange.handleAll (halone : LinkUntouched ε) {c : Connectivity} (h : c.InRange) (events : List LinkEvent)
    (d : Device ε κ τ) :
    ∃ t, (c.handleAll events d).2.journal.toList = d.journal.toList ++ t ∧
      ∀ i, .acted (.linkUp i) ∈ t → i < c.networks.toList.length := by
  induction events generalizing c d with
  | nil => exact ⟨[], (List.append_nil _).symm, nofun⟩
  | cons e rest ih =>
    obtain ⟨t, hj, ht⟩ := handle_writes halone c e d
    obtain ⟨-, -, -, hc, -⟩ := handle_leaves c e d
    obtain ⟨u, hj', hu⟩ := ih (c := (c.handle e d).1.2) (hc ▸ h.after e) (c.handle e d).2
    refine ⟨t ++ u, ?_, fun i hi => ?_⟩
    · rw [← List.append_assoc, ← hj]
      exact hj'
    rcases List.mem_append.1 hi with hi | hi
    · have hwritten := linkUp_mem_linkWrites.2 hi
      rw [ht] at hwritten
      rw [linkUp_mem_transitions hwritten]
      exact h.inFlight_lt
    · have hlt := hu i hi
      rwa [hc, networks_after] at hlt

/-- In some surroundings and behind some events, a manager of these networks publishes this candidate. -/
def Published (networks : NetworkList) (i : Nat) : Prop :=
  ∃ (ε κ τ : Type) (_ : Surroundings ε) (c : Connectivity) (events : List LinkEvent) (d : Device ε κ τ),
    LinkUntouched ε ∧ new networks = .ok c ∧ .acted (.linkUp i) ∈ (c.handleAll events d).2.journal.since d.journal

theorem Published.lt {networks : NetworkList} {i : Nat} (h : Published networks i) : i < networks.toList.length := by
  obtain ⟨ε, κ, τ, _, c, events, d, halone, hnew, hi⟩ := h
  obtain ⟨rfl, hrange⟩ := inRange_new hnew
  obtain ⟨t, hj, ht⟩ := hrange.handleAll halone events d
  rw [Journal.since_eq hj] at hi
  exact ht i hi

end Connectivity

namespace Session

variable {ε κ τ : Type} [Surroundings ε] [Token κ τ]

theorem Dials.not_stationDriver {index : Nat} {peer : Config.Endpoint} {r : Dialed} {s s' : Session} {o : List Entry}
    (h : Dials index peer s r s' o) : r ≠ .ended (.fatal .stationDriver) := by
  induction h with
  | again _ ih => exact ih
  | _ => simp

/-- A session fails for want of a candidate's network only right behind a look at the link that shows this candidate. -/
theorem Laps.unknown {s s' : Session} {e : LoopEnd} {o : List Entry} (h : Laps s e s' o) (he : e = .fatal .stationDriver) :
    ∃ o' index, o = o' ++ [.readLink (some index)] ∧ s.settings.networks.toList[index]? = none := by
  induction h with
  | halted => cases he
  | waiting => cases he
  | fatal h =>
    obtain rfl := LoopEnd.fatal.inj he
    cases h with
    | unknown index hn => exact ⟨[], index, rfl, hn⟩
    | ended _ _ h => exact absurd rfl h.not_stationDriver
  | @next _ _ _ _ _ o _ h _ _ ih =>
    obtain ⟨o', index, rfl, hn⟩ := ih he
    rw [h.settings] at hn
    exact ⟨o ++ o', index, (List.append_assoc _ _ _).symm, hn⟩

/-- Where the link is only ever up on candidates that the session has, it finds each one's network. -/
theorem run_knows_candidates (s : Session) (d : Device ε κ τ)
    (hstart : ∀ i, d.signals.link.current = some i → i < s.settings.networks.toList.length)
    (hup : ∀ i, .acted (.linkUp i) ∈ (s.run d).2.journal.since d.journal → i < s.settings.networks.toList.length) :
    (s.run d).1.1 ≠ .fatal .stationDriver := by
  intro hfatal
  obtain ⟨t, hj, hacc, hlaps⟩ := run_leaves s d
  rw [Journal.since_eq hj] at hup
  obtain ⟨o, index, hown, hn⟩ := hlaps.unknown hfatal
  have hnone : ¬ index < s.settings.networks.toList.length := Nat.not_lt.2 (List.getElem?_eq_none_iff.1 hn)
  obtain ⟨a, b, rfl⟩ : ∃ a b, t = a ++ .readLink (some index) :: b :=
    List.append_of_mem (mem_own.1 (hown ▸ List.mem_append_right o (List.mem_singleton_self _))).1
  obtain ⟨m, ha, hlook, -⟩ := hacc.agrees
  rcases ha.linkUp hlook.symm with ⟨hfirst, -⟩ | ⟨u, v, j, rfl, -, hj'⟩
  · exact hnone (hstart index hfirst)
  · have hlt := hup j (by simp)
    rw [Link.current_setUp (Connectivity.index_lt_size hlt)] at hj'
    exact hnone (Option.some.inj hj' ▸ hlt)

end Session

end KeyFob
