import Mathlib.Data.List.Induction
import KeyFob.Proofs.Connectivity.Rotation

/-!
Whether the manager's state, the link word and the station agree. A candidate should be current, and published, just
while the link is up, and be the one that the station was told last. Only one thing comes between them: a radio that is
started again while the link is up begins an attempt, but the candidate that was current stays so and stays published.
-/

namespace KeyFob

open Config (Network NetworkList)

def LinkedUp (events : List LinkEvent) : Prop :=
  ∃ earlier later, events = earlier ++ .gotAddress :: later ∧ ∀ e ∈ later, e = .stationStarted

/-- With the last event the radio was started, but the link was up. -/
def StartedWhileUp (events : List LinkEvent) : Prop := ∃ earlier, events = earlier ++ [.stationStarted] ∧ LinkedUp earlier

theorem not_linkedUp_nil : ¬ LinkedUp [] := by
  rintro ⟨earlier, later, h, -⟩
  simp at h

theorem linkedUp_concat {events : List LinkEvent} {e : LinkEvent} :
    LinkedUp (events ++ [e]) ↔ e = .gotAddress ∨ e = .stationStarted ∧ LinkedUp events := by
  constructor
  · rintro ⟨earlier, later, h, hlater⟩
    rcases List.eq_nil_or_concat later with rfl | ⟨later, x, rfl⟩
    · exact Or.inl (List.append_inj_right' h rfl |> List.cons.inj |>.1)
    · rw [List.concat_eq_append] at h hlater
      rw [← List.cons_append, ← List.append_assoc] at h
      obtain ⟨rfl, hx⟩ := List.append_inj' h rfl
      obtain rfl := (List.cons.inj hx).1
      exact Or.inr ⟨hlater _ (by simp), earlier, later, rfl, fun y hy => hlater y (by simp [hy])⟩
  · rintro (rfl | ⟨rfl, earlier, later, rfl, hlater⟩)
    · exact ⟨events, [], rfl, nofun⟩
    · refine ⟨earlier, later ++ [.stationStarted], by simp, fun y hy => ?_⟩
      rcases List.mem_append.1 hy with hy | hy
      · exact hlater y hy
      · exact List.mem_singleton.1 hy

theorem startedWhileUp_concat {events : List LinkEvent} {e : LinkEvent} :
    StartedWhileUp (events ++ [e]) ↔ e = .stationStarted ∧ LinkedUp events := by
  constructor
  · rintro ⟨earlier, h, hup⟩
    obtain ⟨rfl, he⟩ := List.append_inj' h rfl
    exact ⟨(List.cons.inj he).1, hup⟩
  · rintro ⟨rfl, hup⟩
    exact ⟨events, rfl, hup⟩

namespace Connectivity

variable {networks : NetworkList} {ns : List Network} {c : Connectivity}

/-- The state behind any number of events. -/
def afterAll (c : Connectivity) (events : List LinkEvent) : Connectivity := events.foldl after c

theorem afterAll_concat (c : Connectivity) (events : List LinkEvent) (e : LinkEvent) :
    c.afterAll (events ++ [e]) = (c.afterAll events).after e := by
  simp [afterAll]

/-- A candidate is current while the last transition was one up. -/
theorem current_afterAll (h : c.currentIndex = none) (events : List LinkEvent) :
    (c.afterAll events).currentIndex.isSome ↔ LinkedUp events := by
  induction events using List.reverseRecOn with
  | nil => exact iff_of_false (by simp [afterAll, h]) not_linkedUp_nil
  | append_singleton events e ih =>
    rw [afterAll_concat, linkedUp_concat]
    cases e with
    | stationStarted =>
      change (c.afterAll events).currentIndex.isSome ↔ _
      simpa using ih
    | gotAddress => exact iff_of_true rfl (Or.inl rfl)
    | disconnected reason => exact iff_of_false (by simp [after, advanced]) (by simp)

/-- The link counts as up only right behind an address. -/
theorem status_after (c : Connectivity) (e : LinkEvent) : (c.after e).status = .up ↔ e = .gotAddress := by
  cases e <;> simp [after, advanced]

variable {ε κ τ : Type} [Surroundings ε]

/-- What the events have the station join, one network after the other. -/
def candidates (c : Connectivity) : List LinkEvent → List Network
  | [] => []
  | e :: rest => (c.candidate? e).toList ++ (c.after e).candidates rest

theorem handleAll_leaves (c : Connectivity) (events : List LinkEvent) :
    Leaves (c.handleAll events : Run ε κ τ _) fun c' o => c' = c.afterAll events ∧ tries o = c.candidates events := by
  induction events generalizing c with
  | nil => exact .pure ⟨rfl, rfl⟩
  | cons e rest ih =>
    refine (handle_leaves c e).bind fun (r, c') o ho => ?_
    obtain ⟨rfl, ho⟩ := ho
    refine (ih (c.after e)).mono fun c'' o' ⟨hc, ho'⟩ => ⟨hc, ?_⟩
    rw [tries_append, ho, ho']
    rfl

/-- The last network that was tried is the candidate of the last attempt. -/
theorem Rotates.latest (h : Rotates networks ns c) (hns : ns ≠ []) :
    networks.toList[lastTried networks ns.length]? = ns.getLast? := by
  have hpos : 0 < ns.length := List.length_pos_iff.2 hns
  rw [List.getLast?_eq_getElem?, h.turn (ns.length - 1) (by omega), lastTried, if_neg (by omega)]

/-- A candidate is current just while the link is up, the link word says the same, and the candidate that is published is
the one that the station was told to join last. -/
structure InStep (networks : NetworkList) (ns : List Network) (c : Connectivity) (σ : Signals) : Prop where
  current : c.currentIndex.isSome ↔ c.status = .up
  word : σ.link.current.isSome ↔ c.status = .up
  latest (i : Nat) (h : σ.link.current = some i) : i = lastTried networks ns.length ∧ networks.toList[i]? = ns.getLast?

/-- An event leads to where all agree, unless it starts the radio while a candidate is current. -/
theorem Rotates.inStep {e : LinkEvent} (h : Rotates networks ns (c.after e)) (hns : ns ≠ []) {σ : Signals}
    (hlink : σ.link.current = (c.after e).currentIndex) :
    InStep networks ns (c.after e) σ ↔ ¬ (e = .stationStarted ∧ c.currentIndex.isSome) := by
  have hstatus := c.status_after e
  -- Without a current candidate all agree, for then none is published either.
  have idle (hnone : (c.after e).currentIndex = none) (he : e ≠ .gotAddress) : InStep networks ns (c.after e) σ := by
    rw [hnone] at hlink
    refine ⟨?_, ?_, fun i hi => nomatch hlink.symm.trans hi⟩
    · rw [hnone, hstatus]
      exact iff_of_false nofun he
    · rw [hlink, hstatus]
      exact iff_of_false nofun he
  cases e with
  | stationStarted =>
    constructor
    · intro hs ⟨_, hsome⟩
      cases hstatus.1 (hs.current.1 hsome)
    · intro hnone
      exact idle (by simpa using hnone : c.currentIndex = none) nofun
  | gotAddress =>
    refine iff_of_true ⟨iff_of_true rfl rfl, iff_of_true (by rw [hlink]; rfl) rfl, fun i hi => ?_⟩ (by simp)
    obtain rfl : i = c.inFlight := Option.some.inj (hi.symm.trans hlink)
    have hflight : c.inFlight = lastTried networks ns.length := h.inFlight
    exact ⟨hflight, hflight ▸ h.latest hns⟩
  | disconnected reason => exact iff_of_true (idle rfl nofun) (by simp)

/-- From its start with the radio on, the manager, the link word and the station agree behind any events, unless the last
of them started the radio while the link was up. A candidate is current, and the same one published, as long as the last
transition was one up, but the link counts as up only right behind an address. -/
theorem in_step_unless_started_while_up (halone : LinkUntouched ε) (hnew : new networks = .ok c) (d : Device ε κ τ)
    (hdown : d.signals.link.current = none) (later : List LinkEvent) :
    let events := .stationStarted :: later
    let r := c.handleAll events d
    (InStep networks (tries (r.2.journal.since d.journal)) r.1 r.2.signals ↔ ¬ StartedWhileUp events) ∧
      (r.1.currentIndex.isSome ↔ LinkedUp events) ∧ r.2.signals.link.current = r.1.currentIndex ∧
      (r.1.status = .up ↔ events.getLast? = some .gotAddress) := by
  intro events r
  obtain ⟨hne, hcurrent, hstart⟩ := rotates_new hnew
  obtain ⟨t, hj, hrotates, hlink, -⟩ := hstart.handleAll halone hne events d (hdown.trans hcurrent.symm)
  obtain ⟨t', hj', -, hafter, htries⟩ := handleAll_leaves c events d
  obtain rfl : t' = t := List.append_cancel_left (hj'.symm.trans hj)
  have hsince : r.2.journal.since d.journal = t' := by
    rw [Journal.since, hj', List.drop_left]
  have hnonempty : tries t' ≠ [] := by
    have hfirst : 0 < networks.toList.length := List.length_pos_iff.2 hne
    have hindex : c.attemptIndex = 0 := hstart.next
    rw [← tries_own, htries]
    simp [events, candidates, candidate?, hstart.same, hindex, List.getElem?_eq_getElem hfirst]
  obtain ⟨earlier, e, hevents⟩ : ∃ earlier e, events = earlier ++ [e] :=
    ⟨events.dropLast, events.getLast (List.cons_ne_nil _ _), (List.dropLast_concat_getLast _).symm⟩
  have hr : r.1 = (c.afterAll earlier).after e := by
    rw [← afterAll_concat, ← hevents]
    exact hafter
  rw [List.nil_append] at hrotates
  change Rotates networks (tries t') r.1 at hrotates
  change r.2.signals.link.current = r.1.currentIndex at hlink
  refine ⟨?_, ?_, hlink, ?_⟩
  · rw [hsince, hevents, startedWhileUp_concat, ← current_afterAll hcurrent]
    rw [hr] at hrotates hlink ⊢
    exact hrotates.inStep hnonempty hlink
  · rw [← current_afterAll hcurrent]
    exact iff_of_eq (congrArg (fun c : Connectivity => c.currentIndex.isSome = true) hafter)
  · rw [hr, status_after, hevents, List.getLast?_concat, Option.some_inj]

def obliged : Device Bench.Plan MemoryStore Bench.AnyToken where
  outside := {}
  store := {}
  token := .scripted {}

def pair : NetworkList :=
  ⟨[Config.Settings.defaultNetwork, { Config.Settings.defaultNetwork with name := ⟨"other", by decide⟩ }], by decide⟩

def failover : List LinkEvent := [.gotAddress, .disconnected 8, .gotAddress]

theorem in_step_behind_a_failover :
    new pair = .ok { networks := pair } ∧ LinkUntouched Bench.Plan ∧ obliged.signals.link.current = none ∧
      ¬ StartedWhileUp (.stationStarted :: failover) ∧
      InStep pair (tries ((handleAll { networks := pair } (.stationStarted :: failover) obliged).2.journal.since
          obliged.journal))
        (handleAll { networks := pair } (.stationStarted :: failover) obliged).1
        (handleAll { networks := pair } (.stationStarted :: failover) obliged).2.signals ∧
      (handleAll { networks := pair } (.stationStarted :: failover) obliged).2.signals.link.current = some 1 := by
  have hnew : new pair = .ok { networks := pair } := rfl
  have hstarted : ¬ StartedWhileUp (.stationStarted :: failover) := by
    change ¬ StartedWhileUp ([.stationStarted, .gotAddress, .disconnected 8] ++ [.gotAddress])
    rw [startedWhileUp_concat]
    exact fun h => nomatch h.1
  obtain ⟨hagree, -⟩ := in_step_unless_started_while_up linkUntouched_plan hnew obliged rfl failover
  exact ⟨hnew, linkUntouched_plan, rfl, hstarted, hagree.2 hstarted, by decide +kernel⟩

/-- The radio is started again while the link is up: the link counts as connecting and the station was told to join the
other candidate, but the first one is still current and published. -/
theorem published_behind_a_second_start :
    let r := handleAll { networks := pair } [.stationStarted, .gotAddress, .stationStarted] obliged
    r.1.status = .connecting ∧ r.1.currentIndex = some 0 ∧ r.2.signals.link.current = some 0 ∧
      (tries (r.2.journal.since obliged.journal)).getLast? = pair.toList[1]? ∧
      ¬ InStep pair (tries (r.2.journal.since obliged.journal)) r.1 r.2.signals := by
  intro r
  have hstatus : r.1.status = .connecting := by decide +kernel
  have hcurrent : r.1.currentIndex = some 0 := by decide +kernel
  refine ⟨hstatus, hcurrent, by decide +kernel, by decide +kernel, fun h => ?_⟩
  have hup := h.current.1 (hcurrent ▸ rfl)
  rw [hstatus] at hup
  cases hup

end Connectivity

end KeyFob
