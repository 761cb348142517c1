import KeyFob.Bench.Plan
import KeyFob.Bench.Tokens
import KeyFob.Proofs.Connectivity
import KeyFob.Proofs.Session.Rounds
import KeyFob.Storage.Memory

/-!
The candidates take turns. Whatever events the radio sends and whichever calls to the station fail, the station is told
to join one candidate after the other, around and around; the link word, the manager's own state and the epoch follow
the same events. `Rotates` is what each event preserves, with the networks tried so far as its measure.
-/

namespace KeyFob

open Config (Network NetworkList)

def Entry.tried? : Entry → Option Network
  | apply network => some network
  | _ => none

/-- The networks that the station was told to join, in order, whether or not it could. -/
def tries (t : List Entry) : List Network := t.filterMap Entry.tried?

theorem tries_append (t u : List Entry) : tries (t ++ u) = tries t ++ tries u := List.filterMap_append

theorem tries_own (t : List Entry) : tries (own t) = tries t := filterMap_own (fun _ => rfl) (fun _ => rfl) t

def LinkEvent.isTransition : LinkEvent → Bool
  | stationStarted => false
  | gotAddress | disconnected _ => true

theorem Link.current_setUp {l : Link} {i : Nat} (h : i + 1 < UInt32.size) : (l.setUp i).current = some i := by
  have hi : (UInt32.ofNat i).toNat = i := UInt32.toNat_ofNat_of_lt' (by omega)
  have hword : (UInt32.ofNat i + 1).toNat = i + 1 := by
    rw [UInt32.toNat_add, hi]
    exact Nat.mod_eq_of_lt h
  have hne : UInt32.ofNat i + 1 ≠ 0 := fun h0 => by simp [h0] at hword
  simp [Link.current, Link.setUp, Link.signal, Link.store, hne, hi]

/-- The link and the epoch are what the writes of the link task have made of them. -/
theorem Accounts.link_and_epoch {s σ s' : Signals} {t : List Entry} (h : Accounts s t s') (hlink : σ.link = s.link)
    (hepoch : σ.epoch = s.epoch) :
    s'.link = ((linkWrites t).foldl Action.apply σ).link ∧ s'.epoch = ((linkWrites t).foldl Action.apply σ).epoch := by
  induction t generalizing s σ with
  | nil =>
    obtain rfl := h
    exact ⟨hlink.symm, hepoch.symm⟩
  | cons e t ih =>
    cases e with
    | acted a =>
      cases a with
      | bump => exact ih (σ := σ.bump) h.2 hlink (congrArg (· + 1) hepoch)
      | linkUp i => exact ih (σ := σ.linkUp i) h.2 (congrArg (·.setUp i) hlink) hepoch
      | linkDown => exact ih (σ := σ.linkDown) h.2 (congrArg Link.setDown hlink) hepoch
      | _ => exact ih h.2 hlink hepoch
    | _ => exact ih h.2 hlink hepoch

namespace Connectivity

def advanced (c : Connectivity) : Connectivity :=
  { c with
    inFlight := c.attemptIndex
    attemptIndex := (c.attemptIndex + 1) % c.networks.toList.length
    status := .connecting }

/-- The state behind an event. -/
def after (c : Connectivity) : LinkEvent → Connectivity
  | .stationStarted => c.advanced
  | .gotAddress => { c with status := .up, currentIndex := some c.inFlight }
  | .disconnected _ => advanced { c with status := .down, currentIndex := none }

/-- What an event has the station join: the next candidate, or nothing. -/
def candidate? (c : Connectivity) : LinkEvent → Option Network
  | .gotAddress => none
  | .stationStarted | .disconnected _ => c.networks.toList[c.attemptIndex]?

variable {ε κ τ : Type} [Surroundings ε]

theorem attempt_leaves (c : Connectivity) :
    Leaves (c.attempt : Run ε κ τ _) fun (_, c') o =>
      c' = c.advanced ∧ tries o = c.networks.toList[c.attemptIndex]?.toList := by
  unfold attempt
  refine (Run.log_leaves _ _ _).skip fun _ => ?_
  dsimp only
  split
  · next hn => exact .pure ⟨rfl, by rw [hn]; rfl⟩
  · next network hn =>
    rw [hn]
    refine (Run.apply_leaves network).step fun r => ?_
    cases r with
    | error e => exact .pure ⟨rfl, rfl⟩
    | ok _ => exact (Run.emit_leaves _).step fun _ => Run.connect_leaves.step fun _ => .pure ⟨rfl, rfl⟩

theorem handle_leaves (c : Connectivity) (e : LinkEvent) :
    Leaves (c.handle e : Run ε κ τ _) fun (_, c') o => c' = c.after e ∧ tries o = (c.candidate? e).toList := by
  unfold handle
  refine (Run.log_leaves _ _ _).skip fun _ => ?_
  cases e with
  | stationStarted => exact attempt_leaves c
  | gotAddress =>
    refine (Run.act_leaves _).skip fun _ => (Run.act_leaves _).skip fun _ => (Run.emit_leaves _).step fun _ => ?_
    exact .pure ⟨rfl, rfl⟩
  | disconnected reason =>
    have down : Leaves (do
        Run.act .bump
        Run.act .linkDown
        Run.emit (.linkDown reason)
        attempt { c with status := .down, currentIndex := none } : Run ε κ τ _) fun (_, c') o =>
          c' = c.after (.disconnected reason) ∧ tries o = (c.candidate? (.disconnected reason)).toList := by
      refine (Run.act_leaves _).skip fun _ => (Run.act_leaves _).skip fun _ => (Run.emit_leaves _).step fun _ => ?_
      exact (attempt_leaves _).mono fun _ _ h => h
    dsimp only
    split
    · exact (Run.log_leaves _ _ _).skip fun _ => down
    · exact down

def handleAll (c : Connectivity) : List LinkEvent → Run ε κ τ Connectivity
  | [] => return c
  | e :: rest => do
    let (_, c) ← c.handle e
    c.handleAll rest

/-- The candidate of the last of so many attempts, the first one if there was none. -/
def lastTried (networks : NetworkList) (attempts : Nat) : Nat :=
  if attempts = 0 then 0 else (attempts - 1) % networks.toList.length

/-- The manager has had the station join these networks, each in its turn. -/
structure Rotates (networks : NetworkList) (ns : List Network) (c : Connectivity) : Prop where
  same : c.networks = networks
  turn (k : Nat) (h : k < ns.length) : ns[k]? = networks.toList[k % networks.toList.length]?
  next : c.attemptIndex = ns.length % networks.toList.length
  inFlight : c.inFlight = lastTried networks ns.length
  current (i : Nat) (h : c.currentIndex = some i) : i < networks.toList.length

variable {networks : NetworkList} {ns : List Network} {c : Connectivity}

theorem lastTried_lt (hne : networks.toList ≠ []) (attempts : Nat) :
    lastTried networks attempts < networks.toList.length := by
  have hpos := List.length_pos_iff.2 hne
  unfold lastTried
  split
  · exact hpos
  · exact Nat.mod_lt _ hpos

theorem rotates_new (hnew : new networks = .ok c) :
    networks.toList ≠ [] ∧ c.currentIndex = none ∧ Rotates networks [] c := by
  unfold new at hnew
  split at hnew
  · cases hnew
  · next hne =>
    injection hnew with hnew
    subst hnew
    exact ⟨hne, rfl, rfl, by simp, by simp, rfl, by simp⟩

theorem Rotates.advanced (h : Rotates networks ns c) (hne : networks.toList ≠ []) :
    Rotates networks (ns ++ networks.toList[c.attemptIndex]?.toList) c.advanced := by
  have hpos := List.length_pos_iff.2 hne
  have hlt : c.attemptIndex < networks.toList.length := h.next ▸ Nat.mod_lt _ hpos
  rw [List.getElem?_eq_getElem hlt, Option.toList_some]
  refine ⟨h.same, fun k hk => ?_, ?_, ?_, h.current⟩
  · rw [List.length_append, List.length_singleton] at hk
    rcases Nat.lt_succ_iff_lt_or_eq.1 hk with hk | rfl
    · rw [List.getElem?_append_left hk, h.turn k hk]
    · simp [← h.next, hlt]
  · simp [Connectivity.advanced, h.same, h.next]
  · simp [Connectivity.advanced, h.next, lastTried]

theorem Rotates.after (h : Rotates networks ns c) (hne : networks.toList ≠ []) (e : LinkEvent) :
    Rotates networks (ns ++ (c.candidate? e).toList) (c.after e) := by
  cases e with
  | stationStarted =>
    rw [candidate?, h.same]
    exact h.advanced hne
  | gotAddress =>
    rw [candidate?, Option.toList_none, List.append_nil]
    refine ⟨h.same, h.turn, h.next, h.inFlight, fun i hi => ?_⟩
    obtain rfl := Option.some.inj hi
    rw [h.inFlight]
    exact lastTried_lt hne _
  | disconnected reason =>
    rw [candidate?, h.same]
    have hdown : Rotates networks ns { c with status := .down, currentIndex := none } :=
      ⟨h.same, h.turn, h.next, h.inFlight, nofun⟩
    exact hdown.advanced hne

/-- A place in a list of networks fits into the link word. -/
theorem index_lt_size {i : Nat} (h : i < networks.toList.length) : i + 1 < UInt32.size := by
  have hfits : networks.toList.length ≤ 8 := networks.fits
  exact Nat.lt_of_le_of_lt (Nat.le_trans h hfits) (by decide)

/-- The link and the epoch are what the writes of the event's transition make of them. -/
theorem handle_applies (halone : LinkUntouched ε) (c : Connectivity) (e : LinkEvent) (d : Device ε κ τ) :
    let σ := ((e.transitions c.inFlight).flatMap Transition.writes).foldl Action.apply d.signals
    (c.handle e d).2.signals.link = σ.link ∧ (c.handle e d).2.signals.epoch = σ.epoch := by
  obtain ⟨t, hj, hacc, -⟩ := handle_leaves c e d
  obtain ⟨t', hj', hw⟩ := handle_writes halone c e d
  obtain rfl : t = t' := List.append_cancel_left (hj.symm.trans hj')
  rw [← hw]
  exact hacc.link_and_epoch rfl rfl

/-- What an event does to the signals. -/
theorem handle_signals (halone : LinkUntouched ε) (h : Rotates networks ns c) (hne : networks.toList ≠ [])
    (e : LinkEvent) (d : Device ε κ τ) (hlink : d.signals.link.current = c.currentIndex) :
    (c.handle e d).2.signals.link.current = (c.after e).currentIndex ∧
      (c.handle e d).2.signals.epoch = d.signals.epoch + if e.isTransition then 1 else 0 := by
  obtain ⟨hl, he⟩ := handle_applies halone c e d
  rw [hl, he]
  cases e with
  | stationStarted => exact ⟨hlink, (UInt32.add_zero _).symm⟩
  | gotAddress =>
    have hlt : c.inFlight < networks.toList.length := h.inFlight ▸ lastTried_lt hne ns.length
    exact ⟨Link.current_setUp (index_lt_size hlt), rfl⟩
  | disconnected reason => exact ⟨rfl, rfl⟩

/-- What any number of events come to. -/
theorem Rotates.handleAll (halone : LinkUntouched ε) (h : Rotates networks ns c) (hne : networks.toList ≠ [])
    (events : List LinkEvent) (d : Device ε κ τ) (hlink : d.signals.link.current = c.currentIndex) :
    ∃ t, (c.handleAll events d).2.journal.toList = d.journal.toList ++ t ∧
      Rotates networks (ns ++ tries t) (c.handleAll events d).1 ∧
      (c.handleAll events d).2.signals.link.current = (c.handleAll events d).1.currentIndex ∧
      (c.handleAll events d).2.signals.epoch = d.signals.epoch + UInt32.ofNat (events.countP LinkEvent.isTransition) := by
  induction events generalizing ns c d with
  | nil => exact ⟨[], (List.append_nil _).symm, by rwa [tries, List.filterMap_nil, List.append_nil], hlink,
      (UInt32.add_zero _).symm⟩
  | cons e rest ih =>
    obtain ⟨t, hj, -, hc, ht⟩ := handle_leaves c e d
    obtain ⟨hlink', hepoch⟩ := handle_signals halone h hne e d hlink
    rw [tries_own] at ht
    have h' : Rotates networks (ns ++ tries t) (c.handle e d).1.2 := by
      rw [ht, hc]
      exact h.after hne e
    obtain ⟨u, hj', hr, hl, he⟩ := ih h' (c.handle e d).2 (by rw [hlink', hc])
    refine ⟨t ++ u, ?_, by rwa [tries_append, ← List.append_assoc], hl, ?_⟩
    · rw [← List.append_assoc, ← hj]
      exact hj'
    · refine he.trans ?_
      rw [hepoch, List.countP_cons]
      cases e.isTransition <;> simp [UInt32.ofNat_add, UInt32.add_assoc, UInt32.add_comm]

/-- An address that the radio gets is that of the candidate in flight. -/
theorem handleAll_gotAddress (c : Connectivity) (earlier : List LinkEvent) (d : Device ε κ τ) :
    (c.handleAll (earlier ++ [.gotAddress]) d).1.currentIndex =
      some (c.handleAll (earlier ++ [.gotAddress]) d).1.inFlight := by
  induction earlier generalizing c d with
  | nil => rfl
  | cons e earlier ih => exact ih (c.handle e d).1.2 (c.handle e d).2

/-- So much holds of the manager and of the signals behind these events, with which the station was told to join
these networks. -/
structure TookTurns (networks : NetworkList) (events : List LinkEvent) (ns : List Network) (c : Connectivity)
    (σ : Signals) : Prop where
  turn (k : Nat) (h : k < ns.length) : ns[k]? = networks.toList[k % networks.toList.length]?
  next : c.attemptIndex = ns.length % networks.toList.length
  published : σ.link.current = c.currentIndex
  current (i : Nat) (h : c.currentIndex = some i) : i < networks.toList.length
  address (earlier : List LinkEvent) (h : events = earlier ++ [.gotAddress]) :
    σ.link.current = some (lastTried networks ns.length)
  epoch : σ.epoch.toNat = events.countP LinkEvent.isTransition % UInt32.size

/-- Behind any events, each attempt so far was made with the next candidate in turn, the link word says what the manager
does, an address that was just got is published as the last candidate's, and the epoch counts the transitions. -/
theorem candidates_take_turns (halone : LinkUntouched ε) (hnew : new networks = .ok c) (d : Device ε κ τ)
    (hdown : d.signals.link.current = none) (hepoch : d.signals.epoch = 0) (events : List LinkEvent) :
    TookTurns networks events (tries ((c.handleAll events d).2.journal.since d.journal)) (c.handleAll events d).1
      (c.handleAll events d).2.signals := by
  obtain ⟨hne, hcurrent, hstart⟩ := rotates_new hnew
  obtain ⟨t, hj, hr, hl, he⟩ := hstart.handleAll halone hne events d (hdown.trans hcurrent.symm)
  have hsince : (c.handleAll events d).2.journal.since d.journal = t := by
    rw [Journal.since, hj, List.drop_left]
  rw [hsince]
  rw [List.nil_append] at hr
  refine ⟨hr.turn, hr.next, hl, hr.current, fun earlier hevents => ?_, ?_⟩
  · subst hevents
    rw [hl, handleAll_gotAddress, hr.inFlight]
  · rw [he, hepoch, UInt32.zero_add, UInt32.toNat_ofNat']

theorem linkUntouched_plan : LinkUntouched Bench.Plan where
  told _ p := by
    change linkWrites (p.told.1.map .acted) = []
    unfold Bench.Plan.told
    split <;> rfl
  meanwhile _ := rfl

/-- Two candidates, and a station that joins the first network and rejects every later one. -/
theorem candidates_take_turns_while_the_station_fails :
    let networks : NetworkList :=
      ⟨[Config.Settings.defaultNetwork, { Config.Settings.defaultNetwork with name := ⟨"other", by decide⟩ }], by decide⟩
    let d : Device Bench.Plan MemoryStore Bench.AnyToken :=
      { outside := { station := .planned (some ⟨.apply, 1, -1⟩) }, store := {}, token := .scripted {} }
    let events : List LinkEvent := [.gotAddress, .stationStarted, .disconnected 8, .stationStarted, .gotAddress]
    let c : Connectivity := { networks }
    new networks = .ok c ∧ LinkUntouched Bench.Plan ∧ d.signals.link.current = none ∧ d.signals.epoch = 0 ∧
      (tries ((c.handleAll events d).2.journal.since d.journal)).length = 3 ∧
      TookTurns networks events (tries ((c.handleAll events d).2.journal.since d.journal)) (c.handleAll events d).1
        (c.handleAll events d).2.signals := by
  intro networks d events c
  have hnew : new networks = .ok c := rfl
  exact ⟨hnew, linkUntouched_plan, rfl, rfl, by decide +kernel,
    candidates_take_turns linkUntouched_plan hnew d rfl rfl events⟩

end Connectivity

end KeyFob
