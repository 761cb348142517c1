import KeyFob.Program.Host
import KeyFob.Proofs.Config.Usable

/-!
The link task on a simulated radio. Every attempt puts an address into the queue that the task takes its events from, and
an address starts no attempt. So the queue never grows while it is worked off: what will be received is what waits, and
behind it one address for each waiting event that starts an attempt. `Draining` is what one event preserves.
-/

namespace KeyFob

open Config (Network NetworkList)
open Program (Host)

def LinkEvent.startsAttempt : LinkEvent → Bool
  | gotAddress => false
  | stationStarted | disconnected _ => true

/-- What the simulated radio forwards while an event is handled. -/
def LinkEvent.answer (e : LinkEvent) : List LinkEvent := if e.startsAttempt then [.gotAddress] else []

def Entry.warnsOfBacklog : Entry → Bool
  | note (.log l) => l.level = .warn ∧ l.source = .radio
  | _ => false

/-- The radio warns just when its answer finds the queue full. -/
theorem Radio.connect_warns {r : Radio} (hname : r.name ≠ "") (q : LinkQueue) :
    ((r.connect q).lines.any fun l => (Entry.note (.log l)).warnsOfBacklog) = q.isFull := by
  rw [connect, if_neg hname, LinkQueue.forwardLines]
  cases q.isFull <;> rfl

/-- All the events that will be received: those that wait, and the radio's answers to them. -/
def LinkQueue.course (q : LinkQueue) : List LinkEvent := q.events ++ q.events.flatMap LinkEvent.answer

theorem LinkEvent.answer_answer (e : LinkEvent) : e.answer.flatMap answer = [] := by
  cases e <;> rfl

theorem LinkEvent.length_answers (events : List LinkEvent) :
    (events.flatMap answer).length = events.countP startsAttempt := by
  induction events with
  | nil => rfl
  | cons e rest ih =>
    rw [List.flatMap_cons, List.length_append, ih, List.countP_cons, Nat.add_comm]
    cases e <;> rfl

theorem LinkQueue.length_course (q : LinkQueue) :
    q.course.length = q.events.length + q.events.countP LinkEvent.startsAttempt := by
  rw [course, List.length_append, LinkEvent.length_answers]

/-- The radio's answer to the event at the head takes its place at the end of what will be received. -/
theorem LinkQueue.course_cons {q q' : LinkQueue} {e : LinkEvent} {rest : List LinkEvent} (hq : q.events = e :: rest)
    (hq' : q'.events = rest ++ e.answer) : q.course = e :: q'.course := by
  rw [course, course, hq, hq', List.flatMap_cons, List.flatMap_append, LinkEvent.answer_answer]
  simp

/-- The weight of a queue is the number of events that will be received. -/
theorem Tasks.weight_eq (q : LinkQueue) : Tasks.weight q = q.course.length := by
  rw [q.length_course, weight]
  induction q.events with
  | nil => rfl
  | cons e rest ih =>
    rw [List.foldr_cons, List.length_cons, List.countP_cons]
    cases e with
    | gotAddress => simp [ih, LinkEvent.startsAttempt, Nat.add_right_comm]
    | stationStarted => simp [ih, LinkEvent.startsAttempt]; omega
    | disconnected reason => simp [ih, LinkEvent.startsAttempt]; omega

namespace Connectivity

variable {κ τ : Type} {networks : NetworkList} {ns : List Network} {c : Connectivity} {d d' d'' : Device Host κ τ}

/-- From one device to a later one the radio has made so many attempts, no event was given up and nobody has asked for a
restart. -/
structure Attempted (k : Nat) (d d' : Device Host κ τ) : Prop where
  attempts : d'.outside.radio.attempts = d.outside.radio.attempts + UInt32.ofNat k
  restart : d'.signals.restart = d.signals.restart
  journal : ∃ t, d'.journal.toList = d.journal.toList ++ t ∧ ∀ x ∈ t, x.warnsOfBacklog = false

theorem Attempted.refl (d : Device Host κ τ) : Attempted 0 d d :=
  ⟨(UInt32.add_zero _).symm, rfl, [], (List.append_nil _).symm, nofun⟩

theorem Attempted.trans {j k : Nat} (h : Attempted j d d') (h' : Attempted k d' d'') : Attempted (j + k) d d'' := by
  obtain ⟨t, hj, ht⟩ := h.journal
  obtain ⟨u, hj', hu⟩ := h'.journal
  refine ⟨?_, h'.restart.trans h.restart, t ++ u, by rw [hj', hj, List.append_assoc], fun x hx => ?_⟩
  · rw [h'.attempts, h.attempts, UInt32.ofNat_add, UInt32.add_assoc]
  · exact (List.mem_append.1 hx).elim (ht x) (hu x)

theorem attempted_add {x : Entry} (hx : x.warnsOfBacklog = false) (d : Device Host κ τ) : Attempted 0 d (Run.add x d).2 :=
  ⟨(UInt32.add_zero _).symm, rfl, [x], Journal.toList_add _ _, by simpa using hx⟩

theorem attempted_act {a : Action} (ha : ∀ s : Signals, (a.apply s).restart = s.restart) (d : Device Host κ τ) :
    Attempted 0 d (Run.act a d).2 :=
  ⟨(UInt32.add_zero _).symm, ha _, [.acted a], Journal.toList_add _ _, by simp [Entry.warnsOfBacklog]⟩

theorem attempted_log (level : Level) (message : String) (d : Device Host κ τ) :
    Attempted 0 d (log level message d).2 :=
  attempted_add (x := .note (.log ⟨level, .connectivity, message⟩)) (by simp [Entry.warnsOfBacklog]) d

theorem attempted_emit (e : Event) (d : Device Host κ τ) : Attempted 0 d (Run.emit e d).2 := attempted_add rfl d

theorem attempted_apply (n : Network) (d : Device Host κ τ) : Attempted 0 d (Run.apply n d).2 :=
  ⟨(UInt32.add_zero _).symm, rfl, [.apply n], Journal.toList_add _ _, by simp [Entry.warnsOfBacklog]⟩

/-- With room in the queue, the radio answers an attempt at a network with a name, and warns of nothing. -/
theorem attempted_connect (hname : d.outside.radio.name ≠ "") (hroom : d.queue.isFull = false) :
    (Run.connect d).1 = .ok () ∧ (Run.connect d).2.queue = d.queue.forward .gotAddress ∧
      Attempted 1 d (Run.connect d).2 := by
  obtain ⟨hok, hqueue, hattempts⟩ : (d.outside.radio.connect d.queue).result = .ok () ∧
      (d.outside.radio.connect d.queue).queue = d.queue.forward .gotAddress ∧
      (d.outside.radio.connect d.queue).radio.attempts = d.outside.radio.attempts + 1 := by
    rw [Radio.connect, if_neg hname]
    exact ⟨rfl, rfl, rfl⟩
  have hquiet := Radio.connect_warns hname d.queue
  rw [hroom, List.any_eq_false] at hquiet
  refine ⟨hok, hqueue, hattempts, rfl,
    .connect :: (d.outside.radio.connect d.queue).lines.map fun l => .note (.log l), ?_, ?_⟩
  · change ((d.journal.add .connect).addNotes ((d.outside.radio.connect d.queue).lines.map .log)).toList = _
    simp
  · simpa [Entry.warnsOfBacklog] using hquiet

/-- With room in the queue, an attempt at a network with a name is answered with an address. -/
theorem attempted_attempt {network : Network} (hn : c.networks.toList[c.attemptIndex]? = some network)
    (hname : network.name.text ≠ "") (hroom : d.queue.isFull = false) :
    (c.attempt d).1.1 = .ok () ∧ (c.attempt d).2.queue = d.queue.forward .gotAddress ∧
      Attempted 1 d (c.attempt d).2 := by
  let logged : Device Host κ τ :=
    (log .info ("LINK: trying '" ++ c.networkName c.attemptIndex ++
      s!"' ({c.attemptIndex + 1}/{c.networks.toList.length})") d).2
  let applied : Device Host κ τ := (Run.apply network logged).2
  let told : Device Host κ τ := (Run.emit (.linkAttempt c.attemptIndex) applied).2
  have hrun : c.attempt d = (((Run.connect told).1, c.advanced), (Run.connect told).2) := by
    unfold attempt
    simp only [hn]
    rfl
  have htold : Attempted 0 d told :=
    ((attempted_log _ _ d).trans (attempted_apply network logged)).trans (attempted_emit _ applied)
  obtain ⟨hok, hqueue, hconnect⟩ := attempted_connect (d := told) hname hroom
  rw [hrun]
  exact ⟨hok, hqueue, htold.trans hconnect⟩

/-- An event that starts an attempt does nothing else to the radio. -/
theorem handle_attempts {e : LinkEvent} (he : e.startsAttempt) (c : Connectivity) (d : Device Host κ τ) :
    ∃ (c' : Connectivity) (d' : Device Host κ τ), c.handle e d = c'.attempt d' ∧ c'.networks = c.networks ∧
      c'.attemptIndex = c.attemptIndex ∧ d'.queue = d.queue ∧ Attempted 0 d d' := by
  cases e with
  | stationStarted => exact ⟨c, _, rfl, rfl, rfl, rfl, attempted_log _ _ d⟩
  | gotAddress => cases he
  | disconnected reason =>
    let down : Connectivity := { c with status := .down, currentIndex := none }
    have fall (d' : Device Host κ τ) :
        Attempted 0 d' (Run.emit (.linkDown reason) (Run.act .linkDown (Run.act .bump d').2).2).2 :=
      ((attempted_act (fun _ => rfl) d').trans (attempted_act (fun _ => rfl) _)).trans (attempted_emit _ _)
    unfold handle
    by_cases hup : c.status = .up
    · simp only [if_pos hup]
      exact ⟨down, _, rfl, rfl, rfl, rfl, ((attempted_log _ _ d).trans (attempted_log _ _ _)).trans (fall _)⟩
    · simp only [if_neg hup]
      exact ⟨down, _, rfl, rfl, rfl, rfl, (attempted_log _ _ d).trans (fall _)⟩

/-- What the manager does with an event on a simulated radio: all goes well, and the answer joins the queue. -/
theorem attempted_handle (hvalid : ∀ n ∈ c.networks.toList, n.validate = .ok ()) (h : c.InRange) (e : LinkEvent)
    (hroom : d.queue.isFull = false) :
    (c.handle e d).1.1 = .ok () ∧ (c.handle e d).2.queue.events = d.queue.events ++ e.answer ∧
      Attempted e.answer.length d (c.handle e d).2 := by
  have attempts (he : e.startsAttempt) :
      (c.handle e d).1.1 = .ok () ∧ (c.handle e d).2.queue.events = d.queue.events ++ [.gotAddress] ∧
        Attempted 1 d (c.handle e d).2 := by
    obtain ⟨c', d', hrun, hnetworks, hindex, hqueue, hbefore⟩ := handle_attempts he c d
    have hlt := h.attempt_lt
    have hn : c'.networks.toList[c'.attemptIndex]? = some c.networks.toList[c.attemptIndex] := by
      rw [hnetworks, hindex, List.getElem?_eq_getElem hlt]
    have hname := Network.name_ne_empty (hvalid _ (List.getElem_mem hlt))
    obtain ⟨hok, hforward, hattempt⟩ := attempted_attempt hn hname (hqueue ▸ hroom)
    rw [hrun]
    refine ⟨hok, ?_, by simpa using hbefore.trans hattempt⟩
    rw [hforward, LinkQueue.events_forward, LinkQueue.backlog_of_room (hqueue ▸ hroom), hqueue]
  cases e with
  | stationStarted => exact attempts rfl
  | disconnected reason => exact attempts rfl
  | gotAddress =>
    let logged : Device Host κ τ := (log .debug ("LINK: GotAddress in " ++ c.status.name) d).2
    let up : Device Host κ τ := (Run.act (.linkUp c.inFlight) (Run.act .bump logged).2).2
    have hlogged : Attempted 0 d logged := attempted_log _ _ d
    have hup : Attempted 0 logged up := (attempted_act (fun _ => rfl) logged).trans (attempted_act (fun _ => rfl) _)
    have hrun : (c.handle .gotAddress d).2 = (Run.emit (.linkUp c.inFlight) up).2 := rfl
    refine ⟨rfl, (List.append_nil _).symm, ?_⟩
    rw [hrun]
    exact (hlogged.trans hup).trans (attempted_emit _ up)

/-- What holds in front of every event, when the station has been told to join these networks. -/
structure Draining (networks : NetworkList) (ns : List Network) (c : Connectivity) (d : Device Host κ τ) : Prop where
  rotates : Rotates networks ns c
  inRange : c.InRange
  bounded : d.queue.events.length ≤ LinkQueue.capacity
  current (h : c.status = .up) : c.currentIndex = some c.inFlight ∧ d.signals.link.current = some c.inFlight

theorem length_candidate? (h : c.InRange) (e : LinkEvent) : (c.candidate? e).toList.length = e.answer.length := by
  cases e <;> simp [candidate?, LinkEvent.answer, LinkEvent.startsAttempt, h.attempt_lt]

/-- One event: all goes well with it, and the answer to it takes its place in the queue. -/
theorem Draining.step (hvalid : ∀ n ∈ networks.toList, n.validate = .ok ()) (hne : networks.toList ≠ [])
    (h : Draining networks ns c d) {e : LinkEvent} {rest : List LinkEvent} (hq : d.queue.events = e :: rest) :
    ∃ d₁, c.handle e { d with queue := ⟨rest⟩ } = ((.ok (), c.after e), d₁) ∧ d₁.queue.events = rest ++ e.answer ∧
      Attempted e.answer.length d d₁ ∧ Draining networks (ns ++ (c.candidate? e).toList) (c.after e) d₁ := by
  let taken : Device Host κ τ := { d with queue := ⟨rest⟩ }
  have hlength : rest.length < LinkQueue.capacity := by
    have := h.bounded
    rw [hq, List.length_cons] at this
    exact this
  have hroom : taken.queue.isFull = false := decide_eq_false (Nat.not_le_of_lt hlength)
  obtain ⟨hok, hqueue, hattempted⟩ := attempted_handle (d := taken) (h.rotates.same ▸ hvalid) h.inRange e hroom
  obtain ⟨-, -, -, hafter, -⟩ := handle_leaves c e taken
  refine ⟨(c.handle e taken).2, ?_, hqueue, ⟨hattempted.attempts, hattempted.restart, hattempted.journal⟩,
    h.rotates.after hne e, h.inRange.after e, ?_, fun hup => ?_⟩
  · rw [← hok, ← hafter]
    rfl
  · rw [hqueue, List.length_append]
    have : e.answer.length ≤ 1 := by cases e <;> simp [LinkEvent.answer, LinkEvent.startsAttempt]
    change rest.length + _ ≤ _
    omega
  · obtain rfl := (c.status_after e).1 hup
    refine ⟨rfl, ?_⟩
    have hlt : c.inFlight < networks.toList.length := h.rotates.same ▸ h.inRange.inFlight_lt
    exact Link.current_setUp (index_lt_size hlt)

/-- The manager receives and handles these events until none waits. -/
inductive Drains : Connectivity → Device Host κ τ → List LinkEvent → Connectivity → Device Host κ τ → Prop
  | empty {c : Connectivity} {d : Device Host κ τ} (h : d.queue.receive? = none) : Drains c d [] c d
  | event {c c₁ c' : Connectivity} {d d₁ d' : Device Host κ τ} {e : LinkEvent} {queue : LinkQueue}
      {later : List LinkEvent} (h : d.queue.receive? = some (e, queue))
      (hhandle : c.handle e { d with queue } = ((.ok (), c₁), d₁)) (hlater : Drains c₁ d₁ later c' d') :
      Drains c d (e :: later) c' d'

theorem Drains.unique {c c' c'' : Connectivity} {received received' : List LinkEvent}
    (h : Drains c d received c' d') (h' : Drains c d received' c'' d'') : received' = received ∧ c'' = c' ∧ d'' = d' := by
  induction h generalizing received' with
  | empty hnone =>
    cases h' with
    | empty => exact ⟨rfl, rfl, rfl⟩
    | event hsome => rw [hnone] at hsome; cases hsome
  | event hsome hhandle hlater ih =>
    cases h' with
    | empty hnone => rw [hnone] at hsome; cases hsome
    | event hsome' hhandle' hlater' =>
      obtain ⟨rfl, rfl⟩ := Prod.mk.inj (Option.some.inj (hsome'.symm.trans hsome))
      obtain ⟨hc, rfl⟩ := Prod.mk.inj (hhandle'.symm.trans hhandle)
      obtain ⟨-, rfl⟩ := Prod.mk.inj hc
      obtain ⟨rfl, rfl, rfl⟩ := ih hlater'
      exact ⟨rfl, rfl, rfl⟩

theorem receive?_eq_none {q : LinkQueue} (hq : q.events = []) : q.receive? = none := by
  rw [LinkQueue.receive?, hq]

theorem receive?_eq_some {q : LinkQueue} {e : LinkEvent} {rest : List LinkEvent} (hq : q.events = e :: rest) :
    q.receive? = some (e, ⟨rest⟩) := by
  rw [LinkQueue.receive?, hq]

theorem linkStep_of_empty (hq : d.queue.receive? = none) : Tasks.linkStep c d = ((.waiting, c), d) := by
  unfold Tasks.linkStep
  simp only [bind, StateT.bind, get, getThe, MonadStateOf.get, StateT.get, pure, hq]
  rfl

/-- With no restart pending, the link task does with an event what the manager does. -/
theorem linkStep_of_event {c₁ : Connectivity} {d₁ : Device Host κ τ} {e : LinkEvent} {queue : LinkQueue}
    (hgoing : d.signals.halting = false) (hq : d.queue.receive? = some (e, queue))
    (hhandle : c.handle e { d with queue } = ((.ok (), c₁), d₁)) : Tasks.linkStep c d = ((.handled, c₁), d₁) := by
  have htaken : (Run.halting : Run Host κ τ Bool) { d with queue } = (false, { d with queue }) := Prod.ext hgoing rfl
  unfold Tasks.linkStep
  simp only [bind, StateT.bind, get, getThe, MonadStateOf.get, StateT.get, modify, modifyGet, MonadStateOf.modifyGet,
    StateT.modifyGet, pure, hq, htaken, Bool.false_eq_true, if_false, hhandle]
  rfl

/-- Event by event until the queue is empty. The induction is on what will be received; an event that is not an address
leaves one behind, so the last event to be received is an address. -/
theorem Draining.run (hvalid : ∀ n ∈ networks.toList, n.validate = .ok ()) (hne : networks.toList ≠ [])
    (h : Draining networks ns c d) :
    ∃ (c' : Connectivity) (d' : Device Host κ τ) (ns' : List Network), Drains c d d.queue.course c' d' ∧
      ns'.length = ns.length + d.queue.events.countP LinkEvent.startsAttempt ∧ Draining networks ns' c' d' ∧
      Attempted (d.queue.events.countP LinkEvent.startsAttempt) d d' ∧
      (c.status = .up ∨ d.queue.events ≠ [] → c'.status = .up) ∧
      (d.signals.halting = false → Tasks.link c d = ((.waiting, c'), d')) := by
  generalize hcourse : d.queue.course = course
  induction course generalizing ns c d with
  | nil =>
    have hq : d.queue.events = [] := (List.append_eq_nil_iff.1 hcourse).1
    have hnone := receive?_eq_none hq
    rw [hq]
    refine ⟨c, d, ns, .empty hnone, rfl, h, .refl d, ?_, fun _ => ?_⟩
    · rintro (hup | hsome)
      · exact hup
      · exact absurd rfl hsome
    · rw [Tasks.link, linkStep_of_empty hnone]
  | cons e later ih =>
    obtain ⟨rest, hq⟩ : ∃ rest, d.queue.events = e :: rest := by
      rcases hq : d.queue.events with _ | ⟨e', rest⟩
      · simp [LinkQueue.course, hq] at hcourse
      · simp only [LinkQueue.course, hq, List.cons_append, List.cons.injEq] at hcourse
        exact ⟨rest, hcourse.1 ▸ rfl⟩
    obtain ⟨d₁, hhandle, hqueue, hattempted, h₁⟩ := h.step hvalid hne hq
    have hlater := LinkQueue.course_cons hq hqueue
    have hcount : d.queue.events.countP LinkEvent.startsAttempt =
        e.answer.length + d₁.queue.events.countP LinkEvent.startsAttempt := by
      rw [hq, hqueue, List.countP_cons, List.countP_append, Nat.add_comm]
      cases e <;> rfl
    obtain ⟨c', d', ns', hdrains, hns, h', hrest, hup, hlink⟩ := ih h₁ (List.cons.inj (hlater.symm.trans hcourse)).2
    refine ⟨c', d', ns', .event (receive?_eq_some hq) hhandle hdrains, ?_, h', ?_, fun _ => hup ?_, fun hgoing => ?_⟩
    · rw [hns, hcount, List.length_append, length_candidate? h.inRange, Nat.add_assoc]
    · rw [hcount]
      exact hattempted.trans hrest
    · cases e with
      | gotAddress => exact Or.inl rfl
      | stationStarted => exact Or.inr (by simp [hqueue, LinkEvent.answer, LinkEvent.startsAttempt])
      | disconnected reason => exact Or.inr (by simp [hqueue, LinkEvent.answer, LinkEvent.startsAttempt])
    · have hgoing₁ : d₁.signals.halting = false := by
        rw [Signals.halting, hattempted.restart]
        exact hgoing
      have hlighter : Tasks.weight d₁.queue < Tasks.weight d.queue := by
        rw [Tasks.weight_eq, Tasks.weight_eq, hlater]
        exact Nat.lt_succ_self _
      rw [Tasks.link, linkStep_of_event hgoing (receive?_eq_some hq) hhandle]
      simp only [if_pos hlighter]
      exact hlink hgoing₁

/-- What has come of working off a queue on a fresh radio. -/
structure Drained (networks : NetworkList) (c : Connectivity) (d : Device Host κ τ) (received : List LinkEvent)
    (c' : Connectivity) (d' : Device Host κ τ) : Prop where
  /-- Nothing that waited or was forwarded got lost. -/
  whole : received = d.queue.course
  length : received.length = d.queue.events.length + d.queue.events.countP LinkEvent.startsAttempt
  room (x : Entry) (h : x ∈ d'.journal.since d.journal) : x.warnsOfBacklog = false
  attempts : d'.outside.radio.attempts.toNat = d.queue.events.countP LinkEvent.startsAttempt
  up (h : d.queue.events ≠ []) : c'.status = .up ∧
    c'.currentIndex = some (lastTried networks (d.queue.events.countP LinkEvent.startsAttempt)) ∧
    d'.signals.link.current = some (lastTried networks (d.queue.events.countP LinkEvent.startsAttempt))
  task (h : d.signals.halting = false) : Tasks.link c d = ((.waiting, c'), d')

/-- A fresh manager with usable candidates on a fresh simulated radio works off any queue. It receives all that waited and
one address for each attempt, no forward finds the queue full, and unless nothing waited the link ends up on the candidate
of the last attempt. -/
theorem draining_ends_up_on_the_last_candidate (hnew : new networks = .ok c)
    (hvalid : ∀ n ∈ networks.toList, n.validate = .ok ()) (d : Device Host κ τ) (hfresh : d.outside.radio = {})
    (hbounded : d.queue.events.length ≤ LinkQueue.capacity) :
    (∃ received c' d', Drains c d received c' d') ∧
      ∀ received c' d', Drains c d received c' d' → Drained networks c d received c' d' := by
  obtain ⟨hne, -, hrotates⟩ := rotates_new hnew
  obtain ⟨-, hrange⟩ := inRange_new hnew
  have hdown : c.status = .down := by
    unfold new at hnew
    rw [if_neg hne] at hnew
    exact (Except.ok.inj hnew) ▸ rfl
  have hstart : Draining networks [] c d := ⟨hrotates, hrange, hbounded, fun hup => nomatch hdown.symm.trans hup⟩
  obtain ⟨c', d', ns, hdrains, hns, hend, hattempted, hup, hlink⟩ := hstart.run hvalid hne
  refine ⟨⟨_, c', d', hdrains⟩, fun received c'' d'' h => ?_⟩
  obtain ⟨rfl, rfl, rfl⟩ := hdrains.unique h
  rw [List.length_nil, Nat.zero_add] at hns
  refine ⟨rfl, d.queue.length_course, fun x hx => ?_, ?_, fun hsome => ?_, hlink⟩
  · obtain ⟨t, hj, ht⟩ := hattempted.journal
    rw [Journal.since_eq hj] at hx
    exact ht x hx
  · have hfits : d.queue.events.countP LinkEvent.startsAttempt < UInt32.size :=
      Nat.lt_of_le_of_lt (List.countP_le_length.trans hbounded) (by decide)
    rw [hattempted.attempts, hfresh]
    exact (congrArg UInt32.toNat (UInt32.zero_add _)).trans (UInt32.toNat_ofNat_of_lt' hfits)
  · have hstatus := hup (Or.inr hsome)
    rw [← hns, ← hend.rotates.inFlight]
    exact ⟨hstatus, hend.current hstatus⟩

/-- A start of the station, a loss and an address wait for a fob on a host. -/
def waiting : Device Host MemoryStore Bench.AnyToken where
  outside := {}
  store := {}
  token := .scripted {}
  queue := ⟨[.stationStarted, .disconnected 8, .gotAddress]⟩

/-- The first candidate is tried, then the second, and the link ends up on that one. -/
theorem draining_behind_a_start_and_a_loss :
    new pair = .ok { networks := pair } ∧ (∀ n ∈ pair.toList, n.validate = .ok ()) ∧ waiting.outside.radio = {} ∧
      waiting.queue.events.length ≤ LinkQueue.capacity ∧
      ∃ c' d', Drains { networks := pair } waiting
          [.stationStarted, .disconnected 8, .gotAddress, .gotAddress, .gotAddress] c' d' ∧
        c'.status = .up ∧ c'.currentIndex = some 1 := by
  have hnew : new pair = .ok { networks := pair } := rfl
  have hvalid : ∀ n ∈ pair.toList, n.validate = .ok () := by decide +kernel
  have hbounded : waiting.queue.events.length ≤ LinkQueue.capacity := by decide
  obtain ⟨⟨received, c', d', hdrains⟩, hdrained⟩ :=
    draining_ends_up_on_the_last_candidate hnew hvalid waiting rfl hbounded
  have hend := hdrained received c' d' hdrains
  obtain rfl : received = [.stationStarted, .disconnected 8, .gotAddress, .gotAddress, .gotAddress] := hend.whole
  obtain ⟨hup, hcurrent, -⟩ := hend.up (List.cons_ne_nil _ _)
  exact ⟨hnew, hvalid, rfl, hbounded, c', d', hdrains, hup, hcurrent⟩

end Connectivity

end KeyFob
