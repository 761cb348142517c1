import KeyFob.LinkQueue

/-!
Any number of calls on the link queue. An event that meets a full queue costs the backlog, but what is received stays in
the order in which it was forwarded, the newest event is always the last to wait, and a start of the station that waits
goes on waiting. Until the first such event nothing is lost and nothing comes twice.
-/

namespace KeyFob.LinkQueue

/-- What the radio and the link task do to the queue. -/
inductive Call
  | forward (e : LinkEvent)
  | receive
deriving DecidableEq, Repr

/-- A queue with what has been put into it and taken out of it, oldest first. -/
structure Traffic where
  queue : LinkQueue := {}
  forwarded : List LinkEvent := []
  received : List LinkEvent := []
  /-- An event has met a full queue. -/
  overflowed : Bool := false
deriving DecidableEq, Repr

namespace Traffic

def call (t : Traffic) : Call → Traffic
  | .forward e =>
    { t with
      queue := t.queue.forward e
      forwarded := t.forwarded ++ [e]
      overflowed := t.overflowed || t.queue.isFull }
  | .receive =>
    match t.queue.receive? with
    | none => t
    | some (e, queue) => { t with queue, received := t.received ++ [e] }

def ofCalls (calls : List Call) : Traffic := calls.foldl call {}

end Traffic

/-- What stays of the backlog when an event comes in. -/
def backlog (q : LinkQueue) (e : LinkEvent) : List LinkEvent :=
  if q.isFull then (if q.events.contains .stationStarted ∧ e ≠ .stationStarted then [.stationStarted] else [])
  else q.events

theorem events_forward (q : LinkQueue) (e : LinkEvent) : (q.forward e).events = q.backlog e ++ [e] := by
  unfold forward send? collapse backlog
  cases q.isFull with
  | false => rfl
  | true =>
    simp only [if_true, Option.getD_none]
    split <;> rfl

theorem backlog_of_room {q : LinkQueue} (h : q.isFull = false) (e : LinkEvent) : q.backlog e = q.events := by
  simp [backlog, h]

theorem backlog_sublist (q : LinkQueue) (e : LinkEvent) : (q.backlog e).Sublist q.events := by
  unfold backlog
  split
  · split
    · next h => exact List.singleton_sublist.2 (List.contains_iff_mem.1 h.1)
    · exact List.nil_sublist _
  · exact List.Sublist.refl _

theorem length_backlog_lt (q : LinkQueue) (e : LinkEvent) : (q.backlog e).length < capacity := by
  unfold backlog
  split
  · split
    · decide
    · decide
  · next h => exact Nat.lt_of_not_le fun hle => h (decide_eq_true hle)

/-- A start of the station gets lost only where another takes its place. -/
theorem started_of_backlog {q : LinkQueue} (h : .stationStarted ∈ q.events) (e : LinkEvent) :
    .stationStarted ∈ q.backlog e ∨ e = .stationStarted := by
  by_cases he : e = .stationStarted
  · exact Or.inr he
  · refine Or.inl ?_
    unfold backlog
    split
    · rw [if_pos ⟨List.contains_iff_mem.2 h, he⟩]
      exact List.mem_singleton_self _
    · exact h

namespace Traffic

/-- What holds of a queue that started empty. -/
structure Orderly (t : Traffic) : Prop where
  bounded : t.queue.events.length ≤ capacity
  inOrder : (t.received ++ t.queue.events).Sublist t.forwarded
  whole (h : t.overflowed = false) : t.received ++ t.queue.events = t.forwarded

theorem orderly_nil : Orderly {} := ⟨Nat.zero_le _, List.Sublist.refl _, fun _ => rfl⟩

variable {t : Traffic}

theorem Orderly.forward (h : t.Orderly) (e : LinkEvent) : (t.call (.forward e)).Orderly := by
  refine ⟨?_, ?_, fun hroom => ?_⟩
  · change (t.queue.forward e).events.length ≤ capacity
    rw [events_forward, List.length_append]
    exact length_backlog_lt t.queue e
  · change (t.received ++ (t.queue.forward e).events).Sublist (t.forwarded ++ [e])
    rw [events_forward, ← List.append_assoc]
    refine List.Sublist.append ?_ (List.Sublist.refl _)
    exact ((List.Sublist.refl _).append (backlog_sublist t.queue e)).trans h.inOrder
  · obtain ⟨hwhole, hfull⟩ := Bool.or_eq_false_iff.1 hroom
    change t.received ++ (t.queue.forward e).events = t.forwarded ++ [e]
    rw [events_forward, backlog_of_room hfull, ← List.append_assoc, h.whole hwhole]

theorem Orderly.receive (h : t.Orderly) : (t.call .receive).Orderly := by
  unfold call receive?
  cases hq : t.queue.events with
  | nil => exact h
  | cons e rest =>
    have hsame : t.received ++ [e] ++ rest = t.received ++ t.queue.events := by
      rw [hq, List.append_assoc]
      rfl
    refine ⟨?_, ?_, fun hroom => ?_⟩
    · have := h.bounded
      rw [hq, List.length_cons] at this
      exact Nat.le_of_succ_le this
    · change (t.received ++ [e] ++ rest).Sublist t.forwarded
      rw [hsame]
      exact h.inOrder
    · change t.received ++ [e] ++ rest = t.forwarded
      rw [hsame]
      exact h.whole hroom

theorem orderly_ofCalls (calls : List Call) : (ofCalls calls).Orderly := by
  have run : ∀ t : Traffic, t.Orderly → (calls.foldl call t).Orderly := by
    induction calls with
    | nil => exact fun _ h => h
    | cons c rest ih =>
      intro t h
      cases c with
      | forward e => exact ih _ (h.forward e)
      | receive => exact ih _ h.receive
  exact run {} orderly_nil

/-- After any calls the queue holds no more than eight events, and the next one to be forwarded will be its last, with a
start of the station still waiting if one was. What has been received is in the order in which it was forwarded, and as
long as no event has met a full queue it is all of that but for what waits. -/
theorem newest_waits_last_and_order_is_kept (calls : List Call) :
    let t := ofCalls calls
    t.queue.events.length ≤ 8 ∧
    (∀ e, (t.queue.forward e).events.getLast? = some e ∧
      (.stationStarted ∈ t.queue.events → .stationStarted ∈ (t.queue.forward e).events)) ∧
    t.received.Sublist t.forwarded ∧
    (t.overflowed = false → t.received <+: t.forwarded ∧ t.received ++ t.queue.events = t.forwarded) := by
  intro t
  have h : t.Orderly := orderly_ofCalls calls
  refine ⟨h.bounded, fun e => ⟨?_, fun hstart => ?_⟩, ?_, fun hroom => ?_⟩
  · rw [events_forward]
    simp
  · rw [events_forward, List.mem_append, List.mem_singleton]
    exact (started_of_backlog hstart e).imp_right Eq.symm
  · exact (List.sublist_append_left _ _).trans h.inOrder
  · have hwhole := h.whole hroom
    exact ⟨⟨_, hwhole⟩, hwhole⟩

/-- A ninth event takes the place of all but the waiting start. -/
example : (ofCalls (.forward .stationStarted :: List.replicate 8 (.forward .gotAddress))).queue.events =
    [.stationStarted, .gotAddress] := rfl

end Traffic

end KeyFob.LinkQueue
