import KeyFob.Proofs.Connectivity.Agreement
import KeyFob.Proofs.LinkQueue

/-!
What a full queue costs the link. Behind any events the link is as the last transition among them left it, so a backlog may
go as long as the event that it makes way for is a transition itself. A start of the station is none: where it meets a full
queue whose last transition would have changed the link, this change is lost.
-/

namespace KeyFob

def LinkEvent.raises? : LinkEvent → Option Bool
  | stationStarted => none
  | gotAddress => some true
  | disconnected _ => some false

def lastTransition? (events : List LinkEvent) : Option Bool := (events.filterMap LinkEvent.raises?).getLast?

theorem lastTransition?_cons (e : LinkEvent) (events : List LinkEvent) :
    lastTransition? (e :: events) = (lastTransition? events).or e.raises? := by
  cases h : e.raises? with
  | none => rw [lastTransition?, List.filterMap_cons_none h, Option.or_none, lastTransition?]
  | some up =>
    rw [lastTransition?, List.filterMap_cons_some h, List.getLast?_cons, lastTransition?]
    cases (events.filterMap LinkEvent.raises?).getLast? <;> rfl

theorem lastTransition?_concat (events : List LinkEvent) (e : LinkEvent) :
    lastTransition? (events ++ [e]) = e.raises?.or (lastTransition? events) := by
  rw [lastTransition?, List.filterMap_append, List.getLast?_append, List.filterMap_cons, List.filterMap_nil]
  cases e.raises? <;> rfl

namespace LinkQueue

theorem lastTransition?_backlog (q : LinkQueue) (e : LinkEvent) :
    lastTransition? (q.backlog e) = if q.isFull then none else lastTransition? q.events := by
  unfold backlog
  cases q.isFull with
  | false => rfl
  | true =>
    rw [if_pos rfl, if_pos rfl]
    split <;> rfl

/-- The event costs the queue the transition that would have changed the link. -/
def LosesTransition (q : LinkQueue) (e : LinkEvent) (up : Bool) : Prop :=
  q.isFull ∧ e = .stationStarted ∧ lastTransition? q.events = some (!up)

end LinkQueue

namespace Connectivity

/-- The candidates of the attempt under way and of the next one are among the networks. -/
structure InRange (c : Connectivity) : Prop where
  attempt_lt : c.attemptIndex < c.networks.toList.length
  inFlight_lt : c.inFlight < c.networks.toList.length

variable {c : Connectivity}

theorem InRange.advanced (h : c.InRange) : c.advanced.InRange :=
  ⟨Nat.mod_lt _ (Nat.zero_lt_of_lt h.attempt_lt), h.attempt_lt⟩

theorem InRange.after (h : c.InRange) (e : LinkEvent) : (c.after e).InRange := by
  cases e with
  | stationStarted => exact h.advanced
  | gotAddress => exact ⟨h.attempt_lt, h.inFlight_lt⟩
  | disconnected reason => exact advanced ⟨h.attempt_lt, h.inFlight_lt⟩

variable {ε κ τ : Type} [Surroundings ε] (halone : LinkUntouched ε)

include halone in
theorem handle_link (h : c.InRange) (e : LinkEvent) (d : Device ε κ τ) :
    (c.handle e d).2.signals.link.current.isSome = e.raises?.getD d.signals.link.current.isSome := by
  rw [(handle_applies halone c e d).1]
  cases e with
  | stationStarted => rfl
  | gotAddress => exact congrArg Option.isSome (Link.current_setUp (index_lt_size h.inFlight_lt))
  | disconnected reason => rfl

include halone in
/-- Behind any events the link is as the last transition among them left it. -/
theorem handleAll_link (h : c.InRange) (events : List LinkEvent) (d : Device ε κ τ) :
    (c.handleAll events d).2.signals.link.current.isSome =
      (lastTransition? events).getD d.signals.link.current.isSome := by
  induction events generalizing c d with
  | nil => rfl
  | cons e rest ih =>
    obtain ⟨-, -, -, hc, -⟩ := handle_leaves c e d
    have hrest := ih (c := (c.handle e d).1.2) (hc ▸ h.after e) (c.handle e d).2
    rw [handle_link halone h] at hrest
    refine hrest.trans ?_
    rw [lastTransition?_cons]
    cases lastTransition? rest <;> rfl

include halone in
/-- Handling what a forward leaves in the queue ends with the link as it would have ended had nothing been given up, unless
the event costs the queue the transition that would have changed the link. -/
theorem link_kept_unless_transition_lost (h : c.InRange) (q : LinkQueue) (e : LinkEvent) (d : Device ε κ τ) :
    ((c.handleAll (q.forward e).events d).2.signals.link.current.isSome =
      (c.handleAll (q.events ++ [e]) d).2.signals.link.current.isSome) ↔
        ¬ q.LosesTransition e d.signals.link.current.isSome := by
  rw [handleAll_link halone h, handleAll_link halone h, LinkQueue.events_forward, lastTransition?_concat,
    lastTransition?_concat, LinkQueue.lastTransition?_backlog, LinkQueue.LosesTransition]
  cases e with
  | gotAddress => exact iff_of_true rfl (fun hloses => nomatch hloses.2.1)
  | disconnected reason => exact iff_of_true rfl (fun hloses => nomatch hloses.2.1)
  | stationStarted =>
    cases hfull : q.isFull with
    | false => exact iff_of_true rfl (fun hloses => nomatch hloses.1)
    | true =>
      rcases hlast : lastTransition? q.events with _ | up
      · simp
      · cases up <;> cases d.signals.link.current.isSome <;> simp [LinkEvent.raises?]

def failures : LinkQueue := ⟨List.replicate 7 (.disconnected 8) ++ [.gotAddress]⟩

/-- A start of the station costs the full queue the address that it ends with, and the link stays down. -/
theorem address_lost_behind_a_start :
    failures.isFull ∧ (failures.forward .stationStarted).events = [.stationStarted] ∧
      (handleAll { networks := pair } (failures.forward .stationStarted).events obliged).2.signals.link.current = none ∧
      (handleAll { networks := pair } (failures.events ++ [.stationStarted]) obliged).2.signals.link.current.isSome := by
  decide +kernel

/-- A loss of the link costs the same queue all that waits, and the link stays down as it should. -/
theorem link_kept_behind_a_loss : InRange { networks := pair } ∧ LinkUntouched Bench.Plan ∧ failures.isFull ∧
    (handleAll { networks := pair } (failures.forward (.disconnected 2)).events obliged).2.signals.link.current.isSome =
      (handleAll { networks := pair } (failures.events ++ [.disconnected 2]) obliged).2.signals.link.current.isSome := by
  have hrange : InRange { networks := pair } := ⟨by decide, by decide⟩
  have hkept := (link_kept_unless_transition_lost linkUntouched_plan hrange failures (.disconnected 2) obliged).2
  exact ⟨hrange, linkUntouched_plan, by decide, hkept fun hloses => nomatch hloses.2.1⟩

end Connectivity

end KeyFob
