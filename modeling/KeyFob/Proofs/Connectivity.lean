import KeyFob.Proofs.Journal.Leaves
import KeyFob.Tasks

/-!
The order in which the link task writes. Each transition moves the epoch and then stores the link word, so that in
whatever way a journal mixes these writes with other steps, a bump stands in front of every link that was set up.
-/

namespace KeyFob

inductive Transition
  | up (index : Nat)
  | down
deriving DecidableEq, Repr

def Transition.writes : Transition → List Action
  | up index => [.bump, .linkUp index]
  | down => [.bump, .linkDown]

def LinkEvent.transitions (inFlight : Nat) : LinkEvent → List Transition
  | stationStarted => []
  | gotAddress => [.up inFlight]
  | disconnected _ => [.down]

def Entry.linkWrite? : Entry → Option Action
  | acted .bump => some .bump
  | acted (.linkUp index) => some (.linkUp index)
  | acted .linkDown => some .linkDown
  | _ => none

/-- The writes of the link task. -/
def linkWrites (t : List Entry) : List Action := t.filterMap Entry.linkWrite?

/-- The journal shows the writes of a number of transitions, of which the last may be under way. -/
def InLinkOrder (t : List Entry) : Prop := ∃ ts : List Transition, linkWrites t <+: ts.flatMap Transition.writes

theorem linkWrites_append (t u : List Entry) : linkWrites (t ++ u) = linkWrites t ++ linkWrites u :=
  List.filterMap_append

theorem bump_before_linkUp {ts : List Transition} {p q : List Action} {index : Nat}
    (h : p ++ .linkUp index :: q <+: ts.flatMap Transition.writes) : ∃ p' : List Action, p = p' ++ [.bump] := by
  induction ts generalizing p with
  | nil => simp at h
  | cons t ts ih =>
    obtain ⟨store, hw⟩ : ∃ store, t.writes = [.bump, store] := by
      cases t with
      | up i => exact ⟨.linkUp i, rfl⟩
      | down => exact ⟨.linkDown, rfl⟩
    rw [List.flatMap_cons, hw] at h
    cases p with
    | nil =>
      have := (List.cons_prefix_cons.1 h).1
      cases this
    | cons x p =>
      obtain ⟨rfl, h'⟩ := List.cons_prefix_cons.1 h
      cases p with
      | nil => exact ⟨[], rfl⟩
      | cons y p =>
        obtain ⟨p', rfl⟩ := ih (List.cons_prefix_cons.1 h').2
        exact ⟨.bump :: y :: p', rfl⟩

/-- In front of a link that was set up stands the bump of the same transition, with no other write in between. -/
theorem InLinkOrder.bump {a b : List Entry} {index : Nat} (h : InLinkOrder (a ++ .acted (.linkUp index) :: b)) :
    ∃ u m : List Entry, a = u ++ .acted .bump :: m ∧ linkWrites m = [] := by
  obtain ⟨ts, hts⟩ := h
  have hw : linkWrites (a ++ .acted (.linkUp index) :: b) = linkWrites a ++ .linkUp index :: linkWrites b :=
    linkWrites_append a _
  rw [hw] at hts
  obtain ⟨p, hp⟩ := bump_before_linkUp hts
  obtain ⟨u, v, rfl, -, hv⟩ := List.filterMap_eq_append_iff.1 hp
  obtain ⟨w, x, m, rfl, hw, hx, hm⟩ := List.filterMap_eq_cons_iff.1 hv
  obtain rfl : x = .acted .bump := by
    cases x with
    | acted a => cases a <;> first | rfl | cases hx
    | _ => cases hx
  exact ⟨u ++ w, m, by simp, hm⟩

/-- Nobody else moves the epoch or writes the link word, whatever else they do to the signals. -/
structure LinkUntouched (ε : Type) [Surroundings ε] : Prop where
  told (e : Event) (x : ε) : linkWrites ((Surroundings.told e x).1.map .acted) = []
  meanwhile (x : ε) : linkWrites ((Surroundings.meanwhile x).1.map .acted) = []

/-- An activity that writes just so much. -/
def Writes {ε κ τ α : Type} (m : Run ε κ τ α) (as : List Action) : Prop :=
  ∀ d, ∃ t, (m d).2.journal.toList = d.journal.toList ++ t ∧ linkWrites t = as

/-- An activity that writes whole transitions. -/
def WritesTransitions {ε κ τ α : Type} (m : Run ε κ τ α) : Prop :=
  ∀ d, ∃ t, (m d).2.journal.toList = d.journal.toList ++ t ∧
    ∃ ts : List Transition, linkWrites t = ts.flatMap Transition.writes

section

variable {ε κ τ α β : Type} {m : Run ε κ τ α} {f : α → Run ε κ τ β} {as bs : List Action}

theorem Writes.bind (bs : List Action) (hm : Writes m as) (hf : ∀ a, Writes (f a) bs) :
    Writes (m >>= f) (as ++ bs) := by
  intro d
  obtain ⟨t, hj, ht⟩ := hm d
  obtain ⟨u, hj', hu⟩ := hf (m d).1 (m d).2
  refine ⟨t ++ u, ?_, by rw [linkWrites_append, ht, hu]⟩
  rw [← List.append_assoc, ← hj]
  exact hj'

theorem Writes.skip (hm : Writes m []) (hf : ∀ a, Writes (f a) bs) : Writes (m >>= f) bs := hm.bind _ hf

theorem writes_of_same (hj : ∀ d, (m d).2.journal = d.journal) : Writes m [] :=
  fun d => ⟨[], by rw [hj, List.append_nil], rfl⟩

theorem Writes.pure (a : α) : Writes (Pure.pure a : Run ε κ τ α) [] := writes_of_same fun _ => rfl

theorem writes_get : Writes (get : Run ε κ τ (Device ε κ τ)) [] := writes_of_same fun _ => rfl

theorem writes_add {e : Entry} (he : e.linkWrite? = none) : Writes (Run.add e : Run ε κ τ Unit) [] :=
  fun _ => ⟨[e], Journal.toList_add _ _, by simp [linkWrites, he]⟩

theorem writes_act (a : Action) : Writes (Run.act a : Run ε κ τ Unit) (linkWrites [.acted a]) :=
  fun _ => ⟨[.acted a], Journal.toList_add _ _, rfl⟩

theorem Writes.transitions (hm : Writes m []) : WritesTransitions m := fun d =>
  have ⟨t, hj, ht⟩ := hm d
  ⟨t, hj, [], ht⟩

theorem WritesTransitions.bind (hm : WritesTransitions m) (hf : ∀ a, WritesTransitions (f a)) :
    WritesTransitions (m >>= f) := by
  intro d
  obtain ⟨t, hj, ts, ht⟩ := hm d
  obtain ⟨u, hj', us, hu⟩ := hf (m d).1 (m d).2
  refine ⟨t ++ u, ?_, ts ++ us, by rw [linkWrites_append, ht, hu, List.flatMap_append]⟩
  rw [← List.append_assoc, ← hj]
  exact hj'

theorem writes_actAll (as : List Action) : Writes (Run.actAll as : Run ε κ τ Unit) (linkWrites (as.map .acted)) :=
  fun d => ⟨as.map .acted, by simp [Run.actAll_eq, Journal.toList], rfl⟩

variable [Surroundings ε] (halone : LinkUntouched ε)

include halone in
theorem writes_emit (e : Event) : Writes (Run.emit e : Run ε κ τ Unit) [] := by
  refine (writes_add rfl).skip fun _ d => ?_
  obtain ⟨t, hj, ht⟩ := writes_actAll (Surroundings.told e d.outside).1
    { d with outside := (Surroundings.told e d.outside).2 }
  exact ⟨t, hj, ht.trans (halone.told e d.outside)⟩

include halone in
theorem writes_halting : Writes (Run.halting : Run ε κ τ Bool) [] := by
  intro d
  obtain ⟨t, hj, ht⟩ := writes_actAll (Surroundings.meanwhile d.outside).1
    { d with outside := (Surroundings.meanwhile d.outside).2 }
  exact ⟨t, hj, ht.trans (halone.meanwhile d.outside)⟩

theorem writes_apply (n : Config.Network) : Writes (Run.apply n : Run ε κ τ _) [] :=
  (writes_add rfl).skip fun _ _ => ⟨[], (List.append_nil _).symm, rfl⟩

theorem writes_connect : Writes (Run.connect : Run ε κ τ _) [] := by
  refine (writes_add rfl).skip fun _ d => ?_
  exact ⟨_, Journal.toList_addNotes _ _, by simp [linkWrites, Entry.linkWrite?]⟩

include halone in
theorem writes_attempt (c : Connectivity) : Writes (c.attempt : Run ε κ τ _) [] := by
  unfold Connectivity.attempt
  refine (writes_add rfl).skip fun _ => ?_
  dsimp only
  split
  · exact .pure _
  · refine (writes_apply _).skip fun r => ?_
    cases r with
    | error e => exact .pure _
    | ok _ => exact (writes_emit halone _).skip fun _ => writes_connect.skip fun _ => .pure _

include halone in
/-- Handling an event writes its transition. -/
theorem handle_writes (c : Connectivity) (e : LinkEvent) :
    Writes (c.handle e : Run ε κ τ _) ((e.transitions c.inFlight).flatMap Transition.writes) := by
  unfold Connectivity.handle
  refine (writes_add rfl).skip fun _ => ?_
  cases e with
  | stationStarted => exact writes_attempt halone c
  | gotAddress =>
    refine (writes_act .bump).bind [.linkUp c.inFlight] fun _ => ?_
    refine (writes_act (.linkUp c.inFlight)).bind [] fun _ => ?_
    exact (writes_emit halone _).skip fun _ => .pure _
  | disconnected reason =>
    have down : Writes (do
        Run.act .bump
        Run.act .linkDown
        Run.emit (.linkDown reason)
        Connectivity.attempt { c with status := .down, currentIndex := none } : Run ε κ τ _) [.bump, .linkDown] := by
      refine (writes_act .bump).bind [.linkDown] fun _ => ?_
      refine (writes_act .linkDown).bind [] fun _ => ?_
      exact (writes_emit halone _).skip fun _ => writes_attempt halone _
    dsimp only
    split
    · exact (writes_add rfl).skip fun _ => down
    · exact down

include halone in
theorem request_writes (r : Restart.Reason) : Writes (Tasks.request r : Run ε κ τ Unit) [] := by
  unfold Tasks.request
  refine (writes_halting halone).skip fun halting => ?_
  cases halting with
  | true => exact writes_add rfl
  | false => exact (writes_emit halone _).skip fun _ => writes_act _

include halone in
theorem linkStep_writes (c : Connectivity) : WritesTransitions (Tasks.linkStep c : Run ε κ τ _) := by
  unfold Tasks.linkStep
  refine writes_get.transitions.bind fun d => ?_
  split
  · exact (Writes.pure _).transitions
  · next e queue _ =>
    refine (writes_of_same fun _ => rfl).transitions.bind fun _ => ?_
    refine (writes_halting halone).transitions.bind fun halting => ?_
    cases halting with
    | true => exact (Writes.pure _).transitions
    | false =>
      refine WritesTransitions.bind (fun d => ?_) fun (r, c) => ?_
      · obtain ⟨t, hj, ht⟩ := handle_writes halone c e d
        exact ⟨t, hj, _, ht⟩
      · cases r with
        | ok _ => exact (Writes.pure _).transitions
        | error e =>
          exact ((writes_add rfl).skip fun _ => (request_writes halone _).skip fun _ => .pure _).transitions

include halone in
/-- The link task writes one transition after the other. -/
theorem link_writes (c : Connectivity) : WritesTransitions (Tasks.link c : Run ε κ τ _) := by
  intro d
  have step : ∀ c, WritesTransitions (Tasks.linkStep c : Run ε κ τ _) := linkStep_writes halone
  induction c, d using Tasks.link.induct with
  | case1 c d c' d' h =>
    rw [Tasks.link, h]
    simpa only [h] using step c d
  | case2 c d c' d' h =>
    rw [Tasks.link, h]
    simpa only [h] using step c d
  | case3 c d c' d' h hlt ih =>
    rw [Tasks.link, h]
    simp only [if_pos hlt]
    obtain ⟨t, hj, ts, ht⟩ := step c d
    obtain ⟨u, hj', us, hu⟩ := ih
    rw [h] at hj
    refine ⟨t ++ u, ?_, ts ++ us, by rw [linkWrites_append, ht, hu, List.flatMap_append]⟩
    rw [hj', hj, List.append_assoc]
  | case4 c d c' d' h hle =>
    rw [Tasks.link, h]
    simp only [if_neg hle]
    simpa only [h] using step c d

/-- What the link task writes when it is taken up again and again, on the fob as it is each time. -/
def linkTaskWrites (c : Connectivity) : List (Device ε κ τ) → List Action
  | [] => []
  | d :: ds => linkWrites ((Tasks.link c d).2.journal.since d.journal) ++ linkTaskWrites (Tasks.link c d).1.2 ds

include halone in
theorem linkTaskWrites_eq (c : Connectivity) (ds : List (Device ε κ τ)) :
    ∃ ts : List Transition, linkTaskWrites c ds = ts.flatMap Transition.writes := by
  induction ds generalizing c with
  | nil => exact ⟨[], rfl⟩
  | cons d ds ih =>
    obtain ⟨t, hj, ts, ht⟩ := link_writes halone c d
    obtain ⟨us, hus⟩ := ih (Tasks.link c d).1.2
    refine ⟨ts ++ us, ?_⟩
    rw [linkTaskWrites, Journal.since_eq hj, ht, hus, List.flatMap_append]

include halone in
/-- Whoever sees the writes of the link task, as far as they have come, sees them in order. -/
theorem InLinkOrder.of_linkTask {t : List Entry} {c : Connectivity} {ds : List (Device ε κ τ)}
    (h : linkWrites t <+: linkTaskWrites c ds) : InLinkOrder t := by
  obtain ⟨ts, hts⟩ := linkTaskWrites_eq halone c ds
  exact ⟨ts, hts ▸ h⟩

end

end KeyFob
