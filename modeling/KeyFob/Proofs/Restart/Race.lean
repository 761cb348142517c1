import KeyFob.Restart
import Mathlib.Data.List.Induction
import Mathlib.Logic.Function.Basic

/-!
Requests for a restart that race with each other and with the coordinator. A request swaps the halting flag and, if it
was the first to do so, leaves its reason; between the two steps the others go on. In whatever order they come, the
reason of the request that swapped first is the only one that the coordinator is ever given.
-/

namespace KeyFob.Restart

/-- What is asked for. A careful request looks first whether a restart is pending, and goes no further if one is. -/
structure Ask where
  reason : Reason
  careful : Bool
deriving DecidableEq, Repr

inductive Phase
  | looking
  | swapping
  /-- It was the first to swap, and has not left its reason yet. -/
  | signalling
  | done
deriving DecidableEq, Repr

/-- Any requests, each with the step that it takes next, and the coordinator that waits for a reason. -/
structure Race (ι : Type) where
  request : Request := {}
  phase : ι → Phase
  /-- The requests that have swapped, in this order. -/
  swapped : List ι := []
  /-- The reasons that the coordinator has been given. -/
  delivered : List Reason := []

namespace Race

inductive Move (ι : Type)
  /-- A request takes its next step. -/
  | step (i : ι)
  /-- The coordinator takes the reason that is there, or goes on waiting. -/
  | wait
deriving DecidableEq, Repr

variable {ι : Type} [DecidableEq ι]

def start (asks : ι → Ask) : Race ι where
  phase i := if (asks i).careful then .looking else .swapping

def goes (c : Race ι) (i : ι) (p : Phase) : Race ι := { c with phase := Function.update c.phase i p }

def move (asks : ι → Ask) (c : Race ι) : Move ι → Race ι
  | .step i =>
    match c.phase i with
    | .looking => c.goes i (if c.request.halting then .done else .swapping)
    | .swapping =>
      let (before, request) := c.request.halt
      { c.goes i (if before then .done else .signalling) with request, swapped := c.swapped ++ [i] }
    | .signalling => { c.goes i .done with request := c.request.signal (asks i).reason }
    | .done => c
  | .wait =>
    let (given, request) := c.request.take
    { c with request, delivered := c.delivered ++ given.toList }

def run (asks : ι → Ask) (ms : List (Move ι)) : Race ι := ms.foldl (move asks) (start asks)

/-- How far the race has come: nobody has swapped, or the first to swap has yet to leave its reason, or has left it, or
the coordinator has been given it. -/
inductive Standing (asks : ι → Ask) (c : Race ι) : Prop
  | unclaimed (hswapped : c.swapped = []) (hhalting : c.request.halting = false) (hpending : c.request.pending = none)
    (hdelivered : c.delivered = []) (hothers : ∀ j, c.phase j ≠ .signalling)
  | claimed {first : ι} {rest : List ι} (hswapped : c.swapped = first :: rest) (hhalting : c.request.halting = true)
    (hpending : c.request.pending = none) (hdelivered : c.delivered = []) (hfirst : c.phase first = .signalling)
    (hothers : ∀ j, c.phase j = .signalling → j = first)
  | waiting {first : ι} {rest : List ι} (hswapped : c.swapped = first :: rest) (hhalting : c.request.halting = true)
    (hpending : c.request.pending = some (asks first).reason) (hdelivered : c.delivered = [])
    (hfirst : c.phase first = .done) (hothers : ∀ j, c.phase j ≠ .signalling)
  | given {first : ι} {rest : List ι} (hswapped : c.swapped = first :: rest) (hhalting : c.request.halting = true)
    (hpending : c.request.pending = none) (hdelivered : c.delivered = [(asks first).reason])
    (hfirst : c.phase first = .done) (hothers : ∀ j, c.phase j ≠ .signalling)

variable {asks : ι → Ask} {c : Race ι} {i j : ι} {p : Phase}

theorem goes_self : (c.goes i p).phase i = p := Function.update_self ..

theorem goes_of_ne (h : j ≠ i) : (c.goes i p).phase j = c.phase j := Function.update_of_ne h ..

theorem goes_ne_signalling (h : ∀ j, c.phase j ≠ .signalling) (hp : p ≠ .signalling) :
    ∀ j, (c.goes i p).phase j ≠ .signalling := by
  intro j
  by_cases hj : j = i
  · rw [hj, goes_self]
    exact hp
  · rw [goes_of_ne hj]
    exact h j

omit [DecidableEq ι] in
theorem standing_start (asks : ι → Ask) : Standing asks (start asks) := by
  refine .unclaimed rfl rfl rfl rfl fun j => ?_
  unfold start
  dsimp only
  split <;> decide

/-- A request that is neither first nor about to leave its reason may come to its end, whoever else has swapped. -/
theorem Standing.behind (h : Standing asks c) (hhalting : c.request.halting = true) (hi : c.phase i ≠ .signalling)
    (hdone : c.phase i ≠ .done) (late : List ι) :
    Standing asks { c.goes i .done with swapped := c.swapped ++ late } := by
  -- It is not the first to swap, since that one is about to leave its reason or is done.
  have elsewhere {first : ι} (hfirst : c.phase first = .signalling ∨ c.phase first = .done) : first ≠ i := by
    rintro rfl
    exact hfirst.elim hi hdone
  have later {first : ι} {rest : List ι} (hswapped : c.swapped = first :: rest) :
      c.swapped ++ late = first :: (rest ++ late) := by
    rw [hswapped, List.cons_append]
  cases h with
  | unclaimed _ hopen => cases hopen.symm.trans hhalting
  | claimed hswapped _ hpending hdelivered hfirst hothers =>
    refine .claimed (later hswapped) hhalting hpending hdelivered ?_ fun j hj => ?_
    · exact (goes_of_ne (elsewhere (Or.inl hfirst))).trans hfirst
    · by_cases hji : j = i
      · rw [hji] at hj
        cases (goes_self (c := c) (i := i) (p := .done)).symm.trans hj
      · exact hothers j ((goes_of_ne hji).symm.trans hj)
  | waiting hswapped _ hpending hdelivered hfirst hothers =>
    refine .waiting (later hswapped) hhalting hpending hdelivered ?_ (goes_ne_signalling hothers nofun)
    exact (goes_of_ne (elsewhere (Or.inr hfirst))).trans hfirst
  | given hswapped _ hpending hdelivered hfirst hothers =>
    refine .given (later hswapped) hhalting hpending hdelivered ?_ (goes_ne_signalling hothers nofun)
    exact (goes_of_ne (elsewhere (Or.inr hfirst))).trans hfirst

omit [DecidableEq ι] in
theorem Standing.unclaimed_of_open (h : Standing asks c) (hopen : c.request.halting = false) :
    c.swapped = [] ∧ c.request.pending = none ∧ c.delivered = [] ∧ ∀ j, c.phase j ≠ .signalling := by
  cases h with
  | unclaimed hswapped _ hpending hdelivered hothers => exact ⟨hswapped, hpending, hdelivered, hothers⟩
  | claimed _ hhalting | waiting _ hhalting | given _ hhalting => cases hopen.symm.trans hhalting

theorem Standing.look (h : Standing asks c) (hi : c.phase i = .looking) : Standing asks (c.move asks (.step i)) := by
  simp only [move, hi]
  cases hhalting : c.request.halting with
  | true =>
    have hbehind := h.behind hhalting (i := i) (by rw [hi]; exact nofun) (by rw [hi]; exact nofun) []
    rw [List.append_nil] at hbehind
    exact hbehind
  | false =>
    obtain ⟨hswapped, hpending, hdelivered, hothers⟩ := h.unclaimed_of_open hhalting
    exact .unclaimed hswapped hhalting hpending hdelivered (goes_ne_signalling hothers nofun)

theorem swap_of_halting (hi : c.phase i = .swapping) (h : c.request.halting = true) :
    c.move asks (.step i) = { c.goes i .done with swapped := c.swapped ++ [i] } := by
  have hsame : { c.request with halting := true } = c.request := by rw [← h]
  simp [move, hi, goes, Request.halt, h, hsame]

theorem swap_of_open (hi : c.phase i = .swapping) (h : c.request.halting = false) :
    c.move asks (.step i) =
      { c.goes i .signalling with request := { c.request with halting := true }, swapped := c.swapped ++ [i] } := by
  simp [move, hi, goes, Request.halt, h]

theorem Standing.swap (h : Standing asks c) (hi : c.phase i = .swapping) : Standing asks (c.move asks (.step i)) := by
  cases hhalting : c.request.halting with
  | true =>
    rw [swap_of_halting hi hhalting]
    exact h.behind hhalting (by rw [hi]; exact nofun) (by rw [hi]; exact nofun) [i]
  | false =>
    rw [swap_of_open hi hhalting]
    obtain ⟨hswapped, hpending, hdelivered, hothers⟩ := h.unclaimed_of_open hhalting
    have hfirst : c.swapped ++ [i] = [i] := by rw [hswapped, List.nil_append]
    refine .claimed hfirst rfl hpending hdelivered goes_self fun j hj => ?_
    by_contra hne
    exact hothers j ((goes_of_ne hne).symm.trans hj)

theorem Standing.signal (h : Standing asks c) (hi : c.phase i = .signalling) :
    Standing asks (c.move asks (.step i)) := by
  simp only [move, hi]
  cases h with
  | unclaimed _ _ _ _ hothers => exact absurd hi (hothers i)
  | waiting _ _ _ _ _ hothers => exact absurd hi (hothers i)
  | given _ _ _ _ _ hothers => exact absurd hi (hothers i)
  | claimed hswapped hhalting hpending hdelivered hfirst hothers =>
    obtain rfl := hothers i hi
    refine .waiting hswapped hhalting rfl hdelivered goes_self fun j => ?_
    by_cases hj : j = i
    · rw [hj]
      exact fun hs => nomatch goes_self.symm.trans hs
    · exact fun hs => hj (hothers j ((goes_of_ne hj).symm.trans hs))

theorem Standing.wait (h : Standing asks c) : Standing asks (c.move asks .wait) := by
  have nothing (hpending : c.request.pending = none) : c.move asks .wait = c := by
    obtain ⟨⟨halting, pending⟩, phase, swapped, delivered⟩ := c
    obtain rfl := hpending
    simp [move, Request.take]
  cases h with
  | unclaimed hswapped hhalting hpending hdelivered hothers =>
    rw [nothing hpending]
    exact .unclaimed hswapped hhalting hpending hdelivered hothers
  | claimed hswapped hhalting hpending hdelivered hfirst hothers =>
    rw [nothing hpending]
    exact .claimed hswapped hhalting hpending hdelivered hfirst hothers
  | given hswapped hhalting hpending hdelivered hfirst hothers =>
    rw [nothing hpending]
    exact .given hswapped hhalting hpending hdelivered hfirst hothers
  | waiting hswapped hhalting hpending hdelivered hfirst hothers =>
    refine .given hswapped hhalting rfl ?_ hfirst hothers
    change c.delivered ++ c.request.pending.toList = _
    rw [hdelivered, hpending]
    rfl

theorem Standing.move (h : Standing asks c) (m : Move ι) : Standing asks (c.move asks m) := by
  cases m with
  | wait => exact h.wait
  | step i =>
    cases hi : c.phase i with
    | looking => exact h.look hi
    | swapping => exact h.swap hi
    | signalling => exact h.signal hi
    | done =>
      simp only [Race.move, hi]
      exact h

theorem standing_run (asks : ι → Ask) (ms : List (Move ι)) : Standing asks (run asks ms) := by
  induction ms using List.reverseRecOn with
  | nil => exact standing_start asks
  | append_singleton ms m ih =>
    rw [run, List.foldl_append]
    exact ih.move m

theorem halting_move (h : c.request.halting = true) (m : Move ι) : (c.move asks m).request.halting = true := by
  cases m with
  | wait => exact h
  | step i => cases hi : c.phase i <;> simp [move, hi, goes, Request.halt, Request.signal, h]

/-- Once a restart is pending it stays so. -/
theorem halting_run {pre post : List (Move ι)} (h : (run asks pre).request.halting = true) :
    (run asks (pre ++ post)).request.halting = true := by
  induction post using List.reverseRecOn with
  | nil => rwa [List.append_nil]
  | append_singleton post m ih =>
    rw [← List.append_assoc, run, List.foldl_append]
    exact halting_move ih m

omit [DecidableEq ι] in
/-- The reason that the coordinator has been given is that of the request that swapped first. -/
theorem Standing.reason_of_given (h : Standing asks c) {r : Reason} (hr : r ∈ c.delivered) :
    c.delivered = [r] ∧ ∃ first, c.swapped.head? = some first ∧ r = (asks first).reason := by
  have never (hnone : c.delivered = []) : r ∉ c.delivered := by
    rw [hnone]
    exact List.not_mem_nil
  cases h with
  | unclaimed _ _ _ hdelivered => exact absurd hr (never hdelivered)
  | claimed _ _ _ hdelivered => exact absurd hr (never hdelivered)
  | waiting _ _ _ hdelivered => exact absurd hr (never hdelivered)
  | @given first rest hswapped _ _ hdelivered =>
    obtain rfl : r = (asks first).reason := by
      rw [hdelivered, List.mem_singleton] at hr
      exact hr
    exact ⟨hdelivered, first, by rw [hswapped, List.head?_cons], rfl⟩

/-- The first to swap leaves its reason late, and the other one comes too late all the same. -/
example :
    let asks : Bool → Ask := fun i => if i then ⟨.stationDriver, true⟩ else ⟨.hardReset, false⟩
    (run asks [.step true, .step false, .step true, .wait, .step false, .wait, .wait]).delivered = [.hardReset] := rfl

omit [DecidableEq ι] in
/-- Once the first to swap is done, its reason waits for the coordinator or has been given to it. -/
theorem Standing.reason_left (h : Standing asks c) {first : ι} (hfirst : c.swapped.head? = some first)
    (hdone : c.phase first = .done) :
    c.request.pending = some (asks first).reason ∧ c.delivered = [] ∨
      c.request.pending = none ∧ c.delivered = [(asks first).reason] := by
  have first_eq {i : ι} {rest : List ι} (hswapped : c.swapped = i :: rest) : i = first := by
    rw [hswapped, List.head?_cons] at hfirst
    exact Option.some.inj hfirst
  cases h with
  | unclaimed hswapped =>
    rw [hswapped] at hfirst
    cases hfirst
  | claimed hswapped _ _ _ hsignalling =>
    obtain rfl := first_eq hswapped
    cases hdone.symm.trans hsignalling
  | waiting hswapped _ hpending hdelivered =>
    obtain rfl := first_eq hswapped
    exact Or.inl ⟨hpending, hdelivered⟩
  | given hswapped _ hpending hdelivered =>
    obtain rfl := first_eq hswapped
    exact Or.inr ⟨hpending, hdelivered⟩

/-- A request that nobody comes between makes of the flag and the reason what `Request.request` does. -/
theorem alone (c : Race ι) (i : ι) (hi : c.phase i = .looking ∨ c.phase i = .swapping) :
    ([.step i, .step i, .step i].foldl (move asks) c).request = c.request.request (asks i).reason := by
  obtain ⟨⟨halting, pending⟩, phase, swapped, delivered⟩ := c
  rcases hi with hi | hi <;> cases halting <;>
    simp_all [move, goes, Request.halt, Request.signal, Request.request]

end Race

end KeyFob.Restart
