import KeyFob.Signals
import Mathlib.Data.List.Induction

/-!
Waiting for the link. The task that waits reads the word and sleeps if it is 0; the one that sets the link up stores the
word and then leaves a wake-up. Whatever comes between these steps, a sleeper with the link up has a wake-up waiting for
it unless the one that sets the link up is about to leave it, and so no link that stays up is slept through.
-/

namespace KeyFob.Link

inductive Waiter
  | looking
  | sleeping
  | found (index : Nat)
deriving DecidableEq, Repr

/-- One step of the wait. A task that is woken looks again, for the wake-up may be a stale one. -/
def Waiter.next (l : Link) : Waiter → Link × Waiter
  | .looking =>
    match l.current with
    | some index => (l, .found index)
    | none => (l, .sleeping)
  | .sleeping =>
    match l.takeWake? with
    | some l => (l, .looking)
    | none => (l, .sleeping)
  | .found index => (l, .found index)

/-- A link, the task that waits for it, and the task that writes it. -/
structure Watch where
  link : Link := {}
  waiter : Waiter := .looking
  /-- The word has been stored for a link that is up, and the wake-up has not been left yet. -/
  signalling : Bool := false
deriving DecidableEq, Repr

inductive Move
  /-- The waiting task takes its next step; one that sleeps goes on sleeping unless it is woken. -/
  | wait
  /-- A task that has found the link waits for it once more. -/
  | again
  /-- The writer sets the link up, up to the wake-up. -/
  | store (index : Nat)
  | signal
  | down
deriving DecidableEq, Repr

namespace Watch

/-- A move whose turn it is not changes nothing: the writer leaves the wake-up before it does anything else. -/
def move (w : Watch) : Move → Watch
  | .wait =>
    let (link, waiter) := w.waiter.next w.link
    { w with link, waiter }
  | .again =>
    match w.waiter with
    | .found _ => { w with waiter := .looking }
    | _ => w
  | .store index =>
    if w.signalling then w else { w with link := w.link.store (UInt32.ofNat index + 1), signalling := true }
  | .signal => if w.signalling then { w with link := w.link.signal, signalling := false } else w
  | .down => if w.signalling then w else { w with link := w.link.setDown }

def run (w : Watch) (ms : List Move) : Watch := ms.foldl move w

theorem run_concat (w : Watch) (ms : List Move) (m : Move) : w.run (ms ++ [m]) = (w.run ms).move m := by
  simp [run]

/-- The two steps of the writer, one right behind the other, are what setting the link up is. -/
theorem run_setUp (w : Watch) (index : Nat) (h : w.signalling = false) :
    w.run [.store index, .signal] = { w with link := w.link.setUp index } := by
  obtain ⟨link, waiter, signalling⟩ := w
  obtain rfl := h
  rfl

end Watch

theorem current_eq_none {l : Link} : l.current = none ↔ l.word = 0 := by
  unfold current
  split
  · next h => exact iff_of_true rfl h
  · next h => exact iff_of_false nofun h

namespace Watch

/-- Nobody sleeps with the link up, unless a wake-up is there or about to be. -/
def Wakeful (w : Watch) : Prop :=
  w.waiter = .sleeping → w.link.word ≠ 0 → w.signalling = false → w.link.wake = true

variable {w : Watch}

theorem Wakeful.wait (h : w.Wakeful) : (w.move .wait).Wakeful := by
  obtain ⟨link, waiter, signalling⟩ := w
  cases waiter with
  | looking =>
    cases hc : link.current with
    | some index => exact fun hs => by simp [move, Waiter.next, hc] at hs
    | none =>
      intro _ hup
      simp only [move, Waiter.next, hc] at hup
      exact absurd (current_eq_none.1 hc) hup
  | sleeping =>
    cases hwake : link.wake with
    | true => exact fun hs => by simp [move, Waiter.next, takeWake?, hwake] at hs
    | false =>
      simp only [move, Waiter.next, takeWake?, hwake, Bool.false_eq_true, if_false]
      exact h
  | found index => exact nofun

theorem Wakeful.move (h : w.Wakeful) (m : Move) : (w.move m).Wakeful := by
  obtain ⟨link, waiter, signalling⟩ := w
  cases m with
  | wait => exact h.wait
  | again =>
    cases waiter with
    | looking => exact h
    | sleeping => exact h
    | found index => exact nofun
  | store index =>
    cases signalling with
    | true => exact h
    | false => exact fun _ _ hidle => nomatch hidle
  | signal =>
    cases signalling with
    | true => exact fun _ _ _ => rfl
    | false => exact h
  | down =>
    cases signalling with
    | true => exact h
    | false => exact fun _ hup => absurd rfl hup

theorem Wakeful.run (h : w.Wakeful) (ms : List Move) : (w.run ms).Wakeful := by
  induction ms using List.reverseRecOn with
  | nil => exact h
  | append_singleton ms m ih =>
    rw [run_concat]
    exact ih.move m

/-- Only a look finds the link, and it finds what it sees. -/
theorem found_of_move {m : Move} {index : Nat} (h : (w.move m).waiter = .found index) :
    w.waiter = .found index ∧ m ≠ .again ∨ m = .wait ∧ w.waiter = .looking ∧ w.link.current = some index := by
  obtain ⟨link, waiter, signalling⟩ := w
  cases m with
  | wait =>
    cases waiter with
    | looking =>
      refine Or.inr ⟨rfl, rfl, ?_⟩
      cases hc : link.current with
      | some i => simpa [move, Waiter.next, hc] using h
      | none => simp [move, Waiter.next, hc] at h
    | sleeping =>
      cases hwake : link.wake <;> simp [move, Waiter.next, takeWake?, hwake] at h
    | found i => exact Or.inl ⟨h, nofun⟩
  | again => cases waiter <;> cases h
  | store i => cases signalling <;> exact Or.inl ⟨h, nofun⟩
  | signal => cases signalling <;> exact Or.inl ⟨h, nofun⟩
  | down => cases signalling <;> exact Or.inl ⟨h, nofun⟩

/-- What the wait has come to, it has seen in a look of its own. -/
theorem look_of_found {ms : List Move} {index : Nat} (hw : ∀ i, w.waiter ≠ .found i)
    (h : (w.run ms).waiter = .found index) :
    ∃ pre post, ms = pre ++ .wait :: post ∧ .again ∉ post ∧ (w.run pre).waiter = .looking ∧
      (w.run pre).link.current = some index := by
  induction ms using List.reverseRecOn with
  | nil => exact absurd h (hw index)
  | append_singleton ms m ih =>
    rw [run_concat] at h
    rcases found_of_move h with ⟨hfound, hm⟩ | ⟨rfl, hlook, hcurrent⟩
    · obtain ⟨pre, post, rfl, hpost, hlook, hcurrent⟩ := ih hfound
      refine ⟨pre, post ++ [m], by simp, ?_, hlook, hcurrent⟩
      rw [List.mem_append, List.mem_singleton]
      rintro (hin | rfl)
      · exact hpost hin
      · exact hm rfl
    · exact ⟨ms, [], rfl, List.not_mem_nil, hlook, hcurrent⟩

/-- How many of its own steps the wait is from finding a link that stays up. -/
inductive StepsAway : Watch → Nat → Prop
  | found {w : Watch} {index : Nat} (h : w.waiter = .found index) : StepsAway w 0
  | looking {w : Watch} (h : w.waiter = .looking) : StepsAway w 1
  | woken {w : Watch} (h : w.waiter = .sleeping) (hwake : w.link.wake = true) : StepsAway w 2

theorem Wakeful.stepsAway (h : w.Wakeful) (hup : w.link.word ≠ 0) (hidle : w.signalling = false) :
    ∃ n ≤ 2, w.StepsAway n := by
  cases hw : w.waiter with
  | looking => exact ⟨1, by decide, .looking hw⟩
  | sleeping => exact ⟨2, by decide, .woken hw (h hw hup hidle)⟩
  | found index => exact ⟨0, by decide, .found hw⟩

/-- Each step of the wait brings it nearer, and what the writer does keeps it where it is. -/
theorem StepsAway.move {n : Nat} (h : w.StepsAway (n + 1)) (m : Move) (hup : w.link.word ≠ 0) :
    (w.move m).StepsAway (if m = .wait then n else n + 1) := by
  obtain ⟨link, waiter, signalling⟩ := w
  cases h with
  | looking h =>
    obtain rfl := h
    cases m with
    | wait =>
      cases hc : link.current with
      | some index =>
        have hfound : (Watch.move ⟨link, .looking, signalling⟩ .wait).waiter = .found index := by
          simp [Watch.move, Waiter.next, hc]
        exact .found hfound
      | none => exact absurd (current_eq_none.1 hc) hup
    | again => exact .looking rfl
    | store i => cases signalling <;> exact .looking rfl
    | signal => cases signalling <;> exact .looking rfl
    | down => cases signalling <;> exact .looking rfl
  | woken h hwake =>
    obtain rfl := h
    cases m with
    | wait =>
      replace hwake : link.wake = true := hwake
      exact .looking (by simp [Watch.move, Waiter.next, takeWake?, hwake])
    | again => exact .woken rfl hwake
    | store i => cases signalling <;> exact .woken rfl hwake
    | signal =>
      cases signalling with
      | true => exact .woken rfl rfl
      | false => exact .woken rfl hwake
    | down => cases signalling <;> exact .woken rfl hwake

/-- A wait that takes its steps while the link is up comes to its end among them. -/
theorem StepsAway.found_of_waits {n : Nat} (h : w.StepsAway n) {ms : List Move}
    (hup : ∀ ns, ns <+: ms → (w.run ns).link.word ≠ 0) (hn : n ≤ ms.count .wait) :
    ∃ ns, ns <+: ms ∧ ∃ index, (w.run ns).waiter = .found index := by
  induction ms generalizing w n with
  | nil =>
    obtain rfl := Nat.le_zero.1 hn
    cases h with
    | found h => exact ⟨[], List.nil_prefix, _, h⟩
  | cons m ms ih =>
    cases n with
    | zero =>
      cases h with
      | found h => exact ⟨[], List.nil_prefix, _, h⟩
    | succ n =>
      have hmoved := h.move m (hup [] List.nil_prefix)
      obtain ⟨ns, hns, index, hfound⟩ := ih hmoved
        (fun ns hns => hup (m :: ns) (List.cons_prefix_cons.2 ⟨rfl, hns⟩)) (by
          rw [List.count_cons] at hn
          split
          · next hm =>
            rw [hm, beq_self_eq_true, if_pos rfl] at hn
            exact Nat.le_of_succ_le_succ hn
          · next hm =>
            rw [if_neg (by simpa using hm)] at hn
            exact hn)
      exact ⟨m :: ns, List.cons_prefix_cons.2 ⟨rfl, hns⟩, index, hfound⟩

/-- In any interleaving of waits for the link with the writes of it, a wait ends with an index that the word held when
it was read; whoever sleeps while the link is up, and not just being set up, has a wake-up waiting; and the wait for a
link that stays up ends with its next two steps. With nothing in between, the writer's two steps set the link up. -/
theorem no_link_that_stays_up_is_slept_through (l : Link) (ms : List Move) :
    let start : Watch := { link := l }
    let w := start.run ms
    (∀ index, w.waiter = .found index → ∃ pre post, ms = pre ++ .wait :: post ∧ .again ∉ post ∧
      (start.run pre).waiter = .looking ∧ (start.run pre).link.current = some index) ∧
    (w.waiter = .sleeping → w.link.word ≠ 0 → w.signalling = false → w.link.wake = true) ∧
    (w.link.word ≠ 0 → w.signalling = false → ∀ later : List Move,
      (∀ ns, ns <+: later → (w.run ns).link.word ≠ 0) → 2 ≤ later.count .wait →
        ∃ ns, ns <+: later ∧ ∃ index, (w.run ns).waiter = .found index) ∧
    (∀ index, w.signalling = false → w.run [.store index, .signal] = { w with link := w.link.setUp index }) := by
  intro start w
  have hwakeful : w.Wakeful := Wakeful.run (w := start) nofun ms
  refine ⟨fun index h => look_of_found nofun h, hwakeful, fun hup hidle later hstays htwo => ?_, w.run_setUp⟩
  obtain ⟨n, hn, haway⟩ := hwakeful.stepsAway hup hidle
  exact haway.found_of_waits hstays (Nat.le_trans hn htwo)

/-- The wake-up of a link that has gone down again is stale: the task looks, sleeps on, and is woken by the next. -/
example : (({} : Watch).run [.wait, .store 1, .signal, .down, .wait, .wait, .store 2, .signal, .wait, .wait]).waiter =
    .found 2 := by
  decide

end Watch

end KeyFob.Link
