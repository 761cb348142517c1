import Mathlib.Data.List.Induction
import KeyFob.Indicator
import KeyFob.Pins
import KeyFob.Proofs.Gate.Deadline

/-!
Two writers of one LED. The indicator and the gate both write to the link LED, in any order and without asking each other.
The indicator keeps in mind only what it wrote last, and a gate that is done has lit the LED, so that the LED is steady
while the link is up and goes on blinking when it is lost. `Keeps` is what holds behind every single write.
-/

namespace KeyFob

namespace Pins.Levels

theorem isHigh_write (l : Levels) (p q : Nat) (high : Bool) :
    (l.write p high).isHigh q = if q = p then high else l.isHigh q := by
  rw [Bool.eq_iff_iff, isHigh, List.contains_iff_mem]
  cases high with
  | true =>
    by_cases h : q = p
    · simp [write, h]
    · simp [write, h, isHigh, List.mem_erase_of_ne h]
  | false =>
    by_cases h : q = p
    · simp [write, h]
    · simp [write, h, isHigh]

/-- Neither LED is wired to the pin of the other. -/
theorem isHigh_setLed (l : Levels) (led led' : Led) (on : Bool) :
    (l.setLed led on).isHigh (ofLed led') = if led' = led then on else l.isHigh (ofLed led') := by
  rw [setLed, isHigh_write]
  cases led <;> cases led' <;> rfl

end Pins.Levels

namespace Gate

open Config (ConfirmPolicy)

/-- Some evaluation writes this to the LEDs. -/
def Drives (ws : List (Led × Bool)) : Prop :=
  ∃ (ε κ τ : Type) (_ : Surroundings ε) (p : ConfirmPolicy) (c : Card.Command) (d : Device ε κ τ),
    ws = ledWrites ((evaluate p c d).2.journal.since d.journal)

/-- An evaluation that writes anything lights the link LED in the end. -/
theorem Drives.lit {ws : List (Led × Bool)} (h : Drives ws) : ws = [] ∨ ∃ earlier, ws = earlier ++ [(.link, true)] := by
  obtain ⟨ε, κ, τ, _, p, c, d, rfl⟩ := h
  obtain ⟨t, hj, -, g, hown, hjudges⟩ := evaluate_leaves p c d
  rw [Journal.since_eq hj, ← ledWrites_own, hown]
  generalize (evaluate p c d).1 = r at hjudges ⊢
  have waited (k : Nat) (b : Bool) :
      ledWrites (.judge c :: ((.clearConfirm :: (prompts p.halfPeriodMs.toNat k ++ [.takeConfirm b, .led .link true])) ++
        [.judged r])) = ledWrites (prompts p.halfPeriodMs.toNat k) ++ [(.link, true)] := by
    simp [ledWrites]
  cases hjudges with
  | bypassed => exact Or.inl rfl
  | confirmed _ k ms => exact Or.inr ⟨_, waited k true⟩
  | lockedOut => exact Or.inr ⟨_, waited _ false⟩

end Gate

namespace Indicator

/-- What happens to the LEDs next: the indicator ticks, and sees the link up or down, or one of the evaluations of the gate
makes its next write. -/
inductive Stroke
  | tick (up : Bool)
  | gate (evaluation : Nat) (led : Led) (on : Bool)
deriving DecidableEq, Repr

inductive Writer
  | indicator
  | gate (evaluation : Nat)
deriving DecidableEq, Repr

structure Written where
  writer : Writer
  led : Led
  on : Bool
deriving DecidableEq, Repr

/-- The indicator behind a tick. -/
def ticked (i : Indicator) (up : Bool) : Indicator := { i with lit := (i.output? up).getD i.lit, wasUp := up }

/-- The indicator behind a stroke. The gate's writes are nothing to it. -/
def next (i : Indicator) : Stroke → Indicator
  | .tick up => i.ticked up
  | .gate _ _ _ => i

/-- What a stroke writes. -/
def writes (i : Indicator) : Stroke → List Written
  | .tick up => (i.output? up).toList.map fun on => ⟨.indicator, .link, on⟩
  | .gate evaluation led on => [⟨.gate evaluation, led, on⟩]

def nextAll (i : Indicator) (h : List Stroke) : Indicator := h.foldl next i

def written (i : Indicator) : List Stroke → List Written
  | [] => []
  | s :: later => i.writes s ++ (i.next s).written later

def share {ε κ τ : Type} (i : Indicator) : List Stroke → Run ε κ τ Indicator
  | [] => return i
  | .tick up :: later => do share (← i.tick up) later
  | .gate _ led on :: later => do
    Run.led led on
    share i later

def writesOf (w : Writer) (ws : List Written) : List (Led × Bool) :=
  (ws.filter (·.writer = w)).map fun x => (x.led, x.on)

/-- What the indicator wrote last; at the start its LED is off. -/
def previous (ws : List Written) : Bool := ((writesOf .indicator ws).getLast?.map Prod.snd).getD false

def lastTo (l : Led) (ws : List Written) : Option Written := (ws.filter (·.led = l)).getLast?

def levels (ws : List Written) : Pins.Levels := ws.foldl (fun l w => l.setLed w.led w.on) .reset

def linkLit (ws : List Written) : Bool := (levels ws).isHigh Pins.linkLed

variable {i : Indicator} {ws : List Written} {w : Written} {s : Stroke}

theorem lastTo_concat (l : Led) (ws : List Written) (w : Written) :
    lastTo l (ws ++ [w]) = if w.led = l then some w else lastTo l ws := by
  rw [lastTo, List.filter_append, List.getLast?_append]
  by_cases h : w.led = l <;> simp [h, lastTo]

theorem writesOf_concat (x : Writer) (ws : List Written) (w : Written) :
    writesOf x (ws ++ [w]) = writesOf x ws ++ if w.writer = x then [(w.led, w.on)] else [] := by
  rw [writesOf, List.filter_append, List.map_append]
  by_cases h : w.writer = x <;> simp [h, writesOf]

theorem previous_concat (ws : List Written) (w : Written) :
    previous (ws ++ [w]) = if w.writer = .indicator then w.on else previous ws := by
  rw [previous, writesOf_concat]
  by_cases h : w.writer = .indicator <;> simp [h, previous]

theorem linkLit_concat (ws : List Written) (w : Written) :
    linkLit (ws ++ [w]) = if w.led = .link then w.on else linkLit ws := by
  rw [linkLit, levels, List.foldl_append]
  refine (Pins.Levels.isHigh_setLed (levels ws) w.led .link w.on).trans ?_
  simp only [eq_comm, linkLit]
  rfl

/-- The link LED is as it was last written. -/
theorem linkLit_of_last (hlast : lastTo .link ws = some w) : linkLit ws = w.on := by
  induction ws using List.reverseRecOn with
  | nil => cases hlast
  | append_singleton ws x ih =>
    rw [lastTo_concat] at hlast
    rw [linkLit_concat]
    split at hlast
    · next hled =>
      rw [if_pos hled, Option.some.inj hlast]
    · next hled =>
      rw [if_neg hled]
      exact ih hlast

theorem nextAll_concat (i : Indicator) (h : List Stroke) (s : Stroke) : i.nextAll (h ++ [s]) = (i.nextAll h).next s := by
  simp [nextAll]

theorem nextAll_append (i : Indicator) (h h' : List Stroke) : i.nextAll (h ++ h') = (i.nextAll h).nextAll h' := by
  simp [nextAll]

theorem written_append (i : Indicator) (h h' : List Stroke) :
    i.written (h ++ h') = i.written h ++ (i.nextAll h).written h' := by
  induction h generalizing i with
  | nil => rfl
  | cons s h ih => rw [List.cons_append, written, ih, written, List.append_assoc]; rfl

theorem written_concat (i : Indicator) (h : List Stroke) (s : Stroke) :
    i.written (h ++ [s]) = i.written h ++ (i.nextAll h).writes s := by
  rw [written_append, written, written, List.append_nil]

/-- What holds behind every write: the indicator knows its own last write, and as long as nobody else writes to its LED that
is how the LED is; while it sees the link up, it leaves the LED to the gate or has lit it. -/
structure Keeps (i : Indicator) (ws : List Written) : Prop where
  lit : i.lit = previous ws
  own (w : Written) (hw : w ∈ ws) (hown : w.writer = .indicator) : w.led = .link
  alone (h : ∀ w ∈ lastTo .link ws, w.writer = .indicator) : linkLit ws = i.lit
  steady (h : i.wasUp = true) : ∃ w, lastTo .link ws = some w ∧ (w.writer = .indicator → w.on = true)

theorem keeps_new (blinkMs : UInt32) : Keeps { blinkMs } [] := ⟨rfl, nofun, fun _ => rfl, nofun⟩

theorem Keeps.gate (h : Keeps i ws) (evaluation : Nat) (led : Led) (on : Bool) :
    Keeps i (ws ++ [⟨.gate evaluation, led, on⟩]) := by
  refine ⟨?_, fun w hw hown => ?_, fun halone => ?_, fun hup => ?_⟩
  · rw [previous_concat, if_neg nofun]
    exact h.lit
  · rcases List.mem_append.1 hw with hw | hw
    · exact h.own w hw hown
    · obtain rfl := List.mem_singleton.1 hw
      cases hown
  · rw [lastTo_concat] at halone
    rw [linkLit_concat]
    cases led with
    | link => cases halone _ rfl
    | activity => exact h.alone halone
  · rw [lastTo_concat]
    cases led with
    | link => exact ⟨_, rfl, nofun⟩
    | activity => exact h.steady hup

theorem Keeps.indicator (h : Keeps i ws) (on up : Bool) (hon : up = true → on = true) :
    Keeps { i with lit := on, wasUp := up } (ws ++ [⟨.indicator, .link, on⟩]) := by
  refine ⟨?_, fun w hw hown => ?_, fun _ => ?_, fun hup => ?_⟩
  · rw [previous_concat, if_pos rfl]
  · rcases List.mem_append.1 hw with hw | hw
    · exact h.own w hw hown
    · obtain rfl := List.mem_singleton.1 hw
      rfl
  · rw [linkLit_concat, if_pos rfl]
  · rw [lastTo_concat]
    exact ⟨_, rfl, fun _ => hon hup⟩

theorem Keeps.next (h : Keeps i ws) (s : Stroke) : Keeps (i.next s) (ws ++ i.writes s) := by
  cases s with
  | gate evaluation led on => exact h.gate evaluation led on
  | tick up =>
    cases up with
    | false => exact h.indicator (!i.lit) false nofun
    | true =>
      cases hwas : i.wasUp with
      | false =>
        rw [Indicator.next, ticked, writes, output?, hwas]
        exact h.indicator true true fun _ => rfl
      | true =>
        rw [Indicator.next, ticked, writes, output?, hwas]
        simpa using (⟨h.lit, h.own, h.alone, fun _ => h.steady hwas⟩ : Keeps { i with wasUp := true } ws)

theorem Keeps.all (h : Keeps i []) (strokes : List Stroke) : Keeps (i.nextAll strokes) (i.written strokes) := by
  induction strokes using List.reverseRecOn with
  | nil => exact h
  | append_singleton strokes s ih =>
    rw [nextAll_concat, written_concat]
    exact ih.next s

/-- Once the link was seen up, the indicator writes nothing as long as it is seen up. -/
theorem written_while_up (hup : i.wasUp = true) {later : List Stroke} (hlater : .tick false ∉ later) :
    (i.nextAll later).wasUp = true ∧ ∀ w ∈ i.written later, w.writer ≠ .indicator := by
  induction later generalizing i with
  | nil => exact ⟨hup, nofun⟩
  | cons s later ih =>
    obtain ⟨hs, hrest⟩ := not_or.1 (List.mem_cons.not.1 hlater)
    cases s with
    | gate evaluation led on =>
      obtain ⟨hnext, hwritten⟩ := ih hup hrest
      exact ⟨hnext, List.forall_mem_cons.2 ⟨nofun, hwritten⟩⟩
    | tick up =>
      cases up with
      | false => exact absurd rfl hs
      | true =>
        obtain ⟨hnext, hwritten⟩ := ih (i := i.ticked true) rfl hrest
        refine ⟨hnext, fun w hw => ?_⟩
        rw [written, writes, output?, hup] at hw
        exact hwritten w hw

theorem filter_writesOf (x : Writer) (l : Led) (ws : List Written) :
    (writesOf x ws).filter (·.1 = l) = writesOf x (ws.filter (·.led = l)) := by
  simp [writesOf, List.filter_map, List.filter_filter, Function.comp_def, Bool.and_comm]

/-- The last write to an LED is its writer's last write to it. -/
theorem last_writesOf {l : Led} (hlast : lastTo l ws = some w) :
    ((writesOf w.writer ws).filter (·.1 = l)).getLast? = some (l, w.on) := by
  obtain ⟨earlier, hearlier⟩ := List.getLast?_eq_some_iff.1 hlast
  have hled : w.led = l := by
    have hw : w ∈ ws.filter (·.led = l) := hearlier ▸ List.mem_append_right _ (List.mem_singleton_self w)
    exact of_decide_eq_true (List.mem_filter.1 hw).2
  rw [filter_writesOf, hearlier, writesOf_concat, if_pos rfl, hled, List.getLast?_concat]

/-- Behind the last write of an evaluation that is done, the link LED is lit. -/
theorem on_of_done {evaluations : Nat → List (Led × Bool)} (hdrives : ∀ k, Gate.Drives (evaluations k)) {k : Nat}
    (hdone : writesOf (.gate k) ws = [] ∨ writesOf (.gate k) ws = evaluations k) (hlast : lastTo .link ws = some w)
    (hw : w.writer = .gate k) : w.on = true := by
  have hon := last_writesOf hlast
  rw [hw] at hon
  have hsome : writesOf (.gate k) ws ≠ [] := fun hnone => by simp [hnone] at hon
  obtain hnone | ⟨earlier, hearlier⟩ := (hdrives k).lit
  · exact absurd (hdone.elim id fun h => h.trans hnone) hsome
  · rw [hdone.resolve_left hsome, hearlier, List.filter_append] at hon
    simpa using hon.symm

/-- The evaluation has begun to write to the LEDs and has not finished. -/
def Underway (evaluation : List (Led × Bool)) (made : List (Led × Bool)) : Prop := made ≠ [] ∧ made ≠ evaluation

/-- No evaluation has written to the link LED since the indicator's last write, or since the start if there is none. -/
def Untouched (ws : List Written) : Prop :=
  ∃ earlier later, ws = earlier ++ later ∧ (∀ w ∈ earlier.getLast?, w.writer = .indicator) ∧
    ∀ w ∈ later, w.led = .link → w.writer = .indicator

theorem Keeps.untouched (h : Keeps i ws) (huntouched : Untouched ws) : linkLit ws = i.lit := by
  obtain ⟨earlier, later, rfl, hearlier, hlater⟩ := huntouched
  refine h.alone fun w hw => ?_
  rw [lastTo, List.filter_append, List.getLast?_append] at hw
  rcases hlast : (later.filter (·.led = .link)).getLast? with _ | x
  · rw [hlast] at hw
    rcases List.eq_nil_or_concat earlier with rfl | ⟨before, x, rfl⟩
    · cases hw
    · rw [List.concat_eq_append] at hearlier h hw
      have hown : x.writer = .indicator := hearlier x (by simp)
      have hx : lastTo .link (before ++ [x]) = some x := by
        rw [lastTo_concat, if_pos (h.own x (by simp) hown)]
      obtain rfl : x = w := Option.some.inj (hx.symm.trans hw)
      exact hown
  · rw [hlast] at hw
    obtain rfl : x = w := Option.some.inj hw
    have hx := List.mem_filter.1 (List.mem_of_getLast? hlast)
    exact hlater x hx.1 (of_decide_eq_true hx.2)

/-- The strokes as a device makes them. -/
theorem journal_share {ε κ τ : Type} (i : Indicator) (h : List Stroke) (d : Device ε κ τ) :
    (i.share h d).2.journal.toList = d.journal.toList ++ (i.written h).map fun w => .led w.led w.on := by
  induction h generalizing i d with
  | nil => exact (List.append_nil _).symm
  | cons s later ih =>
    cases s with
    | gate evaluation led on =>
      refine (ih i (Run.led led on d).2).trans ?_
      rw [Run.led, Run.add]
      change (d.journal.add (.led led on)).toList ++ _ = _
      simp [written, writes, next]
    | tick up =>
      have htick : (i.tick up d).1 = i.ticked up ∧ (i.tick up d).2.journal.toList =
          d.journal.toList ++ (i.writes (.tick up)).map fun w => .led w.led w.on := by
        rw [tick, ticked, writes]
        cases i.output? up with
        | none => exact ⟨rfl, (List.append_nil _).symm⟩
        | some on => exact ⟨rfl, Journal.toList_add _ _⟩
      have hrun : i.share (.tick up :: later) d = (i.tick up d).1.share later (i.tick up d).2 := rfl
      rw [hrun, ih, htick.1, htick.2, written, List.map_append, List.append_assoc]
      rfl

/-- What the indicator and the gate make of the LEDs together. -/
structure Shared (evaluations : Nat → List (Led × Bool)) (i : Indicator) (h : List Stroke) : Prop where
  /-- The device writes just this. -/
  journal {ε κ τ : Type} (d : Device ε κ τ) :
    ledWrites ((i.share h d).2.journal.since d.journal) = (i.written h).map fun w => (w.led, w.on)
  leaves (earlier later : List Stroke) (hh : h = earlier ++ .tick true :: later) (hup : .tick false ∉ later) :
    ∀ w ∈ (i.nextAll (earlier ++ [.tick true])).written later, w.writer ≠ .indicator
  steady (earlier later : List Stroke) (hh : h = earlier ++ .tick true :: later) (hup : .tick false ∉ later)
    (hidle : ∀ k, ¬ Underway (evaluations k) (writesOf (.gate k) (i.written h))) : linkLit (i.written h) = true
  blinks : i.written (h ++ [.tick false]) = i.written h ++ [⟨.indicator, .link, !previous (i.written h)⟩]
  inverts (huntouched : Untouched (i.written h)) : linkLit (i.written (h ++ [.tick false])) = !linkLit (i.written h)

/-- In whatever way the ticks mix with the writes of any number of evaluations, from when the link was seen up the indicator
leaves the LED alone as long as the link stays up, and the LED is lit whenever no evaluation is under way. A tick that sees
the link down writes the opposite of what the indicator wrote last, which turns the LED over unless the gate has written to
it since. -/
theorem link_led_is_steady_while_up_and_blinks_while_down {evaluations : Nat → List (Led × Bool)}
    (hdrives : ∀ k, Gate.Drives (evaluations k)) (blinkMs : UInt32) (h : List Stroke) :
    Shared evaluations { blinkMs } h := by
  let i : Indicator := { blinkMs }
  have hkeeps : Keeps (i.nextAll h) (i.written h) := (keeps_new blinkMs).all h
  have hblinks : i.written (h ++ [.tick false]) = i.written h ++ [⟨.indicator, .link, !(i.nextAll h).lit⟩] :=
    written_concat i h (.tick false)
  have hseen (earlier : List Stroke) : (i.nextAll (earlier ++ [.tick true])).wasUp = true := by
    rw [nextAll_concat]
    rfl
  refine ⟨fun d => ?_, fun earlier later hh hup => ?_, fun earlier later hh hup hidle => ?_, ?_, fun huntouched => ?_⟩
  · rw [Journal.since_eq (journal_share i h d)]
    simp [ledWrites, List.filterMap_map]
    rfl
  · exact (written_while_up (hseen earlier) hup).2
  · have hwas : (i.nextAll h).wasUp = true := by
      have hsplit : h = earlier ++ [.tick true] ++ later := by simp [hh]
      rw [hsplit, nextAll_append]
      exact (written_while_up (hseen earlier) hup).1
    obtain ⟨w, hlast, hown⟩ := hkeeps.steady hwas
    rw [linkLit_of_last hlast]
    cases hw : w.writer with
    | indicator => exact hown hw
    | gate k => exact on_of_done hdrives (by simpa [Underway, or_iff_not_imp_left] using hidle k) hlast hw
  · rw [hblinks, hkeeps.lit]
  · rw [hblinks, linkLit_concat, if_pos rfl, hkeeps.untouched huntouched]

/-- The writes of an evaluation that takes one pulse and is not confirmed. -/
def onePulse : List (Led × Bool) :=
  [(.activity, true), (.link, true), (.activity, false), (.link, false), (.link, true)]

/-- The link comes up behind two blinks, and in front of each write of an evaluation the indicator ticks once more. -/
def pulsed : List Stroke :=
  [.tick false, .tick false] ++ (onePulse.flatMap fun w => [.tick true, .gate 0 w.1 w.2]) ++ [.tick true]

theorem link_led_is_steady_behind_a_pulse :
    let evaluations : Nat → List (Led × Bool) := fun k => if k = 0 then onePulse else []
    (∀ k, Gate.Drives (evaluations k)) ∧ Shared evaluations { blinkMs := 500 } pulsed ∧
      linkLit (written { blinkMs := 500 } pulsed) = true ∧
      writesOf .indicator (written { blinkMs := 500 } pulsed) = [(.link, true), (.link, false), (.link, true)] := by
  intro evaluations
  have hdrives (k : Nat) : Gate.Drives (evaluations k) := by
    by_cases hk : k = 0
    · subst hk
      exact ⟨_, _, _, inferInstance, ⟨1, 250⟩, Gate.sign, Gate.Presses.device [], by decide +kernel⟩
    · have hnone : evaluations k = [] := if_neg hk
      rw [hnone]
      exact ⟨_, _, _, inferInstance, ⟨1, 250⟩, ⟨0, Card.Ins.getChallenge, 0, 0, [], 8⟩, Gate.Presses.device [],
        by decide +kernel⟩
  have hshared := link_led_is_steady_while_up_and_blinks_while_down hdrives 500 pulsed
  have hidle (k : Nat) : ¬ Underway (evaluations k) (writesOf (.gate k) (written { blinkMs := 500 } pulsed)) := by
    rintro ⟨hbegun, hunfinished⟩
    by_cases hk : k = 0
    · subst hk
      exact hunfinished (by decide)
    · have hwriters : ∀ w ∈ written { blinkMs := 500 } pulsed, w.writer = .indicator ∨ w.writer = .gate 0 := by decide
      refine hbegun (List.map_eq_nil_iff.2 (List.filter_eq_nil_iff.2 fun w hw => ?_))
      rcases hwriters w hw with hwriter | hwriter <;> simp [hwriter, Ne.symm hk]
  exact ⟨hdrives, hshared, hshared.steady [.tick false, .tick false] _ rfl (by decide) hidle, by decide⟩

end Indicator

end KeyFob
