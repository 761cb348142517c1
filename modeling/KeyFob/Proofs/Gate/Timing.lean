import KeyFob.Bench.Tokens
import KeyFob.Proofs.Gate
import KeyFob.Proofs.Journal.Leads
import KeyFob.Storage.Memory

/-!
How long the gate waits. Where the clock follows the delays and the button is pressed only during them, the wait ends with
the pulse of the first press, or with the last pulse if there is none. A press from before the wait does not count.
-/

namespace KeyFob

/-- Time passes as it is waited for, and nobody presses the button but while it passes. -/
structure Punctual (ε : Type) [Surroundings ε] : Prop where
  elapse (ms : Nat) (o : ε) : Surroundings.uptime (Surroundings.elapse ms o).2 = Surroundings.uptime o + ms
  meanwhile (o : ε) : Surroundings.uptime (Surroundings.meanwhile o).2 = Surroundings.uptime o
  unpressed (o : ε) : .raise ∉ (Surroundings.meanwhile o).1

/-- Nothing but a press changes the confirm flag, and that raises it. -/
theorem confirm_foldl (as : List Action) (s : Signals) :
    (as.foldl Action.apply s).confirm = (s.confirm || decide (.raise ∈ as)) := by
  induction as generalizing s with
  | nil => simp
  | cons a as ih =>
    rw [List.foldl_cons, ih]
    cases a <;> simp [Action.apply, Signals.raise, Signals.linkUp, Signals.linkDown, Signals.bump, Signals.pressReset,
      Signals.request]

def ledWrites (t : List Entry) : List (Led × Bool) :=
  t.filterMap fun
    | .led l on => some (l, on)
    | _ => none

def delays (t : List Entry) : List Nat :=
  t.filterMap fun
    | .delay ms => some ms
    | _ => none

theorem ledWrites_own (t : List Entry) : ledWrites (own t) = ledWrites t := filterMap_own (fun _ => rfl) (fun _ => rfl) t

theorem delays_own (t : List Entry) : delays (own t) = delays t := filterMap_own (fun _ => rfl) (fun _ => rfl) t

theorem delays_append (t u : List Entry) : delays (t ++ u) = delays t ++ delays u := List.filterMap_append

/-- How the LED was last written, if it was. -/
def lastWrite (l : Led) (t : List Entry) : Option Bool := ((ledWrites t).reverse.find? (·.1 == l)).map (·.2)

theorem toList_add_add (j : Journal) (x y : Entry) : ((j.add x).add y).toList = j.toList ++ [x, y] := by
  rw [Journal.toList_add, Journal.toList_add, List.append_assoc]
  rfl

namespace Gate

open Config (ConfirmPolicy)

variable {ε κ τ : Type} [Surroundings ε]

/-- Whether the button is pressed in each of the delays of so many pulses, were all of them to be made. Before each pulse the
others get a turn. -/
def presses (halfMs : Nat) : Nat → ε → List Bool
  | 0, _ => []
  | pulses + 1, o =>
    let lit := Surroundings.elapse halfMs (Surroundings.meanwhile o).2
    let dark := Surroundings.elapse halfMs lit.2
    decide (.raise ∈ lit.1) :: decide (.raise ∈ dark.1) :: presses halfMs pulses dark.2

theorem length_presses (halfMs pulses : Nat) (o : ε) : (presses halfMs pulses o).length = 2 * pulses := by
  induction pulses generalizing o with
  | zero => rfl
  | succ pulses ih => rw [presses, List.length_cons, List.length_cons, ih, Nat.mul_succ]

/-- The first press is in this one of the delays, counted from one. -/
def FirstPress (ps : List Bool) (j : Nat) : Prop := ∃ i later, j = i + 1 ∧ ps = List.replicate i false ++ true :: later

/-- With these presses the wait ends behind so many pulses of those that it may take, and with this answer. -/
def EndsBehind (ps : List Bool) (pulses k : Nat) (confirmed : Bool) : Prop :=
  (confirmed = true ∧ ∃ j, FirstPress ps j ∧ k = (j + 1) / 2) ∨ (confirmed = false ∧ true ∉ ps ∧ k = pulses)

theorem not_firstPress_nil {j : Nat} : ¬ FirstPress [] j := by
  rintro ⟨i, later, -, h⟩
  simp at h

/-- A press in the first pulse ends the wait behind it; without one, the other pulses decide. -/
theorem EndsBehind.split {lit dark confirmed : Bool} {ps : List Bool} {pulses k : Nat}
    (h : EndsBehind (lit :: dark :: ps) (pulses + 1) k confirmed) :
    ((lit || dark) = true ∧ k = 1 ∧ confirmed = true) ∨
      ((lit || dark) = false ∧ ∃ k', k = k' + 1 ∧ EndsBehind ps pulses k' confirmed) := by
  obtain ⟨rfl, j, ⟨i, later, rfl, hps⟩, rfl⟩ | ⟨rfl, hnone, rfl⟩ := h
  · match i with
    | 0 =>
      obtain ⟨rfl, -⟩ := List.cons.inj hps
      exact Or.inl ⟨rfl, rfl, rfl⟩
    | 1 =>
      obtain ⟨rfl, rfl, -⟩ := by simpa using hps
      exact Or.inl ⟨rfl, rfl, rfl⟩
    | i + 2 =>
      obtain ⟨rfl, rfl, hlater⟩ := by simpa [List.replicate_succ] using hps
      exact Or.inr ⟨rfl, (i + 1 + 1) / 2, by omega, Or.inl ⟨rfl, i + 1, ⟨i, later, rfl, hlater⟩, rfl⟩⟩
  · obtain ⟨rfl, rfl, hps⟩ : lit = false ∧ dark = false ∧ true ∉ ps := by simpa using hnone
    exact Or.inr ⟨rfl, pulses, rfl, Or.inr ⟨rfl, hps, rfl⟩⟩

section steps

variable (d : Device ε κ τ)

theorem meanwhile_confirm (hp : Punctual ε) : (Run.meanwhile d).2.signals.confirm = d.signals.confirm := by
  have hsame := congrArg (·.2.signals.confirm) (Run.actAll_eq (Surroundings.meanwhile d.outside).1
    { d with outside := (Surroundings.meanwhile d.outside).2 })
  refine hsame.trans ((confirm_foldl _ _).trans ?_)
  rw [decide_eq_false (hp.unpressed _), Bool.or_false]

theorem delay_confirm (ms : Nat) : (Run.delay ms d).2.signals.confirm =
    (d.signals.confirm || decide (.raise ∈ (Surroundings.elapse ms d.outside).1)) :=
  (congrArg (·.2.signals.confirm) (Run.actAll_eq (Surroundings.elapse ms d.outside).1
    { d with outside := (Surroundings.elapse ms d.outside).2, journal := d.journal.add (.delay ms) })).trans
    (confirm_foldl _ _)

theorem pulse_outside (halfMs : Nat) : (pulse halfMs d).2.outside =
    (Surroundings.elapse halfMs (Surroundings.elapse halfMs d.outside).2).2 := by
  let lit := (Run.delay halfMs { d with journal := (d.journal.add (.led .activity true)).add (.led .link true) }).2
  have hlit : lit.outside = (Surroundings.elapse halfMs d.outside).2 := Run.delay_outside _ _
  rw [← hlit]
  exact Run.delay_outside { lit with journal := (lit.journal.add (.led .activity false)).add (.led .link false) } halfMs

theorem pulse_confirm (halfMs : Nat) : (pulse halfMs d).2.signals.confirm =
    (d.signals.confirm || (decide (.raise ∈ (Surroundings.elapse halfMs d.outside).1) ||
      decide (.raise ∈ (Surroundings.elapse halfMs (Surroundings.elapse halfMs d.outside).2).1))) := by
  let lit := (Run.delay halfMs { d with journal := (d.journal.add (.led .activity true)).add (.led .link true) }).2
  have houtside : lit.outside = (Surroundings.elapse halfMs d.outside).2 := Run.delay_outside _ _
  have hconfirm : lit.signals.confirm = (d.signals.confirm || decide (.raise ∈ (Surroundings.elapse halfMs d.outside).1)) :=
    delay_confirm _ _
  rw [← houtside, ← Bool.or_assoc, ← hconfirm]
  exact delay_confirm { lit with journal := (lit.journal.add (.led .activity false)).add (.led .link false) } halfMs

end steps

theorem prompts_succ (halfMs k : Nat) : prompts halfMs (k + 1) = prompt halfMs ++ prompts halfMs k := by
  rw [prompts, List.replicate_succ, List.flatten_cons, prompts]

/-- The wait has taken so many pulses and ended with this look at the flag, which is down. -/
structure Waited (halfMs k : Nat) (confirmed : Bool) (d d' : Device ε κ τ) : Prop where
  steps : ∃ t, d'.journal.toList = d.journal.toList ++ t ∧ own t = prompts halfMs k ++ [.takeConfirm confirmed]
  uptime : Surroundings.uptime d'.outside = Surroundings.uptime d.outside + k * (2 * halfMs)
  lowered : d'.signals.confirm = false

variable {d : Device ε κ τ} {halfMs pulses k : Nat} {confirmed : Bool}

theorem takeConfirm_waited (hp : Punctual ε) (halfMs : Nat) (hup : d.signals.confirm = confirmed) :
    (Run.takeConfirm d).1 = confirmed ∧ Waited halfMs 0 confirmed d (Run.takeConfirm d).2 := by
  obtain ⟨t, hj, -, ho⟩ := Run.takeConfirm_leaves d
  have hlook : (Run.takeConfirm d).1 = confirmed := (meanwhile_confirm d hp).trans hup
  have hclock : Surroundings.uptime (Run.meanwhile d).2.outside = Surroundings.uptime d.outside := by
    rw [Run.meanwhile_outside, hp.meanwhile]
  rw [hlook] at ho
  exact ⟨hlook, ⟨t, hj, ho⟩, by rw [Nat.zero_mul]; exact hclock, rfl⟩

theorem wait_succ (halfMs pulses : Nat) (d : Device ε κ τ) :
    wait halfMs (pulses + 1) d = if (Run.takeConfirm d).1 then (true, (Run.takeConfirm d).2)
      else wait halfMs pulses (pulse halfMs (Run.takeConfirm d).2).2 := by
  change (if (Run.takeConfirm d).1 = true then (pure true : Run ε κ τ Bool) else do
    pulse halfMs
    wait halfMs pulses) (Run.takeConfirm d).2 = _
  split <;> rfl

/-- With the flag up the wait ends at once. -/
theorem wait_of_up (hp : Punctual ε) (hup : d.signals.confirm = true) :
    wait halfMs pulses d = (true, (Run.takeConfirm d).2) := by
  have hlook := (takeConfirm_waited hp halfMs hup).1
  cases pulses with
  | zero => exact Prod.ext hlook rfl
  | succ pulses => rw [wait_succ, if_pos hlook]

/-- A look that finds the flag down, the pulse behind it, and the rest of the wait. -/
theorem Waited.behind_pulse (hp : Punctual ε) (hdown : d.signals.confirm = false) {d' : Device ε κ τ}
    (h : Waited halfMs k confirmed (pulse halfMs (Run.takeConfirm d).2).2 d') : Waited halfMs (k + 1) confirmed d d' := by
  obtain ⟨-, ⟨t, hj, ho⟩, hclock, -⟩ := takeConfirm_waited hp halfMs hdown
  obtain ⟨u, hj', -, ho'⟩ := pulse_leaves halfMs (Run.takeConfirm d).2
  obtain ⟨v, hj'', ho''⟩ := h.steps
  refine ⟨⟨t ++ (u ++ v), ?_, ?_⟩, ?_, h.lowered⟩
  · rw [hj'', hj', hj, List.append_assoc, List.append_assoc]
  · rw [own_append, own_append, ho, ho'', prompts_succ, ← ho']
    simp [prompts]
  · have hk : (k + 1) * (2 * halfMs) = k * (2 * halfMs) + 2 * halfMs := Nat.succ_mul _ _
    rw [h.uptime, pulse_outside, hp.elapse, hp.elapse, hclock, hk]
    omega

theorem wait_waited (hp : Punctual ε) (hdown : d.signals.confirm = false)
    (h : EndsBehind (presses halfMs pulses d.outside) pulses k confirmed) :
    (wait halfMs pulses d).1 = confirmed ∧ Waited halfMs k confirmed d (wait halfMs pulses d).2 := by
  induction pulses generalizing d k with
  | zero =>
    obtain ⟨-, j, hj, -⟩ | ⟨rfl, -, rfl⟩ := h
    · exact absurd hj not_firstPress_nil
    · exact takeConfirm_waited hp halfMs hdown
  | succ pulses ih =>
    obtain ⟨hlook, hwaited⟩ := takeConfirm_waited hp halfMs hdown
    have houtside : (Run.takeConfirm d).2.outside = (Surroundings.meanwhile d.outside).2 := Run.meanwhile_outside d
    have hpulse := pulse_confirm (Run.takeConfirm d).2 halfMs
    rw [hwaited.lowered, Bool.false_or, houtside] at hpulse
    rw [wait_succ, hlook, if_neg Bool.false_ne_true]
    obtain ⟨hpressed, rfl, rfl⟩ | ⟨hnot, k, rfl, hrest⟩ := EndsBehind.split h
    · have hup := hpulse.trans hpressed
      obtain ⟨-, hbehind⟩ := takeConfirm_waited hp halfMs hup
      rw [wait_of_up hp hup]
      exact ⟨rfl, hbehind.behind_pulse hp hdown⟩
    · rw [← houtside, ← pulse_outside] at hrest
      obtain ⟨hanswer, hbehind⟩ := ih (hpulse.trans hnot) hrest
      exact ⟨hanswer, hbehind.behind_pulse hp hdown⟩

theorem delays_prompts (halfMs k : Nat) : delays (prompts halfMs k) = List.replicate (2 * k) halfMs := by
  induction k with
  | zero => rfl
  | succ k ih =>
    rw [prompts_succ, delays_append, ih]
    rfl

/-- Behind any pulse the activity LED has been written off. -/
theorem lastWrite_prompts (halfMs : Nat) {k : Nat} (h : 0 < k) (confirmed : Bool) :
    lastWrite .activity (.clearConfirm :: (prompts halfMs k ++ [.takeConfirm confirmed, .led .link true])) = some false := by
  obtain ⟨k, rfl⟩ := Nat.exists_eq_add_of_lt h
  rw [Nat.zero_add, prompts, List.replicate_succ', List.flatten_append]
  simp [lastWrite, ledWrites, prompt]

/-- The wait for the button: what it answers, what it has done, and when it is over. -/
structure Awaited (p : ConfirmPolicy) (d : Device ε κ τ) (pulses : Nat) (out : Outcome) : Prop where
  outcome : (await p d).1 = out
  steps : own ((await p d).2.journal.since d.journal) =
    .clearConfirm :: (prompts p.halfPeriodMs.toNat pulses ++ [.takeConfirm out.permits, .led .link true])
  halves : delays ((await p d).2.journal.since d.journal) = List.replicate (2 * pulses) p.halfPeriodMs.toNat
  clock : Surroundings.uptime (await p d).2.outside = Surroundings.uptime d.outside + pulses * 2 * p.halfPeriodMs.toNat
  lowered : (await p d).2.signals.confirm = false
  activityOff (h : 0 < pulses) : lastWrite .activity ((await p d).2.journal.since d.journal) = some false
  linkOn : (ledWrites ((await p d).2.journal.since d.journal)).getLast? = some (.link, true)

def answerBehind (p : ConfirmPolicy) (k : Nat) : Bool → Outcome
  | true => .confirmed (k * 2 * p.halfPeriodMs.toNat)
  | false => .lockedOut

/-- Behind the wait the link LED is lit again, and the time is told. -/
theorem await_leads (hp : Punctual ε) (p : ConfirmPolicy) (d : Device ε κ τ)
    (h : EndsBehind (presses p.halfPeriodMs.toNat p.iterations.toNat (Surroundings.meanwhile d.outside).2)
      p.iterations.toNat k confirmed) :
    Leads (· = d) (await p : Run ε κ τ Outcome) fun out d' => out = answerBehind p k confirmed ∧
      ∃ waited, Waited p.halfPeriodMs.toNat k confirmed (Run.clearConfirm d).2 waited ∧ d'.outside = waited.outside ∧
        d'.signals = waited.signals ∧ ∃ n, d'.journal.toList = waited.journal.toList ++ [.led .link true, .note n] := by
  have houtside : (Run.clearConfirm d).2.outside = (Surroundings.meanwhile d.outside).2 := Run.meanwhile_outside d
  rw [← houtside] at h
  refine Leads.bind (Q := fun _ d' => d' = (Run.clearConfirm d).2) (by rintro _ rfl; rfl) fun _ => ?_
  refine Leads.bind (Q := fun started d' => started = Surroundings.uptime (Run.clearConfirm d).2.outside ∧
    d' = (Run.clearConfirm d).2) (by rintro _ rfl; exact ⟨rfl, rfl⟩) fun started => ?_
  refine Leads.bind (Q := fun b d' => started = Surroundings.uptime (Run.clearConfirm d).2.outside ∧ b = confirmed ∧
    Waited p.halfPeriodMs.toNat k confirmed (Run.clearConfirm d).2 d') ?_ fun b => ?_
  · rintro _ ⟨hstarted, rfl⟩
    exact ⟨hstarted, wait_waited hp rfl h⟩
  rintro waited ⟨hstarted, rfl, hwaited⟩
  have hwaitedMs : Surroundings.uptime waited.outside - started = k * 2 * p.halfPeriodMs.toNat := by
    rw [hwaited.uptime, hstarted, Nat.add_sub_cancel_left, Nat.mul_assoc]
  cases b with
  | true => exact ⟨congrArg Outcome.confirmed hwaitedMs, waited, hwaited, rfl, rfl, _, toList_add_add _ _ _⟩
  | false => exact ⟨rfl, waited, hwaited, rfl, rfl, _, toList_add_add _ _ _⟩

theorem await_awaited (hp : Punctual ε) (p : ConfirmPolicy) (d : Device ε κ τ)
    (h : EndsBehind (presses p.halfPeriodMs.toNat p.iterations.toNat (Surroundings.meanwhile d.outside).2)
      p.iterations.toNat k confirmed) : Awaited p d k (answerBehind p k confirmed) := by
  obtain ⟨hanswer, waited, ⟨⟨u, hj', hown'⟩, hclock, hlowered⟩, hout, hsignals, n, hj''⟩ := await_leads hp p d h d rfl
  obtain ⟨t, hj, -, hown⟩ := Run.clearConfirm_leaves d
  have hcleared : Surroundings.uptime (Run.clearConfirm d).2.outside = Surroundings.uptime d.outside :=
    (congrArg Surroundings.uptime (Run.meanwhile_outside d)).trans (hp.meanwhile _)
  have hsince : (await p d).2.journal.since d.journal = t ++ (u ++ [.led .link true, .note n]) :=
    Journal.since_eq (by rw [hj'', hj', hj, List.append_assoc, List.append_assoc])
  have hsteps : own ((await p d).2.journal.since d.journal) =
      .clearConfirm :: (prompts p.halfPeriodMs.toNat k ++ [.takeConfirm confirmed, .led .link true]) := by
    rw [hsince, own_append, own_append, hown, hown', List.append_assoc]
    rfl
  have hpermits : (answerBehind p k confirmed).permits = confirmed := by cases confirmed <;> rfl
  refine ⟨hanswer, hsteps.trans (by rw [hpermits]), ?_, ?_, ?_, fun hk => ?_, ?_⟩
  · rw [← delays_own, hsteps]
    change delays (prompts _ _ ++ _) = _
    rw [delays_append, delays_prompts]
    exact List.append_nil _
  · rw [hout, hclock, hcleared, Nat.mul_assoc]
  · rw [hsignals, hlowered]
  · rw [lastWrite, ← ledWrites_own, hsteps]
    exact lastWrite_prompts _ hk confirmed
  · rw [← ledWrites_own, hsteps]
    simp [ledWrites]

/-- What is left of a command that passes without a wait. -/
structure Passed (p : ConfirmPolicy) (c : Card.Command) (d : Device ε κ τ) : Prop where
  outcome : (evaluate p c d).1 = .bypassed
  undelayed : delays ((evaluate p c d).2.journal.since d.journal) = []
  unlit : ledWrites ((evaluate p c d).2.journal.since d.journal) = []
  clock : Surroundings.uptime (evaluate p c d).2.outside = Surroundings.uptime d.outside
  flag : (evaluate p c d).2.signals.confirm = d.signals.confirm

theorem evaluate_passed (hp : Punctual ε) (p : ConfirmPolicy) {c : Card.Command} (hc : c.requiresConfirmation = false)
    (d : Device ε κ τ) : Passed p c d := by
  have hpass : evaluate p c d = (.bypassed, { (Run.meanwhile d).2 with
      journal := ((Run.meanwhile d).2.journal.add (.judge c)).add (.judged .bypassed) }) := by
    unfold evaluate judge
    rw [hc]
    rfl
  obtain ⟨t, hj, -, hown⟩ := evaluate_leaves p c d
  have hsteps : own t = [.judge c, .judged .bypassed] := by
    obtain ⟨g, hg, hjudges⟩ := hown
    rw [hpass] at hg hjudges
    cases hjudges
    exact hg
  have hsince : (evaluate p c d).2.journal.since d.journal = t := Journal.since_eq hj
  refine ⟨by rw [hpass], ?_, ?_, ?_, ?_⟩
  · rw [hsince, ← delays_own, hsteps]
    rfl
  · rw [hsince, ← ledWrites_own, hsteps]
    rfl
  · rw [hpass]
    exact (congrArg Surroundings.uptime (Run.meanwhile_outside d)).trans (hp.meanwhile _)
  · rw [hpass]
    exact meanwhile_confirm d hp

/-- Where the clock is exact and the button is pressed only during the delays, the wait ends with the pulse of the first
press and is confirmed, or it takes all its pulses and locks out. Whether the flag was up before is of no account, and what
needs no confirmation neither waits nor touches the flag. -/
theorem wait_ends_with_the_first_press (hp : Punctual ε) (p : ConfirmPolicy) (d : Device ε κ τ) :
    let ps := presses p.halfPeriodMs.toNat p.iterations.toNat (Surroundings.meanwhile d.outside).2
    ps.length = 2 * p.iterations.toNat ∧
    (∀ j, FirstPress ps j → Awaited p d ((j + 1) / 2) (.confirmed ((j + 1) / 2 * 2 * p.halfPeriodMs.toNat))) ∧
    (true ∉ ps → Awaited p d p.iterations.toNat .lockedOut) ∧
    ∀ c : Card.Command, c.requiresConfirmation = false → Passed p c d := by
  intro ps
  refine ⟨length_presses _ _ _, fun j hj => ?_, fun hnone => ?_, fun c hc => evaluate_passed hp p hc d⟩
  · have hends : EndsBehind ps p.iterations.toNat ((j + 1) / 2) true := Or.inl ⟨rfl, j, hj, rfl⟩
    exact await_awaited hp p d hends
  · have hends : EndsBehind ps p.iterations.toNat p.iterations.toNat false := Or.inr ⟨rfl, hnone, rfl⟩
    exact await_awaited hp p d hends

/-- Surroundings in which nothing happens but that the button is pressed in some of the next delays. -/
structure Presses where
  now : Nat := 0
  pattern : List Bool

namespace Presses

instance : Surroundings Presses where
  uptime o := o.now
  elapse ms o := (if o.pattern.head? = some true then [.raise] else [], ⟨o.now + ms, o.pattern.tail⟩)
  told _ o := ([], o)
  meanwhile o := ([], o)
  apply _ o := (.ok (), o)
  connect q o := (.ok (), q, [], o)
  mounted _ := false
  unmount o := (.ok (), [], o)

theorem punctual : Punctual Presses := ⟨fun _ _ => rfl, fun _ => rfl, fun _ => List.not_mem_nil⟩

/-- Every pattern of presses comes up. -/
theorem presses_eq (halfMs pulses now : Nat) (pattern : List Bool) (h : pattern.length = 2 * pulses) :
    presses halfMs pulses (⟨now, pattern⟩ : Presses) = pattern := by
  induction pulses generalizing now pattern with
  | zero => exact (List.eq_nil_of_length_eq_zero h).symm
  | succ pulses ih =>
    match pattern, h with
    | [], h => simp at h
    | [_], h => simp at h; omega
    | lit :: dark :: later, h =>
      have hlater : presses halfMs pulses (⟨now + halfMs + halfMs, later⟩ : Presses) = later :=
        ih _ later (by simpa [Nat.mul_succ] using h)
      change decide (.raise ∈ if some lit = some true then [Action.raise] else []) ::
        decide (.raise ∈ if some dark = some true then [Action.raise] else []) ::
          presses halfMs pulses (⟨now + halfMs + halfMs, later⟩ : Presses) = _
      rw [hlater]
      cases lit <;> cases dark <;> rfl

/-- A fob whose button was pressed before the wait and will be pressed in these delays. -/
def device (pattern : List Bool) : Device Presses MemoryStore Bench.AnyToken where
  outside := ⟨1000, pattern⟩
  store := {}
  token := .scripted {}
  signals := ({} : Signals).raise

end Presses

theorem confirmed_in_the_second_pulse :
    let p : ConfirmPolicy := ⟨3, 250⟩
    let pressed := [false, false, true, false, true, false]
    let idle := List.replicate 6 false
    let challenge : Card.Command := ⟨0, Card.Ins.getChallenge, 0, 0, [], 8⟩
    Punctual Presses ∧ presses 250 3 (⟨1000, pressed⟩ : Presses) = pressed ∧ FirstPress pressed 3 ∧
      Awaited p (Presses.device pressed) 2 (.confirmed 1000) ∧
      presses 250 3 (⟨1000, idle⟩ : Presses) = idle ∧ true ∉ idle ∧ Awaited p (Presses.device idle) 3 .lockedOut ∧
      challenge.requiresConfirmation = false ∧ Passed p challenge (Presses.device idle) := by
  intro p pressed idle challenge
  have hpressed := Presses.presses_eq 250 3 1000 pressed rfl
  have hidle := Presses.presses_eq 250 3 1000 idle rfl
  have hfirst : FirstPress pressed 3 := ⟨2, [false, true, false], rfl, rfl⟩
  have hnone : true ∉ idle := by decide
  have hc : challenge.requiresConfirmation = false := by decide
  obtain ⟨-, hconfirmed, -, -⟩ := wait_ends_with_the_first_press Presses.punctual p (Presses.device pressed)
  obtain ⟨-, -, hlocked, hpassed⟩ := wait_ends_with_the_first_press Presses.punctual p (Presses.device idle)
  exact ⟨Presses.punctual, hpressed, hfirst, hconfirmed 3 (hpressed.symm ▸ hfirst), hidle, hnone,
    hlocked (hidle.symm ▸ hnone), hc, hpassed challenge hc⟩

end Gate

end KeyFob
