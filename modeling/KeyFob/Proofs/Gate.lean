import KeyFob.Gate
import KeyFob.Proofs.Journal.Leaves

/-!
What the gate leaves in the journal. A sensitive command is preceded by a number of prompts, each behind a look that
found the flag down; the look behind them decides.
-/

namespace KeyFob.Gate

open Config (ConfirmPolicy)

/-- A look that finds nothing, and the pulse that follows it. -/
def prompt (halfMs : Nat) : List Entry :=
  [.takeConfirm false, .led .activity true, .led .link true, .delay halfMs, .led .activity false, .led .link false,
    .delay halfMs]

def prompts (halfMs k : Nat) : List Entry := (List.replicate k (prompt halfMs)).flatten

inductive Judges (p : ConfirmPolicy) (c : Card.Command) : Outcome → List Entry → Prop
  | bypassed (h : c.requiresConfirmation = false) : Judges p c .bypassed []
  | confirmed (h : c.requiresConfirmation = true) (k waitedMs : Nat) (hk : k ≤ p.iterations.toNat) :
    Judges p c (.confirmed waitedMs)
      (.clearConfirm :: (prompts p.halfPeriodMs.toNat k ++ [.takeConfirm true, .led .link true]))
  | lockedOut (h : c.requiresConfirmation = true) :
    Judges p c .lockedOut
      (.clearConfirm :: (prompts p.halfPeriodMs.toNat p.iterations.toNat ++ [.takeConfirm false, .led .link true]))

def isWait : Entry → Bool
  | .clearConfirm | .takeConfirm _ | .led _ _ | .delay _ => true
  | _ => false

theorem prompts_wait (halfMs k : Nat) : ∀ x ∈ prompts halfMs k, isWait x = true := by
  intro x hx
  obtain ⟨l, hl, hx⟩ := List.mem_flatten.1 hx
  obtain rfl := List.eq_of_mem_replicate hl
  simp only [prompt, List.mem_cons, List.not_mem_nil, or_false] at hx
  rcases hx with rfl | rfl | rfl | rfl | rfl | rfl | rfl <;> rfl

theorem Judges.waits {p : ConfirmPolicy} {c : Card.Command} {out : Outcome} {g : List Entry} (h : Judges p c out g) :
    ∀ x ∈ g, isWait x = true := by
  have waits : ∀ k b, ∀ x ∈ .clearConfirm :: (prompts p.halfPeriodMs.toNat k ++ [.takeConfirm b, .led .link true]),
      isWait x = true := by
    intro k b x hx
    simp only [List.mem_cons, List.mem_append, List.not_mem_nil, or_false] at hx
    rcases hx with rfl | hx | rfl | rfl
    · rfl
    · exact prompts_wait _ _ x hx
    · rfl
    · rfl
  cases h with
  | bypassed => simp
  | confirmed _ k => exact waits k true
  | lockedOut => exact waits _ false

variable {ε κ τ : Type} [Surroundings ε]

theorem pulse_leaves (halfMs : Nat) :
    Leaves (pulse halfMs : Run ε κ τ Unit) fun _ o => .takeConfirm false :: o = prompt halfMs := by
  unfold pulse
  refine (Run.led_leaves _ _).step fun _ => (Run.led_leaves _ _).step fun _ => (Run.delay_leaves _).step fun _ => ?_
  refine (Run.led_leaves _ _).step fun _ => (Run.led_leaves _ _).step fun _ => ?_
  exact (Run.delay_leaves _).mono fun _ _ h => by rw [h]; rfl

/-- The wait ends with the first look that finds the flag up, or with the look behind the last pulse. -/
theorem wait_leaves (halfMs n : Nat) :
    Leaves (wait halfMs n : Run ε κ τ Bool) fun b o =>
      ∃ k ≤ n, o = prompts halfMs k ++ [.takeConfirm b] ∧ (b = false → k = n) := by
  induction n with
  | zero => exact Run.takeConfirm_leaves.mono fun b o h => ⟨0, Nat.le_refl _, h, fun _ => rfl⟩
  | succ n ih =>
    refine Run.takeConfirm_leaves.bind fun b o h => ?_
    subst h
    cases b with
    | true => exact .pure ⟨0, Nat.zero_le _, rfl, nofun⟩
    | false =>
      refine (pulse_leaves halfMs).bind fun _ o h => ih.mono fun b o' h' => ?_
      obtain ⟨k, hk, rfl, hb⟩ := h'
      refine ⟨k + 1, Nat.succ_le_succ hk, ?_, fun hf => congrArg (· + 1) (hb hf)⟩
      simp [prompts, List.replicate_succ, ← h]

theorem await_leaves (p : ConfirmPolicy) {c : Card.Command} (hc : c.requiresConfirmation = true) :
    Leaves (await p : Run ε κ τ Outcome) (Judges p c) := by
  unfold await
  refine Run.clearConfirm_leaves.step fun _ => Run.uptime_leaves.skip fun started => ?_
  refine (wait_leaves _ _).bind fun b o h => ?_
  obtain ⟨k, hk, rfl, hb⟩ := h
  refine (Run.led_leaves _ _).step fun _ => Run.uptime_leaves.skip fun now => ?_
  cases b with
  | true =>
    refine (Run.log_leaves _ _ _).skip fun _ => .pure ?_
    simpa using Judges.confirmed hc k (now - started) hk
  | false =>
    refine (Run.log_leaves _ _ _).skip fun _ => .pure ?_
    obtain rfl := hb rfl
    simpa using Judges.lockedOut hc

theorem evaluate_leaves (p : ConfirmPolicy) (c : Card.Command) :
    Leaves (evaluate p c : Run ε κ τ Outcome) fun r o => ∃ g, o = .judge c :: (g ++ [.judged r]) ∧ Judges p c r g := by
  have judges : Leaves (judge p c : Run ε κ τ Outcome) (Judges p c) := by
    unfold judge
    split
    · next hc => exact (Run.log_leaves _ _ _).skip fun _ => await_leaves p hc
    · next hc => exact .pure (.bypassed (by simpa using hc))
  refine Run.meanwhile_leaves.skip fun _ => ?_
  refine Leaves.step (Run.add_leaves fun _ => ⟨trivial, rfl⟩) fun _ => judges.bind fun r g h => ?_
  exact .step (Run.add_leaves fun _ => ⟨trivial, rfl⟩) fun _ => .pure ⟨g, rfl, h⟩

end KeyFob.Gate
