import KeyFob.Proofs.Config.Usable
import KeyFob.Proofs.Gate.Timing

/-!
The length of a wait that no press ends. It takes two half periods for each pulse, and that may be one bit more than a
word has: the settings are held to no rule that prevents it. What a policy says of the length is right where it fits.
-/

namespace KeyFob

namespace Config

theorem checkedMul?_eq_some_iff {a b c : UInt64} : checkedMul? a b = some c ↔ c.toNat = a.toNat * b.toNat := by
  unfold checkedMul?
  split
  · next hfits =>
    have hmul : (a * b).toNat = a.toNat * b.toNat := Nat.mod_eq_of_lt hfits
    rw [Option.some.injEq, ← UInt64.toNat_inj, hmul]
    exact eq_comm
  · next hlarge => exact iff_of_false nofun fun h => hlarge (h ▸ c.toNat_lt_size)

theorem checkedMul?_eq_none_iff {a b : UInt64} : checkedMul? a b = none ↔ UInt64.size ≤ a.toNat * b.toNat := by
  unfold checkedMul?
  split
  · next hfits => exact iff_of_false nofun (Nat.not_le.2 hfits)
  · next hlarge => exact iff_of_true rfl (Nat.not_lt.1 hlarge)

namespace ConfirmPolicy

variable {p : ConfirmPolicy} {ms : UInt64}

def wholeMs (p : ConfirmPolicy) : Nat := p.iterations.toNat * 2 * p.halfPeriodMs.toNat

/-- Twice a word of 32 bits is always a word of 64. -/
theorem halves_checked (p : ConfirmPolicy) :
    checkedMul? p.iterations.toUInt64 2 = some (p.iterations.toUInt64 * 2) ∧
      (p.iterations.toUInt64 * 2).toNat = p.iterations.toNat * 2 := by
  have hfits : p.iterations.toUInt64.toNat * (2 : UInt64).toNat < UInt64.size := by
    have hword := p.iterations.toNat_lt
    rw [UInt32.toNat_toUInt64]
    change p.iterations.toNat * 2 < 2 ^ 64
    omega
  have hmul : (p.iterations.toUInt64 * 2).toNat = p.iterations.toUInt64.toNat * (2 : UInt64).toNat :=
    Nat.mod_eq_of_lt hfits
  exact ⟨if_pos hfits, hmul.trans (by rw [UInt32.toNat_toUInt64]; rfl)⟩

theorem deadlineMs?_eq (p : ConfirmPolicy) :
    p.deadlineMs? = checkedMul? (p.iterations.toUInt64 * 2) p.halfPeriodMs.toUInt64 := by
  rw [deadlineMs?, (halves_checked p).1]
  rfl

theorem deadlineMs?_eq_some_iff : p.deadlineMs? = some ms ↔ ms.toNat = p.wholeMs := by
  rw [deadlineMs?_eq, checkedMul?_eq_some_iff, (halves_checked p).2, UInt32.toNat_toUInt64, wholeMs]

theorem deadlineMs?_eq_none_iff : p.deadlineMs? = none ↔ UInt64.size ≤ p.wholeMs := by
  rw [deadlineMs?_eq, checkedMul?_eq_none_iff, (halves_checked p).2, UInt32.toNat_toUInt64, wholeMs]

theorem toNat_deadlineMs (p : ConfirmPolicy) : p.deadlineMs.toNat = p.wholeMs % UInt64.size := by
  rw [deadlineMs, UInt64.toNat_mul, (halves_checked p).2, UInt32.toNat_toUInt64]
  rfl

end ConfirmPolicy

/-- Of the confirmation the rules only ask that neither of its numbers is zero. -/
theorem Settings.validate_confirm {s : Settings} (h : s.validate = .ok ()) {p : ConfirmPolicy} (hp : p.iterations ≠ 0)
    (hp' : p.halfPeriodMs ≠ 0) : { s with confirm := p }.validate = .ok () := by
  obtain ⟨hne, hnetworks, hport, -, hrest⟩ := validate_eq_ok.1 h
  exact validate_eq_ok.2 ⟨hne, hnetworks, hport, not_or.2 ⟨hp, hp'⟩, hrest⟩

end Config

namespace Gate

open Config (ConfirmPolicy Settings)

variable {ε κ τ : Type} [Surroundings ε] {p : ConfirmPolicy}

/-- Whoever is locked out has waited through every half period. -/
theorem delays_of_lockedOut {c : Card.Command} {d : Device ε κ τ} (h : (evaluate p c d).1 = .lockedOut) :
    delays ((evaluate p c d).2.journal.since d.journal) =
      List.replicate (2 * p.iterations.toNat) p.halfPeriodMs.toNat := by
  obtain ⟨t, hj, -, g, hown, hjudges⟩ := evaluate_leaves p c d
  rw [h] at hjudges hown
  rw [Journal.since_eq hj, ← delays_own, hown]
  cases hjudges with
  | lockedOut hc =>
    change delays ((prompts _ _ ++ _) ++ _) = _
    rw [delays_append, delays_append, delays_prompts]
    simp [delays]

theorem sum_delays_of_lockedOut {c : Card.Command} {d : Device ε κ τ} (h : (evaluate p c d).1 = .lockedOut) :
    (delays ((evaluate p c d).2.journal.since d.journal)).sum = p.wholeMs := by
  rw [delays_of_lockedOut h, List.sum_replicate_nat, ConfirmPolicy.wholeMs, Nat.mul_comm 2]

/-- Where the clock is exact, and nobody presses the button while the others take their turns nor during any of the
delays, a sensitive command is locked out. -/
theorem evaluate_lockedOut (hp : Punctual ε) {c : Card.Command} (hc : c.requiresConfirmation = true) {d : Device ε κ τ}
    (hnone : true ∉ presses p.halfPeriodMs.toNat p.iterations.toNat
      (Surroundings.meanwhile (Surroundings.meanwhile d.outside).2).2) : (evaluate p c d).1 = .lockedOut := by
  let announced := "GATE: INS " ++ Hex.byte c.ins ++ s!" needs confirmation ({p.deadlineMs} ms)"
  let told := (Run.log .info .gate announced (Run.add (.judge c) (Run.meanwhile d).2).2).2
  have houtside : told.outside = (Surroundings.meanwhile d.outside).2 := Run.meanwhile_outside d
  rw [← houtside] at hnone
  have hawait : (evaluate p c d).1 = (await p told).1 := by
    unfold evaluate judge
    rw [hc]
    rfl
  rw [hawait, (await_awaited hp p told (Or.inr ⟨rfl, hnone, rfl⟩)).outcome]
  rfl

theorem Presses.not_pressed (halfMs pulses now : Nat) : true ∉ presses halfMs pulses (⟨now, []⟩ : Presses) := by
  induction pulses generalizing now with
  | zero => exact List.not_mem_nil
  | succ pulses ih =>
    intro h
    simp only [presses, List.mem_cons] at h
    obtain h | h | h := h
    · cases h
    · cases h
    · exact ih _ h

/-- Settings that break no rule may ask for a wait whose length does not fit into a word. The delays before a lockout are
the two half periods of every pulse all the same; the length that the policy tells is right exactly where they fit, and
otherwise there is none, or its upper bits are missing. -/
theorem lockout_takes_the_deadline_where_it_fits {s : Settings} (hs : s.validate = .ok ()) {c : Card.Command}
    {d : Device ε κ τ} (h : (evaluate s.confirm c d).1 = .lockedOut) :
    let waitedMs := (delays ((evaluate s.confirm c d).2.journal.since d.journal)).sum
    waitedMs = s.confirm.iterations.toNat * 2 * s.confirm.halfPeriodMs.toNat ∧
    (s.confirm.deadlineMs? ≠ none ↔ waitedMs < UInt64.size) ∧
    (∀ ms, s.confirm.deadlineMs? = some ms → ms.toNat = waitedMs) ∧
    s.confirm.deadlineMs.toNat = waitedMs % UInt64.size ∧
    ∀ p : ConfirmPolicy, p.iterations ≠ 0 → p.halfPeriodMs ≠ 0 → { s with confirm := p }.validate = .ok () := by
  intro waitedMs
  have hwaited : waitedMs = s.confirm.wholeMs := sum_delays_of_lockedOut h
  refine ⟨hwaited, ?_, fun ms hms => ?_, ?_, fun p hp hp' => Settings.validate_confirm hs hp hp'⟩
  · rw [hwaited, Ne, ConfirmPolicy.deadlineMs?_eq_none_iff, Nat.not_le]
  · rw [hwaited]
    exact ConfirmPolicy.deadlineMs?_eq_some_iff.1 hms
  · rw [hwaited]
    exact ConfirmPolicy.toNat_deadlineMs _

def sign : Card.Command := ⟨0, Card.Ins.performSecurityOperation, 0x9e, 0x9a, [1], 8⟩

theorem idle_lockedOut (p : ConfirmPolicy) : (evaluate p sign (Presses.device [])).1 = .lockedOut :=
  evaluate_lockedOut Presses.punctual (by decide) (Presses.not_pressed _ _ _)

theorem default_lockout_takes_the_deadline :
    (evaluate Settings.default.confirm sign (Presses.device [])).1 = .lockedOut ∧
      (delays ((evaluate Settings.default.confirm sign (Presses.device [])).2.journal.since
        (Presses.device []).journal)).sum = 15000 ∧ Settings.default.confirm.deadlineMs? = some 15000 := by
  obtain ⟨hwaited, hfits, htold, -⟩ :=
    lockout_takes_the_deadline_where_it_fits Settings.default_valid (idle_lockedOut Settings.default.confirm)
  refine ⟨idle_lockedOut _, hwaited, ?_⟩
  obtain ⟨ms, hms⟩ := Option.ne_none_iff_exists'.1 (hfits.2 (hwaited.symm ▸ by decide))
  obtain rfl : ms = 15000 := UInt64.toNat_inj.1 ((htold ms hms).trans hwaited)
  exact hms

/-- A wait of more than five hundred million years. -/
def endless : Settings := { Settings.default with confirm := ⟨4294967295, 2147483649⟩ }

theorem deadline_lost_with_accepted_settings :
    endless.validate = .ok () ∧ (evaluate endless.confirm sign (Presses.device [])).1 = .lockedOut ∧
      (delays ((evaluate endless.confirm sign (Presses.device [])).2.journal.since (Presses.device []).journal)).sum =
        18446744078004518910 ∧
      endless.confirm.deadlineMs? = none ∧ endless.confirm.deadlineMs = 4294967294 := by
  have hlocked := idle_lockedOut endless.confirm
  refine ⟨Settings.validate_confirm Settings.default_valid (by decide) (by decide), hlocked, ?_, ?_, ?_⟩
  · rw [sum_delays_of_lockedOut hlocked]
    rfl
  · rw [ConfirmPolicy.deadlineMs?_eq_none_iff]
    decide
  · rw [← UInt64.toNat_inj, ConfirmPolicy.toNat_deadlineMs]
    rfl

end Gate

end KeyFob
