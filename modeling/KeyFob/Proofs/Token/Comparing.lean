import KeyFob.Proofs.Token.Reaction

/-!
The PIN comparisons of the software token. It compares only when it is asked to check the PIN with some data, and has a
retry left. Of a command that makes no comparison the answer says nothing about the PIN, and nothing about the retries
changes.
-/

namespace KeyFob.SoftToken

open Card (Command Response)

/-- A command that checks the PIN: it is no part of a chain, and its data, chained parts in front, is not too long. -/
def ChecksPin (t : SoftToken) (c : Command) : Prop :=
  c.cla = 0 ∧ c.ins = Card.Ins.verify ∧ (t.chain ++ c.data).length ≤ Card.maxData

instance (t : SoftToken) (c : Command) : Decidable (ChecksPin t c) :=
  inferInstanceAs (Decidable (_ ∧ _ ∧ _))

/-- The comparison that a command makes, if it makes one: whether its data is the PIN. -/
def compares (t : SoftToken) (c : Command) : Option Bool :=
  if t.secret.isSome ∧ ChecksPin t c ∧ t.retries ≠ 0 ∧ t.chain ++ c.data ≠ [] then some (t.chain ++ c.data = t.pin)
  else none

variable {t : SoftToken} {c : Command}

theorem react_of_unprovisioned (h : t.secret = none) : react c t = (.ofStatus .securityStatusNotSatisfied, t) := by
  unfold react process
  rw [if_pos (by rw [h]; rfl)]
  rfl

/-- A check of the PIN comes to the rules of PIN verification. -/
theorem react_of_checksPin (hsecret : t.secret.isSome = true) (h : ChecksPin t c) :
    react c t = ({ t with chain := [] }.verify (t.chain ++ c.data) (⟨{}, []⟩ : Shelf MemoryStore)).1 := by
  obtain ⟨hcla, hins, hfits⟩ := h
  have hjoin : joinData? t.chain c.data = some (t.chain ++ c.data) := if_pos (by rwa [List.length_append] at hfits)
  have hchained : c.isChained = false := by
    rw [Command.isChained, hcla]
    rfl
  have hprovisioned : t.secret.isNone = false := by
    rw [Option.isNone_eq_false_iff]
    exact hsecret
  unfold react process
  simp only [hprovisioned, hchained, hcla, hjoin, ne_eq, not_true_eq_false, if_false, Bool.false_eq_true]
  unfold execute
  rw [if_neg (by rw [hins]; decide), if_pos hins]

theorem compares_eq_some {b : Bool} (h : compares t c = some b) :
    t.secret.isSome = true ∧ ChecksPin t c ∧ t.retries ≠ 0 ∧ t.chain ++ c.data ≠ [] ∧
      b = decide (t.chain ++ c.data = t.pin) := by
  unfold compares at h
  split at h
  · next hall => exact ⟨hall.1, hall.2.1, hall.2.2.1, hall.2.2.2, (Option.some.inj h).symm⟩
  · cases h

/-- The right PIN brings all retries back. -/
theorem react_of_match (h : compares t c = some true) :
    react c t = (.ofStatus .success, { t with verified := true, retries := maxRetries, chain := [] }) := by
  obtain ⟨hsecret, hchecks, hretries, hne, hdata⟩ := compares_eq_some h
  rw [react_of_checksPin hsecret hchecks]
  unfold verify
  rw [if_neg hretries, if_neg hne, if_pos (of_decide_eq_true hdata.symm)]
  split <;> rfl

/-- A wrong PIN costs a retry. -/
theorem react_of_mismatch (h : compares t c = some false) :
    react c t = (.ofStatus (.verifyFailed (t.retries - 1)),
      { t with verified := false, retries := t.retries - 1, chain := [] }) := by
  obtain ⟨hsecret, hchecks, hretries, hne, hdata⟩ := compares_eq_some h
  rw [react_of_checksPin hsecret hchecks]
  unfold verify
  rw [if_neg hretries, if_neg hne, if_neg (of_decide_eq_false hdata.symm)]
  rfl

/-- Without a retry left, checking the PIN comes to nothing. -/
theorem react_of_blocked (hsecret : t.secret.isSome = true) (h : ChecksPin t c) (hretries : t.retries = 0) :
    react c t = (.ofStatus .authMethodBlocked, { t with chain := [] }) := by
  rw [react_of_checksPin hsecret h]
  unfold verify
  rw [if_pos hretries]
  rfl

/-- An answer without a look at the PIN, which costs no retry and wins none. -/
def Blind (t : SoftToken) (f : SoftToken → Response × SoftToken) : Prop :=
  (∀ pin, f { t with pin } = ((f t).1, { (f t).2 with pin })) ∧
    (f t).2.retries = t.retries ∧ (f t).2.verified = t.verified

variable {s : Shelf MemoryStore}

theorem execute_blind {data : Bytes} (hins : c.ins ≠ Card.Ins.verify) :
    Blind t fun t => ({ t with chain := [] }.execute c data .empty s).1 := by
  unfold execute
  by_cases hchallenge : c.ins = Card.Ins.getChallenge
  · simp only [hchallenge, if_true]
    unfold challenge
    split <;> exact ⟨fun _ => rfl, rfl, rfl⟩
  by_cases hsign : c.ins = Card.Ins.performSecurityOperation
  · simp only [if_neg hchallenge, if_neg hins, if_pos hsign]
    exact ⟨fun _ => rfl, rfl, rfl⟩
  by_cases hauth : c.ins = Card.Ins.internalAuthenticate
  · simp only [if_neg hchallenge, if_neg hins, if_neg hsign, if_pos hauth]
    exact ⟨fun _ => rfl, rfl, rfl⟩
  · simp only [if_neg hchallenge, if_neg hins, if_neg hsign, if_neg hauth]
    exact ⟨fun _ => rfl, rfl, rfl⟩

theorem process_blind (h : t.secret.isSome = true → ¬ ChecksPin t c) :
    Blind t fun t => (process c t .empty s).1 := by
  unfold Blind process
  by_cases hsecret : t.secret.isNone = true
  · simp only [hsecret, if_true]
    exact ⟨fun _ => rfl, rfl, rfl⟩
  by_cases hchained : c.isChained = true
  · simp only [hsecret, hchained, if_true]
    cases joinData? t.chain c.data <;> exact ⟨fun _ => rfl, rfl, rfl⟩
  by_cases hcla : c.cla = 0
  · simp only [hsecret, hchained, hcla]
    cases hjoin : joinData? t.chain c.data with
    | none => exact ⟨fun _ => rfl, rfl, rfl⟩
    | some data =>
      have hprovisioned : t.secret.isSome = true := by simpa [Option.isSome_iff_ne_none] using hsecret
      refine execute_blind fun hins => h hprovisioned ⟨hcla, hins, ?_⟩
      rw [List.length_append]
      exact joinData?_fits hjoin
  · simp only [hsecret, hchained, hcla, ne_eq, not_false_eq_true, if_true]
    exact ⟨fun _ => rfl, rfl, rfl⟩

theorem verify_blind {data : Bytes} (h : t.retries = 0 ∨ data = []) :
    Blind t fun t => ({ t with chain := [] }.verify data s).1 := by
  unfold Blind verify
  by_cases hretries : t.retries = 0
  · simp only [hretries, if_true]
    exact ⟨fun _ => rfl, rfl, rfl⟩
  · simp only [hretries, h.resolve_left hretries, if_true, if_false]
    exact ⟨fun _ => rfl, rfl, rfl⟩

theorem react_blind (h : compares t c = none) : Blind t (react c) := by
  by_cases hchecks : t.secret.isSome = true ∧ ChecksPin t c
  · have hasked : t.retries = 0 ∨ t.chain ++ c.data = [] := by
      by_cases hretries : t.retries = 0
      · exact Or.inl hretries
      refine Or.inr (Decidable.byContradiction fun hne => ?_)
      cases h.symm.trans (if_pos ⟨hchecks.1, hchecks.2, hretries, hne⟩)
    have hblind := verify_blind (s := ⟨{}, []⟩) hasked
    have hreact (pin : Bytes) := react_of_checksPin (t := { t with pin }) hchecks.1 hchecks.2
    rw [Blind, hreact t.pin]
    exact ⟨fun pin => (hreact pin).trans (hblind.1 pin), hblind.2⟩
  · exact process_blind fun hsecret hc => hchecks ⟨hsecret, hc⟩

end KeyFob.SoftToken
