import KeyFob.Proofs.Token.Comparing
import KeyFob.Proofs.Token.Resuming

/-!
The retries of a token over its whole life, starts included, on a store where nothing fails. However often the fob starts,
what is left of the retries is what the comparisons so far have left: at most three in a row fail, and behind them there
is no other, no signature, and no answer to a check of the PIN but that it is blocked.
-/

namespace KeyFob.SoftToken

open Card (Command Response)

section definitions

variable {κ : Type} [Storage κ]

/-- The fob starts anew, with a token that reloads what is stored, or the token is called. -/
inductive Turn
  | boot (entropy : Entropy)
  | call (call : Call)

structure Answered where
  before : SoftToken
  command : Command
  response : Response
  after : SoftToken

def Call.answered (t : SoftToken) (call : Call) (r : Option Response × SoftToken) : List Answered :=
  match call, r.1 with
  | .process command, some response => [⟨t, command, response, r.2⟩]
  | _, _ => []

def Turn.take (t : SoftToken) : Turn → OnShelf κ (List Answered × SoftToken)
  | boot entropy => do
    let (_, t) ← restore { entropy }
    return ([], t)
  | call c => do
    let r ← c.make t
    return (c.answered t r, r.2)

def takeTurns : List Turn → SoftToken → OnShelf κ (List Answered × SoftToken)
  | [], t => return ([], t)
  | turn :: turns, t => do
    let (as, t) ← turn.take t
    let (rest, t) ← takeTurns turns t
    return (as ++ rest, t)

/-- What a new token has answered since it was made ready, if it could be, and the token at the end. -/
def lifetime (start : Readying) (entropy : Entropy) (turns : List Turn) : OnShelf κ (List Answered × SoftToken) := do
  let (_, t) ← start.perform { entropy }
  takeTurns turns t

def answerTo (t : SoftToken) (c : Command) : Answered := ⟨t, c, (react c t).1, (react c t).2⟩

def Answered.compared (a : Answered) : Option Bool := compares a.before a.command

def comparisons (as : List Answered) : List Bool := as.filterMap Answered.compared

structure Answered.Refused (a : Answered) : Prop where
  uncompared : a.compared = none
  /-- The answer would be the same whatever the PIN. -/
  blind (pin : Bytes) : react a.command { a.before with pin } = (a.response, { a.after with pin })
  blocked (h : ChecksPin a.before a.command) : a.response = .ofStatus .authMethodBlocked
  unsigned (h : a.command.ins = Card.Ins.performSecurityOperation) : ¬ CarriesDigest a.command a.response

/-- A verified token has all its retries, and no token has more. -/
structure Counted (t : SoftToken) : Prop where
  retries : t.retries ≤ maxRetries
  verified (h : t.verified = true) : t.retries = maxRetries

/-- What the answer has done to the counter: a comparison that fails takes one from it, and one that succeeds fills it. -/
structure Answered.Counts (a : Answered) : Prop where
  before : Counted a.before
  after : Counted a.after
  kept (h : a.compared = none) : a.after.retries = a.before.retries
  filled (h : a.compared = some true) : a.after.retries = maxRetries
  taken (h : a.compared = some false) : a.after.retries.toNat + 1 = a.before.retries.toNat

/-- What holds of all that a token has answered, over all starts, and of the token as it is. -/
structure Tally (as : List Answered) (t : SoftToken) : Prop where
  counted : Counted t
  counts (a : Answered) (h : a ∈ as) : a.Counts
  /-- No more than three comparisons in a row fail. -/
  bounded (n : Nat) (h : List.replicate n false <:+: comparisons as) : n ≤ 3
  /-- Behind three that have failed in a row everything is refused. -/
  refused (as₁ as₂ : List Answered) (h : as = as₁ ++ as₂) (hfailed : List.replicate 3 false <:+ comparisons as₁)
    (a : Answered) (ha : a ∈ as₂) : a.Refused

end definitions

theorem comparisons_concat (as : List Answered) (a : Answered) :
    comparisons (as ++ [a]) = comparisons as ++ a.compared.toList := by
  rw [comparisons, List.filterMap_append, ← comparisons]
  cases h : a.compared <;> simp [h]

theorem replicate_suffix_concat {n : Nat} {b : Bool} {bs : List Bool} (h : List.replicate n false <:+ bs ++ [b]) :
    n = 0 ∨ b = false ∧ List.replicate (n - 1) false <:+ bs := by
  cases n with
  | zero => exact Or.inl rfl
  | succ n =>
    rw [List.replicate_succ', List.suffix_concat_iff] at h
    obtain h | ⟨us, hus, hsuffix⟩ := h
    · simp at h
    · obtain ⟨rfl, hb⟩ := List.append_inj' hus rfl
      exact Or.inr ⟨(List.cons.inj hb).1.symm, hsuffix⟩

variable {C : Contents} {t : SoftToken} {as : List Answered} {c : Command}

/-- The store mirrors the token, or it holds nothing to reload and the token is as new. -/
def Standing (C : Contents) (t : SoftToken) : Prop :=
  Mirrors C t ∨ (¬ ∃ secret pin n, Loadable C secret pin n) ∧ t.secret = none ∧ t.retries = maxRetries ∧ t.verified = false

theorem Standing.retries (h : Standing C t) : t.retries ≤ maxRetries := by
  obtain h | ⟨-, -, h, -⟩ := h
  · exact h.retries
  · exact h ▸ UInt8.le_refl _

theorem Standing.provisioned (h : Standing C t) (hretries : t.retries = 0) : t.secret.isSome = true := by
  obtain ⟨secret, h, -⟩ | ⟨-, -, h, -⟩ := h
  · rw [h]
    rfl
  · exact absurd (h.symm.trans hretries) (by decide)

/-- What the token has answered so far, and the counter with it: what has failed in a row is missing from it. -/
structure Ongoing {κ : Type} [Storage κ] [Honest κ] (as : List Answered) (t : SoftToken) (s : Shelf κ) : Prop
    extends Tally as t where
  stands : Standing (Honest.contents s.store) t
  row (n : Nat) (h : List.replicate n false <:+ comparisons as) : t.retries.toNat + n ≤ 3

variable {κ : Type} [Storage κ] [Honest κ] {s s' : Shelf κ}

/-- Whoever keeps the counter keeps the tally. -/
theorem Ongoing.of_retries_eq {t' : SoftToken} (h : Ongoing as t s) (hstands : Standing (Honest.contents s'.store) t')
    (hretries : t'.retries = t.retries) (hverified : t'.verified = false) : Ongoing as t' s' where
  counted := ⟨hstands.retries, fun hv => by rw [hverified] at hv; cases hv⟩
  counts := h.counts
  bounded := h.bounded
  refused := h.refused
  stands := hstands
  row := hretries ▸ h.row

theorem answerTo_counts (h : Counted t) (c : Command) : (t.answerTo c).Counts := by
  cases hc : compares t c with
  | none =>
    obtain ⟨-, hretries, hverified⟩ := react_blind hc
    have hafter : Counted (react c t).2 :=
      ⟨hretries ▸ h.retries, fun hv => hretries.trans (h.verified (hverified.symm.trans hv))⟩
    refine ⟨h, hafter, fun _ => hretries, fun hs => ?_, fun hs => ?_⟩
    · cases hc.symm.trans hs
    · cases hc.symm.trans hs
  | some b =>
    cases b with
    | true =>
      have hr := react_of_match hc
      have hretries : (react c t).2.retries = maxRetries := congrArg (·.2.retries) hr
      refine ⟨h, ⟨hretries ▸ UInt8.le_refl _, fun _ => hretries⟩, fun hs => ?_, fun _ => hretries, fun hs => ?_⟩
      · cases hc.symm.trans hs
      · cases hc.symm.trans hs
    | false =>
      have hr := react_of_mismatch hc
      have h0 : t.retries ≠ 0 := (compares_eq_some hc).2.2.1
      have hretries : (react c t).2.retries = t.retries - 1 := congrArg (·.2.retries) hr
      have hverified : (react c t).2.verified = false := congrArg (·.2.verified) hr
      have hafter : Counted (react c t).2 :=
        ⟨hretries ▸ sub_one_le_maxRetries h0 h.retries, fun hv => by rw [hverified] at hv; cases hv⟩
      refine ⟨h, hafter, fun hs => ?_, fun hs => ?_, fun _ => ?_⟩
      · cases hc.symm.trans hs
      · cases hc.symm.trans hs
      · exact (congrArg (UInt8.toNat · + 1) hretries).trans (toNat_sub_one h0)

/-- A token whose counter has run out refuses whatever comes. -/
theorem answerTo_refused (h : Counted t) (hsecret : t.secret.isSome = true) (h0 : t.retries = 0) (c : Command) :
    (t.answerTo c).Refused where
  uncompared := if_neg fun hc => hc.2.2.1 h0
  blind := (react_blind (if_neg fun hc => hc.2.2.1 h0)).1
  blocked hchecks := congrArg Prod.fst (react_of_blocked hsecret hchecks h0)
  unsigned hins hdigest := by
    obtain ⟨-, ⟨hauth, -⟩ | ⟨-, hv, -⟩⟩ := (reacts c t).digest hdigest
    · exact absurd (hauth.symm.trans hins) (by decide)
    · exact absurd ((h.verified hv).symm.trans h0) (by decide)

theorem Ongoing.row_concat (h : Ongoing as t s) (c : Command) (n : Nat)
    (hn : List.replicate n false <:+ comparisons (as ++ [t.answerTo c])) :
    (react c t).2.retries.toNat + n ≤ 3 := by
  have hcounts := answerTo_counts h.counted c
  rw [comparisons_concat] at hn
  cases hc : (t.answerTo c).compared with
  | none =>
    rw [hc] at hn
    rw [show (react c t).2.retries = t.retries from hcounts.kept hc]
    exact h.row n (by simpa using hn)
  | some b =>
    rw [hc] at hn
    obtain rfl | ⟨rfl, hrow⟩ := replicate_suffix_concat hn
    · exact UInt8.le_iff_toNat_le.1 hcounts.after.retries
    · have htaken : (react c t).2.retries.toNat + 1 = t.retries.toNat := hcounts.taken hc
      have := h.row (n - 1) hrow
      omega

theorem Ongoing.refused_concat (h : Ongoing as t s) (c : Command) (as₁ as₂ : List Answered)
    (hsplit : as ++ [t.answerTo c] = as₁ ++ as₂)
    (hfailed : List.replicate 3 false <:+ comparisons as₁) (a : Answered) (ha : a ∈ as₂) : a.Refused := by
  cases as₂ using List.reverseRecOn with
  | nil => cases ha
  | append_singleton as₂ last =>
    rw [← List.append_assoc] at hsplit
    obtain ⟨rfl, hlast⟩ := List.append_inj' hsplit rfl
    obtain rfl := (List.cons.inj hlast).1
    have hbefore := h.refused as₁ as₂ rfl hfailed
    rw [List.mem_append, List.mem_singleton] at ha
    obtain ha | rfl := ha
    · exact hbefore a ha
    -- None of the answers in between has come with a comparison, so the three are still the last.
    have hnone : comparisons as₂ = [] := List.filterMap_eq_nil_iff.2 fun a ha => (hbefore a ha).uncompared
    have hrow := h.row 3 (by rwa [comparisons, List.filterMap_append, ← comparisons, ← comparisons, hnone, List.append_nil])
    have h0 : t.retries = 0 := UInt8.toNat_inj.1 (show t.retries.toNat = 0 by omega)
    exact answerTo_refused h.counted (h.stands.provisioned h0) h0 c

/-- The tally goes on over a command. -/
theorem Ongoing.concat (h : Ongoing as t s) (c : Command) (hstands : Standing (Honest.contents s'.store) (react c t).2) :
    Ongoing (as ++ [t.answerTo c]) (react c t).2 s' where
  counted := (answerTo_counts h.counted c).after
  counts a ha := by
    rw [List.mem_append, List.mem_singleton] at ha
    obtain ha | rfl := ha
    · exact h.counts a ha
    · exact answerTo_counts h.counted c
  bounded n hn := by
    rw [comparisons_concat] at hn
    cases hc : (t.answerTo c).compared with
    | none =>
      rw [hc] at hn
      exact h.bounded n (by simpa using hn)
    | some b =>
      rw [hc, Option.toList_some, List.infix_concat_iff] at hn
      obtain hn | hn := hn
      · have := h.row_concat c n (by rwa [comparisons_concat, hc])
        omega
      · exact h.bounded n hn
  refused := h.refused_concat c
  stands := hstands
  row := h.row_concat c

/-- A token that is as new, or mirrored by its store, starts its tally. -/
theorem Standing.ongoing (h : Standing (Honest.contents s.store) t) (hverified : t.verified = false) :
    Ongoing [] t s where
  counted := ⟨h.retries, fun hv => by rw [hverified] at hv; cases hv⟩
  counts a ha := nomatch ha
  bounded n hn := by
    have := hn.length_le
    simp only [List.length_replicate, comparisons, List.filterMap_nil, List.length_nil] at this
    omega
  refused as₁ as₂ hsplit hfailed a ha := by
    rw [(List.append_eq_nil_iff.1 hsplit.symm).2] at ha
    cases ha
  stands := h
  row n hn := by
    have := hn.length_le
    simp only [List.length_replicate, comparisons, List.filterMap_nil, List.length_nil] at this
    have := UInt8.le_iff_toNat_le.1 h.retries
    change t.retries.toNat ≤ 3 at this
    omega

section reliable

variable {κ : Type} [Storage κ] [Reliable κ]

/-- A new token reloads the counter, if there is anything to reload. -/
theorem Standing.boots (h : Standing C t) (entropy : Entropy) :
    Leads (Shelf.Holds C) (restore { entropy } : OnShelf κ _) fun r s =>
      Standing (Honest.contents s.store) r.2 ∧ r.2.retries = t.retries ∧ r.2.verified = false := by
  obtain h | ⟨hnone, -, hretries, -⟩ := h
  · refine (h.restores { entropy }).mono fun r s ⟨hs, hr⟩ => ?_
    obtain ⟨secret, hsecret, hload⟩ := h
    rw [hr, hs]
    exact ⟨Or.inl ⟨secret, hsecret, hload⟩, rfl, rfl⟩
  · refine restore_yields.mono fun r s ⟨hs, hr⟩ => ?_
    obtain ⟨secret, pin, n, hload, -⟩ | ⟨-, e, rfl⟩ := hr
    · exact absurd ⟨secret, pin, n, hload⟩ hnone
    · rw [hs]
      exact ⟨Or.inr ⟨hnone, rfl, rfl, rfl⟩, hretries.symm, rfl⟩

theorem Standing.call (h : Standing C t) (call : Call) :
    Leads (Shelf.Holds C) (call.make t : OnShelf κ _) fun r s =>
      r = call.outcome t ∧ Standing (Honest.contents s.store) r.2 := by
  rintro s rfl
  obtain ⟨hr, hcontents⟩ := call.make_comes (t := t) s rfl
  refine ⟨hr, ?_⟩
  obtain h | ⟨hnone, hsecret, hretries, hverified⟩ := h
  · exact Or.inl (call.make_mirrors s h)
  · have hsame : (call.outcome t).2.secret = none ∧ (call.outcome t).2.retries = t.retries ∧
        (call.outcome t).2.verified = false := by
      cases call with
      | process c =>
        have hreact : (react c t).2 = t := congrArg Prod.snd (react_of_unprovisioned hsecret)
        change (react c t).2.secret = none ∧ (react c t).2.retries = t.retries ∧ (react c t).2.verified = false
        rw [hreact]
        exact ⟨hsecret, rfl, hverified⟩
      | invalidate => exact ⟨hsecret, rfl, rfl⟩
    rw [hsame.2.1, recount_self] at hcontents
    rw [hcontents, hr]
    exact Or.inr ⟨hnone, hsame.1, hsame.2.1.trans hretries, hsame.2.2⟩

/-- A new token that is made ready starts a tally, even if it could not be. -/
theorem Readying.perform_ongoing (start : Readying) (entropy : Entropy) :
    Leads (Shelf.Holds C) (start.perform { entropy } : OnShelf κ _) fun r => Ongoing [] r.2 := by
  refine (start.perform_readies { entropy }).mono fun r s h => ?_
  obtain ⟨-, hmirrors, hverified⟩ | ⟨⟨e, rfl⟩, hnone⟩ := h
  · exact Standing.ongoing (Or.inl hmirrors) hverified
  · exact Standing.ongoing (Or.inr ⟨hnone, rfl, rfl, rfl⟩) rfl

theorem Turn.take_ongoing (turn : Turn) :
    Leads (Ongoing as t) (turn.take t : OnShelf κ _) fun r => Ongoing (as ++ r.1) r.2 := by
  intro s h
  cases turn with
  | boot entropy =>
    obtain ⟨hstands, hretries, hverified⟩ := h.stands.boots entropy s rfl
    have hboot := h.of_retries_eq hstands hretries hverified
    exact (List.append_nil as).symm ▸ hboot
  | call call =>
    obtain ⟨hr, hstands⟩ := h.stands.call call s rfl
    change Ongoing (as ++ call.answered t (call.make t s).1) (call.make t s).1.2 (call.make t s).2
    rw [hr] at hstands ⊢
    cases call with
    | process c => exact h.concat c hstands
    | invalidate =>
      have hcall := h.of_retries_eq hstands rfl rfl
      exact (List.append_nil as).symm ▸ hcall

theorem takeTurns_ongoing (turns : List Turn) :
    Leads (Ongoing as t) (takeTurns turns t : OnShelf κ _) fun r => Ongoing (as ++ r.1) r.2 := by
  induction turns generalizing as t with
  | nil =>
    intro s h
    exact (List.append_nil as).symm ▸ h
  | cons turn turns ih =>
    refine (turn.take_ongoing).bind fun r => ih.bind fun r' => .pure fun s h => ?_
    rwa [← List.append_assoc]

/-- Over a token's whole life no more than three comparisons in a row fail, and three that have are the last. -/
theorem three_failures_are_the_last (start : Readying) (entropy : Entropy) (turns : List Turn) (s : Shelf κ) :
    Tally (lifetime start entropy turns s).1.1 (lifetime start entropy turns s).1.2 :=
  (takeTurns_ongoing turns _ (start.perform_ongoing entropy s rfl)).toTally

end reliable

/-- Behind three failures every check of the PIN is answered as blocked, however long its data. -/
def BlocksAnyLength (as : List Answered) : Prop :=
  ∀ as₁ as₂, as = as₁ ++ as₂ → List.replicate 3 false <:+ comparisons as₁ → ∀ a ∈ as₂,
    a.command.cla = 0 → a.command.ins = Card.Ins.verify → a.response = .ofStatus .authMethodBlocked

/-- A PIN that is wrong three times, and then a thousand bytes as a part of a chain, and a hundred more. -/
def wrongThenOverlong : List Command :=
  List.replicate 3 ⟨0, Card.Ins.verify, 0, 0, [0x30, 0x30], 0⟩ ++
    [⟨Card.chainedClass, Card.Ins.verify, 0, 0, List.replicate 1000 0x39, 0⟩,
      ⟨0, Card.Ins.verify, 0, 0, List.replicate 100 0x39, 0⟩]

def answersToOverlong : List Answered :=
  (lifetime .generate (.scrambled 7) (.boot (.scrambled 8) :: wrongThenOverlong.map fun c => .call (.process c))
    (⟨{}, []⟩ : Shelf MemoryStore)).1.1

/-- Data that is too long is refused for its length, before the token looks at its counter. -/
theorem overlong_check_is_not_blocked : ¬ BlocksAnyLength answersToOverlong := by
  intro h
  have hfailed : comparisons (answersToOverlong.take 3) = [false, false, false] := by decide +kernel
  have hlong : (answersToOverlong.drop 3).any (fun a => a.command.cla = 0 ∧ a.command.ins = Card.Ins.verify ∧
      a.response = .ofStatus .wrongLength) = true := by
    decide +kernel
  obtain ⟨a, ha, hlong⟩ := List.any_eq_true.1 hlong
  obtain ⟨hcla, hins, hresponse⟩ := of_decide_eq_true hlong
  have hblocked := h _ _ (List.take_append_drop 3 _).symm (hfailed ▸ List.suffix_refl _) a ha hcla hins
  cases hresponse.symm.trans hblocked

end KeyFob.SoftToken
