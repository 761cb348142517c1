import KeyFob.Bench.Plan
import KeyFob.Proofs.Session.Breaks
import KeyFob.Proofs.Session.Confirmation
import KeyFob.Proofs.Token.Following

/-!
Keyed digests that leave the fob. The gate lets chained parts pass and the token answers unchained commands of class 0
only, so that a digest is always the answer to a command that the gate has waited for. A signature also takes a verified
PIN, and whatever breaks the session off has the token forget it before the next command is judged.
-/

namespace KeyFob

namespace Session

open Card (Command Response)
open Config (ConfirmPolicy)

variable {p : ConfirmPolicy} {c c' : Command} {r : Response}

theorem unconcerned_of_waits {g : List Entry} (h : ∀ x ∈ g, Gate.isWait x = true) :
    ∀ x ∈ g, x.concernsToken = false := by
  intro x hx
  have := h x hx
  cases x <;> first | rfl | cases this

theorem unconcerned_of_closes {o : List Entry} (h : Closes o) : ∀ x ∈ o, x.concernsToken = false := by
  intro x hx
  have := h x hx
  cases x <;> first | rfl | cases this

/-- What follows a verdict concerns the token only where the token answers the command. -/
theorem Follows.answered {out : Gate.Outcome} {v : List Entry} (h : Follows c' out v) (hc : .process c ∈ v)
    (hr : .answered r ∈ v) :
    c = c' ∧ out ≠ .lockedOut ∧ ∃ a b : List Entry, v = a ++ .process c :: .answered r :: b ∧
      ∀ x ∈ a, x.concernsToken = false := by
  cases h with
  | lockedOut streak => simp at hc
  | confirmed waitedMs r' =>
    obtain rfl : c = c' := by simpa [processing] using hc
    obtain rfl : r = r' := by simpa [processing] using hr
    exact ⟨rfl, by simp, [.emit (.confirmed c.ins waitedMs), .led .activity true], _, rfl, by simp [Entry.concernsToken]⟩
  | bypassed r' =>
    obtain rfl : c = c' := by simpa [processing] using hc
    obtain rfl : r = r' := by simpa [processing] using hr
    exact ⟨rfl, by simp, [.led .activity true], _, rfl, by simp [Entry.concernsToken]⟩

/-- Where a command is answered, the answer stands right behind it, and only the gate's work in front of it. -/
theorem Judged.answered {j : List Entry} (h : Judged p c' j) (hc : .process c ∈ j) (hr : .answered r ∈ j) :
    ∃ g rest : List Entry, j = .judge c :: (g ++ .process c :: .answered r :: rest) ∧
      (∀ x ∈ g, x.concernsToken = false) ∧
      (c.requiresConfirmation = true → ∃ waitedMs, .judged (.confirmed waitedMs) ∈ g) := by
  obtain @⟨g, v, rest, out, hg, hv, hrest⟩ := h
  have hwaits := unconcerned_of_waits hg.waits
  have hcloses := unconcerned_of_closes hrest
  have mem_v : ∀ x ∈ .judge c' :: (g ++ .judged out :: (v ++ rest)), x.concernsToken = true → x ∈ v := by
    intro x hx hconcerns
    simp only [List.mem_cons, List.mem_append] at hx
    rcases hx with rfl | hx | rfl | hx | hx
    · cases hconcerns
    · cases hconcerns.symm.trans (hwaits x hx)
    · cases hconcerns
    · exact hx
    · cases hconcerns.symm.trans (hcloses x hx)
  obtain ⟨rfl, hout, a, b, rfl, ha⟩ := hv.answered (mem_v _ hc rfl) (mem_v _ hr rfl)
  refine ⟨g ++ .judged out :: a, b ++ rest, by simp, ?_, fun hsens => ?_⟩
  · rw [List.forall_mem_append, List.forall_mem_cons]
    exact ⟨hwaits, rfl, ha⟩
  · cases hg with
    | bypassed h => cases hsens.symm.trans h
    | confirmed _ _ waitedMs => exact ⟨waitedMs, by simp⟩
    | lockedOut => exact absurd rfl hout

/-- In a cycle that answers a command, the answer stands behind it and the judgement of the gate in front of it. -/
theorem Cycles.answered {s s' : Session} {e : CycleEnd} {t : List Entry} (h : Cycles s e s' (own t))
    (hc : .process c ∈ t) (hr : .answered r ∈ t) :
    ∃ a g between rest : List Entry, t = a ++ .judge c :: (g ++ .process c :: (between ++ .answered r :: rest)) ∧
      (∀ x ∈ g, x.concernsToken = false) ∧ (∀ x ∈ between, x.concernsToken = false) ∧
      (c.requiresConfirmation = true → ∃ waitedMs, .judged (.confirmed waitedMs) ∈ g) := by
  have hc' : .process c ∈ own t := mem_own.2 ⟨hc, rfl⟩
  have hr' : .answered r ∈ own t := mem_own.2 ⟨hr, rfl⟩
  rcases h.shape.quiet_or_judged with hq | ⟨oa, j, c', ho, ha, hj⟩
  · cases hq _ hc'
  rw [ho, List.mem_append] at hc' hr'
  have hcj := hc'.resolve_left fun hm => by cases ha _ hm
  have hrj := hr'.resolve_left fun hm => by cases ha _ hm
  obtain ⟨og, orest, rfl, hg, hout⟩ := hj.answered hcj hrj
  obtain ⟨a, t₁, rfl, -, ht₁⟩ := own_split ho
  obtain ⟨g, t₂, rfl, rfl, ht₂⟩ := own_split ht₁
  obtain ⟨between, rest, rfl, hbetween, -⟩ := own_split (l := []) ht₂
  have unowned : ∀ x : Entry, x.isOwn = false → x.concernsToken = false := fun x hx => by
    cases x <;> first | rfl | cases hx
  refine ⟨a, g, between, rest, rfl, forall_of_own unowned hg, forall_of_own unowned ?_, fun hsens => ?_⟩
  · rw [hbetween]
    exact fun _ hx => nomatch hx
  · obtain ⟨waitedMs, hm⟩ := hout hsens
    exact ⟨waitedMs, (mem_own.1 hm).1⟩

/-- What takes a verified PIN back, or should: a PIN that is wrong in the given sense, or a session broken off. -/
def Disturbs (wrong : SoftToken → Command → Prop) (t : SoftToken) (seen : UInt32) : Entry → Prop
  | .process c => wrong t c
  | e => e.breaksOff seen = true

/-- At the end of a journal the token stands on a PIN verification that nothing has disturbed since. -/
def PinStands (wrong : SoftToken → Command → Prop) (t : SoftToken) (seen : UInt32) (J : List Entry) : Prop :=
  ∃ (u w : List Entry) (v : Command), J = u ++ .process v :: w ∧ SoftToken.Verifies (t.following u) v ∧
    ∀ (x y : List Entry) (e : Entry), w = x ++ e :: y →
      ¬ Disturbs wrong (t.following (u ++ .process v :: x)) (lastSeen seen (u ++ .process v :: x)) e

def useOf (c : Command) : Bytes :=
  if c.ins = Card.Ins.performSecurityOperation then SoftToken.signLabel else SoftToken.authLabel

variable {ε κ : Type} [Surroundings ε] [Storage κ]

/-- Every answer with data in it, challenges apart, is a digest keyed with the token's secret, given in a cycle whose
gate came to be confirmed; and the PIN stands where the gate begins to judge a command that asks for a signature. -/
def DigestsAreGuarded (wrong : SoftToken → Command → Prop) (s : Session) (d : Device ε κ SoftToken)
    (rounds : List Round) : Prop :=
  ∀ (before after : List (List Entry)) (t : List Entry) (c : Command) (r : Response),
    trails s d rounds = before ++ t :: after → .process c ∈ t → .answered r ∈ t → SoftToken.CarriesDigest c r →
    (∃ secret data, d.token.secret = some secret ∧
      r.bytes = Digest.hmac secret (useOf c ++ data) ++ Card.StatusWord.success.toBytes) ∧
    ∃ (a b : List Entry) (waitedMs : Nat), t = a ++ .judge c :: b ∧ .judged (.confirmed waitedMs) ∈ b ∧
      (c.ins = Card.Ins.performSecurityOperation →
        PinStands wrong d.token s.cursor.seen (before.flatten ++ a))

/-- A run of a session converses with the token. -/
theorem trails_tell (s : Session) (d : Device ε κ SoftToken) (rounds : List Round) :
    ∃ t, SoftToken.conversation.Tells ⟨d.token, none⟩ (trails s d rounds).flatten ⟨t, none⟩ := by
  induction rounds generalizing s d with
  | nil => exact ⟨d.token, rfl⟩
  | cons r rest ih =>
    obtain ⟨t, hj, -, -⟩ := round_leaves r s d
    obtain ⟨u, hu, htells⟩ := SoftToken.tokenKeeps_converses.round r s d
    obtain ⟨t', hrest⟩ := ih (round r s d).1.2 (round r s d).2
    have hsince : (round r s d).2.journal.since d.journal = t := Journal.since_eq hj
    have htrail : u = vaultTrail t := by
      change vaultTrail _ = vaultTrail _ ++ u at hu
      rw [hj, vaultTrail_append] at hu
      exact (List.append_cancel_left hu).symm
    have hignores : SoftToken.conversation.Ignores Entry.ofVault :=
      SoftToken.conversation_ignores.mono fun _ => Entry.concernsToken_of_not_ofVault
    rw [htrail] at htells
    refine ⟨t', ?_⟩
    rw [trails, hsince, List.flatten_cons]
    exact (hignores.tells_filter.1 htells).append hrest

theorem requiresConfirmation_of_digest (hcla : c.cla = 0)
    (hins : c.ins = Card.Ins.internalAuthenticate ∨ c.ins = Card.Ins.performSecurityOperation) :
    c.requiresConfirmation = true := by
  have hchained : c.isChained = false := by
    rw [Command.isChained, hcla]
    decide
  rcases hins with h | h
  · rw [Command.requiresConfirmation, hchained, h]
    decide
  · rw [Command.requiresConfirmation, hchained, h]
    decide

/-- A token that is found verified at the end of a journal that owes nothing stands on its PIN. -/
theorem pinStands_of_verified {t : SoftToken} {seen : UInt32} {s' : Owing} {J rest : List Entry}
    (ht : t.verified = false) (hJ : (t.following J).verified = true)
    (hsettles : settlement.Tells ⟨seen, false⟩ (J ++ .judge c :: rest) s') :
    PinStands SoftToken.Mistakes t seen J := by
  obtain ⟨u, w, v, rfl, hverifies, hinv, hmistakes⟩ := SoftToken.verified_since ht J hJ
  refine ⟨u, w, v, rfl, hverifies, ?_⟩
  rintro x y e rfl hdisturbs
  have breaks (he : e.breaksOff (lastSeen seen (u ++ .process v :: x)) = true) : False := by
    have hm : .invalidate ∈ y := settled (u := u ++ .process v :: x) (by simpa using hsettles) he
    exact hinv (by simp [hm])
  cases e with
  | process m =>
    refine hmistakes x y m rfl ?_
    rw [← SoftToken.following_append, List.append_assoc]
    exact hdisturbs
  | _ => exact breaks hdisturbs

/-- Digests are guarded, if a PIN is wrong in that the token has compared it. -/
theorem digests_are_guarded (s : Session) (d : Device ε κ SoftToken)
    (rounds : List Round) (hd : d.token.verified = false) : DigestsAreGuarded SoftToken.Mistakes s d rounds := by
  intro before after t c r hts hc hr hdigest
  have hcons := consecutive_trails s d rounds
  obtain ⟨s₁, s₂, e, σ₁, σ₂, -, hcyc⟩ := hcons.cycle (hts ▸ List.mem_append_right _ List.mem_cons_self)
  obtain ⟨a, g, between, rest, rfl, hg, hbetween, hout⟩ := hcyc.answered hc hr
  have hJ : (trails s d rounds).flatten = before.flatten ++ a ++ .judge c ::
      (g ++ .process c :: (between ++ .answered r :: (rest ++ after.flatten))) := by
    rw [hts]
    simp
  -- The token that answers is the one that the gate finds when it begins to judge.
  obtain ⟨t', htells⟩ := trails_tell s d rounds
  have hfollowing : d.token.following (before.flatten ++ a ++ .judge c :: g) =
      d.token.following (before.flatten ++ a) := by
    rw [SoftToken.following_append, ← SoftToken.after_token ⟨_, none⟩ (.judge c :: g),
      SoftToken.conversation_ignores.after (List.forall_mem_cons.2 ⟨rfl, hg⟩)]
  have hanswer : r = (SoftToken.react c (d.token.following (before.flatten ++ a))).1 := by
    rw [← hfollowing]
    rw [hJ, ← List.cons_append, ← List.append_assoc] at htells
    exact SoftToken.answer_of_conversation htells hbetween
  have hreacts := SoftToken.reacts c (d.token.following (before.flatten ++ a))
  obtain ⟨hcla, huse⟩ := hreacts.digest (hanswer ▸ hdigest)
  rw [← hanswer] at huse
  have hsens : c.requiresConfirmation = true :=
    requiresConfirmation_of_digest hcla (huse.imp And.left And.left)
  obtain ⟨waitedMs, hconfirmed⟩ := hout hsens
  refine ⟨?_, a, _, waitedMs, rfl, List.mem_append_left _ hconfirmed, fun hins => ?_⟩
  · have hdigested : r = (d.token.following (before.flatten ++ a)).digest (useOf c)
        ((d.token.following (before.flatten ++ a)).chain ++ c.data) := by
      rcases huse with ⟨hins, h⟩ | ⟨hins, -, h⟩
      · rw [h, useOf, hins]
        rfl
      · rw [h, useOf, if_pos hins]
    obtain ⟨secret, hsecret, -, hbytes⟩ := SoftToken.digest_bytes (hdigested ▸ hdigest.2)
    rw [SoftToken.following_secret] at hsecret
    exact ⟨secret, _, hsecret, hdigested ▸ hbytes⟩
  · rcases huse with ⟨hins', -⟩ | ⟨-, hverified, -⟩
    · cases hins'.symm.trans hins
    obtain ⟨seen, hsettles⟩ := hcons.settles
    rw [Settles, hJ] at hsettles
    exact pinStands_of_verified hd hverified hsettles

open Bench (Plan)

/-- The right PIN, a chained part of 1000 bytes, a PIN verification with 100 bytes more, and a command to sign. The
button is pressed while the gate waits for the last of them. -/
def overlongPin : Device Plan MemoryStore SoftToken where
  outside := { timed := [⟨300, .act .raise⟩] }
  store := {}
  token := { secret := some (List.replicate 32 7), pin := SoftToken.defaultPin, entropy := ⟨fun _ => 0, 0⟩ }
  signals := ({} : Signals).bump.linkUp 0
  dials := [
    .connects { message := [0x00, 0x20, 0x00, 0x00, 0x06] ++ SoftToken.defaultPin },
    .connects { message := [0x10, 0x20, 0x00, 0x00, 0x00, 0x03, 0xE8] ++ List.replicate 1000 0x39 },
    .connects { message := [0x00, 0x20, 0x00, 0x00, 0x64] ++ List.replicate 100 0x39 },
    .connects { message := [0x00, 0x2A, 0x9E, 0x9A, 0x01, 0xAA] }]

def signs : Entry → Bool
  | .process c => c.ins == Card.Ins.performSecurityOperation
  | _ => false

def answersAtLength : Entry → Bool
  | .answered r => 2 < r.length
  | _ => false

/-- In the run at hand a signature is given. -/
theorem exists_signature {ts : List (List Entry)} (h : ts.any (fun t => t.any signs && t.any answersAtLength) = true) :
    ∃ (before after : List (List Entry)) (t : List Entry) (c : Command) (r : Response), ts = before ++ t :: after ∧
      .process c ∈ t ∧ .answered r ∈ t ∧ SoftToken.CarriesDigest c r ∧
      c.ins = Card.Ins.performSecurityOperation := by
  obtain ⟨t, ht, h⟩ := List.any_eq_true.1 h
  obtain ⟨hsigns, hanswers⟩ := Bool.and_eq_true_iff.1 h
  obtain ⟨before, after, hts⟩ := List.append_of_mem ht
  obtain ⟨x, hx, hxc⟩ := List.any_eq_true.1 hsigns
  obtain ⟨y, hy, hyr⟩ := List.any_eq_true.1 hanswers
  obtain ⟨c, rfl⟩ : ∃ c, x = .process c := by cases x <;> first | exact ⟨_, rfl⟩ | cases hxc
  obtain ⟨r, rfl⟩ : ∃ r, y = .answered r := by cases y <;> first | exact ⟨_, rfl⟩ | cases hyr
  have hins : c.ins = Card.Ins.performSecurityOperation := by simpa [signs] using hxc
  refine ⟨before, after, t, c, r, hts, hx, hy, ⟨?_, by simpa [answersAtLength] using hyr⟩, hins⟩
  rw [hins]
  decide

/-- The digest of a run that signs, with the PIN that it stands on. -/
theorem signature_stands_on_the_pin :
    let s : Session := { settings := .default }
    let rounds := List.replicate 4 Round.cycle
    overlongPin.token.verified = false ∧
      ∃ (before after : List (List Entry)) (t a b : List Entry) (c : Command) (r : Response) (waitedMs : Nat),
        trails s overlongPin rounds = before ++ t :: after ∧ .answered r ∈ t ∧ SoftToken.CarriesDigest c r ∧
        t = a ++ .judge c :: b ∧ .judged (.confirmed waitedMs) ∈ b ∧
        PinStands SoftToken.Mistakes overlongPin.token s.cursor.seen (before.flatten ++ a) := by
  intro s rounds
  have hsigns : (trails s overlongPin rounds).any (fun t => t.any signs && t.any answersAtLength) = true := by
    decide +kernel
  obtain ⟨before, after, t, c, r, hts, hc, hr, hdigest, hins⟩ := exists_signature hsigns
  obtain ⟨-, a, b, waitedMs, ht, hconfirmed, hstands⟩ :=
    digests_are_guarded s overlongPin rounds rfl before after t c r hts
      hc hr hdigest
  exact ⟨rfl, before, after, t, a, b, c, r, waitedMs, hts, hr, hdigest, ht, hconfirmed, hstands hins⟩

instance (t : SoftToken) (c : Command) : Decidable (SoftToken.Verifies t c) :=
  decidable_of_iff (c.cla = 0 ∧ c.ins = Card.Ins.verify ∧ t.chain ++ c.data = t.pin ∧ t.retries ≠ 0)
    ⟨fun ⟨hcla, hins, hdata, hretries⟩ => ⟨hcla, hins, hdata, hretries⟩,
      fun ⟨hcla, hins, hdata, hretries⟩ => ⟨hcla, hins, hdata, hretries⟩⟩

instance (t : SoftToken) (c : Command) : Decidable (SoftToken.MissesPin t c) :=
  decidable_of_iff (c.cla = 0 ∧ c.ins = Card.Ins.verify ∧ t.chain ++ c.data ≠ [] ∧ t.chain ++ c.data ≠ t.pin)
    ⟨fun ⟨hcla, hins, hdata, hpin⟩ => ⟨hcla, hins, hdata, hpin⟩,
      fun ⟨hcla, hins, hdata, hpin⟩ => ⟨hcla, hins, hdata, hpin⟩⟩

/-- Whether the token stands on a PIN verification that no other data has followed. -/
def unmissed (t : SoftToken) (stood : Bool) : Entry → Bool
  | .process c => decide (SoftToken.Verifies t c) || (stood && !decide (SoftToken.MissesPin t c))
  | _ => stood

def asksToSign : Entry → Bool
  | .judge c => c.ins == Card.Ins.performSecurityOperation
  | _ => false

def unmissedAtSignatures : SoftToken → Bool → List Entry → List Bool
  | _, _, [] => []
  | t, stood, e :: J =>
    (if asksToSign e then [stood] else []) ++ unmissedAtSignatures (t.step e) (unmissed t stood e) J

theorem mem_unmissed_of_undisturbed {t : SoftToken} {w rest : List Entry} (hc : c.ins = Card.Ins.performSecurityOperation)
    (hw : ∀ (x y : List Entry) (m : Command), w = x ++ .process m :: y → ¬ SoftToken.MissesPin (t.following x) m) :
    true ∈ unmissedAtSignatures t true (w ++ .judge c :: rest) := by
  induction w generalizing t with
  | nil => simp [unmissedAtSignatures, asksToSign, hc]
  | cons e w ih =>
    have hkept : unmissed t true e = true := by
      cases e with
      | process m => simp [unmissed, show ¬ SoftToken.MissesPin t m from hw [] w m rfl]
      | _ => rfl
    rw [List.cons_append, unmissedAtSignatures, hkept]
    refine List.mem_append_right _ (ih fun x y m hx => ?_)
    exact hw (e :: x) y m (by rw [hx, List.cons_append])

theorem mem_unmissed_of_stands {t : SoftToken} {stood : Bool} {seen : UInt32} {J rest : List Entry}
    (h : PinStands SoftToken.MissesPin t seen J) (hc : c.ins = Card.Ins.performSecurityOperation) :
    true ∈ unmissedAtSignatures t stood (J ++ .judge c :: rest) := by
  obtain ⟨u, w, v, rfl, hverifies, hw⟩ := h
  have hmisses : ∀ (x y : List Entry) (m : Command), w = x ++ .process m :: y →
      ¬ SoftToken.MissesPin ((t.following (u ++ [.process v])).following x) m := by
    intro x y m hx
    rw [← SoftToken.following_append, List.append_assoc]
    exact hw x y (.process m) hx
  clear hw
  induction u generalizing t stood with
  | nil =>
    have hstood : unmissed t stood (.process v) = true := by
      simp [unmissed, show SoftToken.Verifies t v from hverifies]
    rw [List.nil_append, List.cons_append, unmissedAtSignatures, hstood]
    exact List.mem_append_right _ (mem_unmissed_of_undisturbed hc hmisses)
  | cons e u ih => exact List.mem_append_right _ (ih (t := t.step e) hverifies hmisses)

/-- A PIN verification whose data is too long is refused without a look at it. The token stays verified, and signs. -/
theorem signature_behind_a_pin_too_long :
    overlongPin.token.verified = false ∧
      ¬ DigestsAreGuarded SoftToken.MissesPin { settings := .default } overlongPin (List.replicate 4 .cycle) := by
  refine ⟨rfl, fun h => ?_⟩
  have hsigns : (trails { settings := .default } overlongPin (List.replicate 4 .cycle)).any
      (fun t => t.any signs && t.any answersAtLength) = true := by
    decide +kernel
  have hmissed : unmissedAtSignatures overlongPin.token false
      (trails { settings := .default } overlongPin (List.replicate 4 .cycle)).flatten = [false] := by
    decide +kernel
  obtain ⟨before, after, t, c, r, hts, hc, hr, hdigest, hins⟩ := exists_signature hsigns
  obtain ⟨-, a, b, -, rfl, -, hstands⟩ := h before after t c r hts hc hr hdigest
  have hm : true ∈ unmissedAtSignatures overlongPin.token false
      (before.flatten ++ a ++ .judge c :: (b ++ after.flatten)) :=
    mem_unmissed_of_stands (hstands hins) hins
  rw [hts] at hmissed
  simp only [List.flatten_append, List.flatten_cons, List.append_assoc, List.cons_append] at hmissed hm
  rw [hmissed] at hm
  simp at hm

end Session

end KeyFob
