import KeyFob.Proofs.Token.Reaction

/-!
The form of an answer. Whatever the command and the state of the token, the answer is a bare status word, or data with the
word for success behind it, and it fits the buffer. `Due` says which commands get data, and how much of it: on every other
way through the token the status word stands alone.
-/

namespace KeyFob

namespace Card.Response

theorem bytes_ofStatus (sw : StatusWord) : (ofStatus sw).bytes = sw.toBytes := rfl

/-- Data that leaves room for the status word gets it. -/
theorem bytes_fill {data : Bytes} (h : data.length + 2 ≤ capacity) :
    (empty.fill data).bytes = data ++ StatusWord.success.toBytes := by
  simp [fill, push?, setStatus, empty, h]

/-- The response is a bare status word where no data is due, and else the data that is due with the word for success. -/
inductive Framed (due : Nat → Prop) (r : Response) : Prop
  | bare (sw : StatusWord) (hundue : ∀ n, ¬ due n) (h : r.bytes = sw.toBytes)
  | filled (data : Bytes) (hdue : due data.length) (h : r.bytes = data ++ [0x90, 0x00])

variable {due due' : Nat → Prop} {r : Response}

theorem Framed.congr (h : Framed due r) (hdue : ∀ n, due n ↔ due' n) : Framed due' r := by
  cases h with
  | bare sw hundue h => exact .bare sw (fun n hn => hundue n ((hdue n).2 hn)) h
  | filled data hn h => exact .filled data ((hdue _).1 hn) h

theorem framed_ofStatus (hundue : ∀ n, ¬ due n) (sw : StatusWord) : Framed due (ofStatus sw) :=
  .bare sw hundue (bytes_ofStatus sw)

theorem framed_fill {data : Bytes} (hdue : due data.length) (h : data.length + 2 ≤ capacity) :
    Framed due (empty.fill data) :=
  .filled data hdue (bytes_fill h)

theorem Framed.length (h : Framed due r) (hroom : ∀ n, due n → n ≤ 1022) : 2 ≤ r.length ∧ r.length ≤ 1024 := by
  cases h with
  | bare sw _ h =>
    rw [Response.length, h, StatusWord.length_toBytes]
    omega
  | filled data hdue h =>
    have := hroom _ hdue
    rw [Response.length, h, List.length_append]
    simp only [List.length_cons, List.length_nil]
    omega

end Card.Response

namespace SoftToken

open Card (Command Response)

/-- The instructions that are answered with data, and how long it is: a challenge of the length that is asked for, and the
two digests of what there is to digest, the signature only behind the PIN. -/
inductive Earns (verified : Bool) (c : Command) (data : Bytes) : Nat → Prop
  | challenge (hins : c.ins = 0x84) (hle : 1 ≤ c.le) (hroom : c.le ≤ 1022) : Earns verified c data c.le
  | authenticated (hins : c.ins = 0x88) (hdata : data ≠ []) : Earns verified c data 32
  | signed (hins : c.ins = 0x2A) (hparameters : c.p1p2 = 0x9E9A) (hdata : data ≠ []) (hpin : verified = true) :
    Earns verified c data 32

/-- So much data is due as the answer to a command. -/
structure Due (t : SoftToken) (c : Command) (n : Nat) : Prop where
  provisioned : t.secret ≠ none
  cla : c.cla = 0
  /-- The chained parts and the command's own data together are not too long. -/
  fits : (t.chain ++ c.data).length ≤ Card.maxData
  earned : Earns t.verified c (t.chain ++ c.data) n

section instructions

variable {t : SoftToken} {c : Command} {data : Bytes} {verified : Bool} {n : Nat}

theorem Earns.room (h : Earns verified c data n) : n ≤ 1022 := by
  cases h with
  | challenge _ _ hroom => exact hroom
  | _ => omega

theorem earns_challenge_iff (hins : c.ins = Card.Ins.getChallenge) :
    Earns verified c data n ↔ 1 ≤ c.le ∧ c.le ≤ 1022 ∧ n = c.le := by
  constructor
  · intro h
    cases h with
    | challenge _ hle hroom => exact ⟨hle, hroom, rfl⟩
    | authenticated h | signed h => exact absurd (hins.symm.trans h) (by decide)
  · rintro ⟨hle, hroom, rfl⟩
    exact .challenge hins hle hroom

theorem earns_authenticate_iff (hins : c.ins = Card.Ins.internalAuthenticate) :
    Earns verified c data n ↔ data ≠ [] ∧ n = 32 := by
  constructor
  · intro h
    cases h with
    | authenticated _ hdata => exact ⟨hdata, rfl⟩
    | challenge h | signed h => exact absurd (hins.symm.trans h) (by decide)
  · rintro ⟨hdata, rfl⟩
    exact .authenticated hins hdata

theorem earns_sign_iff (hins : c.ins = Card.Ins.performSecurityOperation) :
    Earns verified c data n ↔ c.p1p2 = signParameters ∧ verified = true ∧ data ≠ [] ∧ n = 32 := by
  constructor
  · intro h
    cases h with
    | signed _ hparameters hdata hpin => exact ⟨hparameters, hpin, hdata, rfl⟩
    | challenge h | authenticated h => exact absurd (hins.symm.trans h) (by decide)
  · rintro ⟨hparameters, hpin, hdata, rfl⟩
    exact .signed hins hparameters hdata hpin

theorem not_earns (hchallenge : c.ins ≠ Card.Ins.getChallenge) (hauth : c.ins ≠ Card.Ins.internalAuthenticate)
    (hsign : c.ins ≠ Card.Ins.performSecurityOperation) (n : Nat) : ¬ Earns verified c data n := by
  intro h
  cases h with
  | challenge hins => exact hchallenge hins
  | authenticated hins => exact hauth hins
  | signed hins => exact hsign hins

theorem challenge_framed (hins : c.ins = Card.Ins.getChallenge) :
    Response.Framed (Earns t.verified c data) (t.challenge c).1 := by
  refine Response.Framed.congr ?_ fun n => (earns_challenge_iff hins).symm
  unfold challenge
  split
  · next hle =>
    refine Response.framed_ofStatus (fun n hn => ?_) _
    simp only [Response.capacity] at hle
    omega
  · next hle =>
    have hlength := Entropy.length_draw c.le t.entropy
    simp only [Response.capacity] at hle
    refine Response.framed_fill ⟨by omega, by omega, hlength⟩ ?_
    rw [hlength, Response.capacity]
    omega

/-- A digest is made of any data but none. -/
theorem digest_framed (hsecret : t.secret ≠ none) (label : Bytes) :
    Response.Framed (fun n => data ≠ [] ∧ n = 32) (t.digest label data) := by
  obtain ⟨secret, hsecret⟩ := Option.ne_none_iff_exists'.1 hsecret
  unfold digest
  split
  · next hdata => exact Response.framed_ofStatus (fun n hn => hn.1 hdata) _
  · next hdata =>
    have hlength := Digest.length_hmac secret (label ++ data)
    rw [hsecret]
    exact Response.framed_fill ⟨hdata, hlength⟩ (by rw [hlength]; decide)

theorem sign_framed (hins : c.ins = Card.Ins.performSecurityOperation) (hsecret : t.secret ≠ none) :
    Response.Framed (Earns t.verified c data) (t.sign c data) := by
  refine Response.Framed.congr ?_ fun n => (earns_sign_iff hins).symm
  unfold sign
  split
  · next hparameters => exact Response.framed_ofStatus (fun n hn => hparameters hn.1) _
  next hparameters =>
  split
  · next hpin => exact Response.framed_ofStatus (fun n hn => by simp [hn.2.1] at hpin) _
  · next hpin =>
    refine (digest_framed hsecret signLabel).congr fun n => ?_
    have hverified : t.verified = true := by simpa using hpin
    rw [and_iff_right (Decidable.not_not.1 hparameters), and_iff_right hverified]

variable {κ : Type} [Storage κ]

/-- Verification never answers with more than a status word. -/
theorem verify_bare (t : SoftToken) (data : Bytes) (s : Shelf κ) : ∃ sw, (t.verify data s).1.1 = .ofStatus sw := by
  unfold verify
  split
  · exact ⟨_, rfl⟩
  split
  · exact ⟨_, rfl⟩
  split
  · exact ⟨_, by split <;> rfl⟩
  · exact ⟨_, rfl⟩

theorem execute_framed (t : SoftToken) (hsecret : t.secret ≠ none) (c : Command) (data : Bytes) (s : Shelf κ) :
    Response.Framed (Earns t.verified c data) (t.execute c data .empty s).1.1 := by
  unfold execute
  split
  · next hins => exact challenge_framed hins
  next hchallenge =>
  split
  · next hins =>
    have hundue : ∀ n, ¬ Earns t.verified c data n := not_earns hchallenge (by rw [hins]; decide) (by rw [hins]; decide)
    obtain ⟨sw, hsw⟩ := verify_bare t data s
    change Response.Framed _ (t.verify data s).1.1
    rw [hsw]
    exact Response.framed_ofStatus hundue sw
  split
  · next hins => exact sign_framed hins hsecret
  next hsign =>
  split
  · next hins => exact (digest_framed hsecret authLabel).congr fun n => (earns_authenticate_iff hins).symm
  · next hauth => exact Response.framed_ofStatus (not_earns hchallenge hauth hsign) _

/-- Every way through the token leaves an answer in form. -/
theorem process_framed (c : Command) (t : SoftToken) (s : Shelf κ) : Response.Framed (Due t c) (process c t .empty s).1.1 := by
  unfold process
  split
  · next hsecret => exact Response.framed_ofStatus (fun n hn => hn.provisioned (by simpa using hsecret)) _
  next hsecret =>
  split
  · next hchained =>
    have hundue : ∀ n, ¬ Due t c n := fun n hn => by simp [Command.isChained, hn.cla, Card.chainedClass] at hchained
    cases joinData? t.chain c.data with
    | none => exact Response.framed_ofStatus hundue _
    | some chain => exact Response.framed_ofStatus hundue _
  split
  · next hcla => exact Response.framed_ofStatus (fun n hn => hcla hn.cla) _
  next hcla =>
  cases hjoin : joinData? t.chain c.data with
  | none =>
    have hlong := joinData?_eq_none hjoin
    exact Response.framed_ofStatus (fun n hn => Nat.not_lt.2 hn.fits hlong) _
  | some whole =>
    have hfits := joinData?_fits hjoin
    obtain rfl := joinData?_eq_some hjoin
    have hprovisioned : t.secret ≠ none := by simpa using hsecret
    -- The chain is emptied before the instruction is looked at, which nothing of what it earns depends on.
    refine (execute_framed { t with chain := [] } hprovisioned c (t.chain ++ c.data) s).congr fun n => ?_
    exact ⟨fun h => ⟨hprovisioned, Decidable.not_not.1 hcla, by rwa [List.length_append], h⟩, fun h => h.earned⟩

end instructions

/-- Whatever the buffer held before, whatever becomes of the store: the answer to a command fits the buffer and is a bare
status word, or data with the word for success where data is due, and the secret and the PIN stay what they are. -/
theorem data_comes_only_where_due {κ : Type} [Storage κ] (c : Command) (buffer : Response) (t : SoftToken) (s : Shelf κ) :
    let r := (Token.process c buffer t s).1
    (∀ buffer', Token.process c buffer' t s = Token.process c buffer t s) ∧
      (2 ≤ r.1.response.length ∧ r.1.response.length ≤ 1024) ∧ Response.Framed (Due t c) r.1.response ∧
      r.2.secret = t.secret ∧ r.2.pin = t.pin := by
  intro r
  have hframed : Response.Framed (Due t c) r.1.response := process_framed c t s
  have hkept : r.2.secret = t.secret ∧ r.2.pin = t.pin := by
    have h := (reacts c t).kept
    rwa [← process_fst c t s] at h
  -- The token clears the buffer before it puts anything into it.
  exact ⟨fun _ => rfl, hframed.length fun n hn => hn.earned.room, hframed, hkept⟩

end SoftToken

end KeyFob
