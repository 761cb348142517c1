import KeyFob.Storage.Memory
import KeyFob.Token.Soft

/-!
What a command makes of the software token, whatever becomes of the store. `Reacts` lists the ways in which a command
can end; from it follows what verifies the PIN, what takes that back, and which answers carry a keyed digest.
-/

namespace KeyFob.SoftToken

open Card (Command Response)

/-- The answer to a command and the token behind it, as a store in memory has them. -/
def react (c : Command) (t : SoftToken) : Response × SoftToken := (process c t .empty (⟨{}, []⟩ : Shelf MemoryStore)).1

/-- What the token does with an unchained command, given all of its data. -/
inductive Executes (t : SoftToken) (c : Command) (data : Bytes) : Response × SoftToken → Prop
  | challenge (hins : c.ins = Card.Ins.getChallenge) (response : Response) (entropy : Entropy) :
    Executes t c data (response, { t with entropy })
  | blocked (hins : c.ins = Card.Ins.verify) (hretries : t.retries = 0) :
    Executes t c data (.ofStatus .authMethodBlocked, t)
  | queried (hins : c.ins = Card.Ins.verify) (hdata : data = []) : Executes t c data (.ofStatus t.pinStatus, t)
  | matched (hins : c.ins = Card.Ins.verify) (hretries : t.retries ≠ 0) (hdata : data = t.pin) :
    Executes t c data (.ofStatus .success, { t with verified := true, retries := maxRetries })
  | mistaken (hins : c.ins = Card.Ins.verify) (hretries : t.retries ≠ 0) :
    Executes t c data (.ofStatus (.verifyFailed (t.retries - 1)), { t with verified := false, retries := t.retries - 1 })
  | signed (hins : c.ins = Card.Ins.performSecurityOperation) : Executes t c data (t.sign c data, t)
  | authenticated (hins : c.ins = Card.Ins.internalAuthenticate) : Executes t c data (t.digest authLabel data, t)
  | unsupported (hins : c.ins ≠ Card.Ins.verify) : Executes t c data (.ofStatus .insNotSupported, t)

/-- What the token does with a command. -/
inductive Reacts (t : SoftToken) (c : Command) : Response × SoftToken → Prop
  | unprovisioned (hsecret : t.secret = none) : Reacts t c (.ofStatus .securityStatusNotSatisfied, t)
  | collected (hchained : c.isChained = true) (chain : Bytes) : Reacts t c (.ofStatus .success, { t with chain })
  /-- The class is foreign, or the data is too long. -/
  | refused (sw : Card.StatusWord) (h : c.cla = 0 → Card.maxData < (t.chain ++ c.data).length) :
    Reacts t c (.ofStatus sw, { t with chain := [] })
  | executed (hsecret : t.secret ≠ none) (hcla : c.cla = 0) {r : Response × SoftToken}
    (h : Executes { t with chain := [] } c (t.chain ++ c.data) r) : Reacts t c r

/-- Two activities on two stores come to the same result, however the stores answer. -/
def Alike {κ κ' α : Type} (m : OnShelf κ α) (m' : OnShelf κ' α) : Prop := ∀ s s', (m s).1 = (m' s').1

namespace Alike

variable {κ κ' α β : Type} {m n : OnShelf κ α} {m' n' : OnShelf κ' α}

theorem pure (a : α) : Alike (Pure.pure a : OnShelf κ α) (Pure.pure a : OnShelf κ' α) := fun _ _ => rfl

theorem bind {f : α → OnShelf κ β} {f' : α → OnShelf κ' β} (hm : Alike m m') (hf : ∀ a, Alike (f a) (f' a)) :
    Alike (m >>= f) (m' >>= f') := by
  intro s s'
  have h := hf (m s).1 (m s).2 (m' s').2
  rw [hm s s'] at h
  change (f (m s).1 (m s).2).1 = (f' (m' s').1 (m' s').2).1
  rw [hm s s']
  exact h

theorem ite {p : Prop} [Decidable p] (h : Alike m m') (h' : Alike n n') :
    Alike (if p then m else n) (if p then m' else n') := by
  split
  · exact h
  · exact h'

end Alike

variable {κ κ' : Type} [Storage κ] [Storage κ']

/-- The token never asks what storing its counter came to. -/
theorem persistRetries_alike (t : SoftToken) :
    Alike (t.persistRetries : OnShelf κ Unit) (t.persistRetries : OnShelf κ' Unit) :=
  fun _ _ => rfl

theorem verify_alike (t : SoftToken) (data : Bytes) :
    Alike (t.verify data : OnShelf κ _) (t.verify data : OnShelf κ' _) := by
  refine .ite (.pure _) (.ite (.pure _) (.ite ?_ ?_))
  · exact .ite (.bind (persistRetries_alike _) fun _ => .pure _) (.pure _)
  · exact .bind (persistRetries_alike _) fun _ => .bind (fun _ _ => rfl) fun _ => .pure _

theorem execute_alike (t : SoftToken) (c : Command) (data : Bytes) :
    Alike (t.execute c data : OnShelf κ _) (t.execute c data : OnShelf κ' _) := by
  refine .ite (.pure _) (.ite (verify_alike t data) ?_)
  exact .ite (.pure _) (.ite (.pure _) (.bind (fun _ _ => rfl) fun _ => .pure _))

theorem process_alike (c : Command) (t : SoftToken) :
    Alike (process c t : OnShelf κ _) (process c t : OnShelf κ' _) := by
  unfold process
  refine .ite (.pure _) ?_
  cases joinData? t.chain c.data with
  | none => exact .ite (.pure _) (.ite (.pure _) (.pure _))
  | some data => exact .ite (.pure _) (.ite (.pure _) (execute_alike _ c data))

theorem process_fst (c : Command) (t : SoftToken) (s : Shelf κ) : (process c t .empty s).1 = react c t :=
  process_alike c t s _

variable {t : SoftToken} {c : Command} {data : Bytes} {r : Response × SoftToken}

theorem executes (t : SoftToken) (c : Command) (data : Bytes) (s : Shelf κ) :
    Executes t c data (t.execute c data .empty s).1 := by
  unfold execute
  split
  · next hins =>
    change Executes t c data (t.challenge c)
    unfold challenge
    split
    · exact .challenge hins _ t.entropy
    · exact .challenge hins _ _
  split
  · next hins =>
    unfold verify
    split
    · next hretries => exact .blocked hins hretries
    next hretries =>
    split
    · next hdata => exact .queried hins hdata
    split
    · next hdata =>
      have h : Executes t c data _ := .matched hins hretries hdata
      split <;> exact h
    · next hdata => exact .mistaken hins hretries
  next hverify =>
  split
  · next hins => exact .signed hins
  split
  · next hins => exact .authenticated hins
  · exact .unsupported hverify

theorem joinData?_eq_some {chain data whole : Bytes} (h : joinData? chain data = some whole) : whole = chain ++ data := by
  unfold joinData? at h
  split at h
  · exact (Option.some.inj h).symm
  · cases h

theorem joinData?_fits {chain data whole : Bytes} (h : joinData? chain data = some whole) :
    chain.length + data.length ≤ Card.maxData := by
  unfold joinData? at h
  split at h
  · next hle => exact hle
  · cases h

theorem joinData?_eq_none {chain data : Bytes} (h : joinData? chain data = none) :
    Card.maxData < (chain ++ data).length := by
  unfold joinData? at h
  split at h
  · cases h
  · simp only [List.length_append]
    omega

theorem reacts (c : Command) (t : SoftToken) : Reacts t c (react c t) := by
  unfold react process
  split
  · next hsecret => exact .unprovisioned (by simpa using hsecret)
  next hsecret =>
  split
  · next hchained =>
    cases joinData? t.chain c.data with
    | none => exact .refused _ fun hcla => by simp [Command.isChained, hcla, Card.chainedClass] at hchained
    | some chain => exact .collected hchained chain
  split
  · next hcla => exact .refused _ fun h => absurd h hcla
  next hcla =>
  have hcla : c.cla = 0 := Decidable.not_not.1 hcla
  cases hjoin : joinData? t.chain c.data with
  | none => exact .refused _ fun _ => joinData?_eq_none hjoin
  | some whole =>
    obtain rfl := joinData?_eq_some hjoin
    exact .executed (by simpa using hsecret) hcla (executes _ _ _ _)

/-- A PIN verification whose data, chained parts in front, is the PIN, while there are retries left. -/
structure Verifies (t : SoftToken) (c : Command) : Prop where
  cla : c.cla = 0
  ins : c.ins = Card.Ins.verify
  data : t.chain ++ c.data = t.pin
  retries : t.retries ≠ 0

/-- A PIN verification that comes with some data, but not with the PIN. -/
structure MissesPin (t : SoftToken) (c : Command) : Prop where
  cla : c.cla = 0
  ins : c.ins = Card.Ins.verify
  nonempty : t.chain ++ c.data ≠ []
  data : t.chain ++ c.data ≠ t.pin

/-- The same, with no more data than the token takes. -/
def Mistakes (t : SoftToken) (c : Command) : Prop := MissesPin t c ∧ (t.chain ++ c.data).length ≤ Card.maxData

/-- A verified token has a secret to sign with, and retries left. -/
def Sound (t : SoftToken) : Prop := t.verified = true → t.secret ≠ none ∧ t.retries ≠ 0

theorem Executes.kept (h : Executes t c data r) : r.2.secret = t.secret ∧ r.2.pin = t.pin := by
  cases h <;> exact ⟨rfl, rfl⟩

theorem Reacts.kept (h : Reacts t c r) : r.2.secret = t.secret ∧ r.2.pin = t.pin := by
  cases h with
  | executed _ _ h => exact h.kept
  | _ => exact ⟨rfl, rfl⟩

/-- Only the right PIN verifies, and a wrong one takes that back. -/
theorem Executes.verified (h : Executes t c data r) (hretries : t.verified = true → t.retries ≠ 0)
    (hr : r.2.verified = true) :
    (c.ins = Card.Ins.verify ∧ t.retries ≠ 0 ∧ data = t.pin) ∨
      (t.verified = true ∧ (c.ins = Card.Ins.verify → data = [] ∨ data = t.pin)) := by
  have other : ∀ {i : UInt8}, c.ins = i → i ≠ Card.Ins.verify → c.ins = Card.Ins.verify → data = [] ∨ data = t.pin :=
    fun hi hne hv => absurd (hi.symm.trans hv) hne
  cases h with
  | challenge hins => exact Or.inr ⟨hr, other hins (by decide)⟩
  | blocked _ h0 => exact absurd h0 (hretries hr)
  | queried _ hdata => exact Or.inr ⟨hr, fun _ => Or.inl hdata⟩
  | matched hins h0 hdata => exact Or.inl ⟨hins, h0, hdata⟩
  | mistaken => cases hr
  | signed hins => exact Or.inr ⟨hr, other hins (by decide)⟩
  | authenticated hins => exact Or.inr ⟨hr, other hins (by decide)⟩
  | unsupported hins => exact Or.inr ⟨hr, fun hv => absurd hv hins⟩

theorem Reacts.verified (h : Reacts t c r) (ht : t.Sound) (hr : r.2.verified = true) :
    Verifies t c ∨ (t.verified = true ∧ ¬ Mistakes t c) := by
  cases h with
  | unprovisioned hsecret => exact absurd hsecret (ht hr).1
  | collected hchained =>
    refine Or.inr ⟨hr, fun hm => ?_⟩
    simp [Command.isChained, hm.1.cla, Card.chainedClass] at hchained
  | refused sw h => exact Or.inr ⟨hr, fun hm => Nat.not_lt.2 hm.2 (h hm.1.cla)⟩
  | executed _ hcla h =>
    rcases h.verified (fun hv => (ht hv).2) hr with ⟨hins, hretries, hdata⟩ | ⟨hv, hdata⟩
    · exact Or.inl ⟨hcla, hins, hdata, hretries⟩
    · refine Or.inr ⟨hv, fun hm => ?_⟩
      rcases hdata hm.1.ins with hd | hd
      · exact hm.1.nonempty hd
      · exact hm.1.data hd

theorem Executes.sound (h : Executes t c data r) (hretries : t.verified = true → t.retries ≠ 0)
    (hr : r.2.verified = true) : r.2.retries ≠ 0 := by
  cases h with
  | matched => exact show maxRetries ≠ 0 by decide
  | mistaken => cases hr
  | _ => exact hretries hr

theorem Reacts.sound (h : Reacts t c r) (ht : t.Sound) : r.2.Sound := by
  intro hr
  cases h with
  | executed hsecret _ h => exact ⟨h.kept.1 ▸ hsecret, h.sound (fun hv => (ht hv).2) hr⟩
  | _ => exact ht hr

theorem toNat_sub_one {n : UInt8} (h0 : n ≠ 0) : (n - 1).toNat + 1 = n.toNat := by
  have hpos : 1 ≤ n.toNat := Nat.one_le_iff_ne_zero.2 fun hn => h0 (UInt8.toNat_inj.1 hn)
  have hsub : (n - 1).toNat = n.toNat - 1 := UInt8.toNat_sub_of_le n 1 (UInt8.le_iff_toNat_le.2 hpos)
  omega

theorem sub_one_le_maxRetries {n : UInt8} (h0 : n ≠ 0) (h : n ≤ maxRetries) : n - 1 ≤ maxRetries := by
  have hsub := toNat_sub_one h0
  rw [UInt8.le_iff_toNat_le] at h ⊢
  omega

/-- The retries never exceed their number. -/
theorem Executes.retries (h : Executes t c data r) (ht : t.retries ≤ maxRetries) : r.2.retries ≤ maxRetries := by
  cases h with
  | matched => exact UInt8.le_refl _
  | mistaken _ h0 => exact sub_one_le_maxRetries h0 ht
  | _ => exact ht

theorem Reacts.retries (h : Reacts t c r) (ht : t.retries ≤ maxRetries) : r.2.retries ≤ maxRetries := by
  cases h with
  | executed _ _ h => exact h.retries ht
  | _ => exact ht

/-- An answer with data in it that is not a challenge. -/
def CarriesDigest (c : Command) (response : Response) : Prop := c.ins ≠ Card.Ins.getChallenge ∧ 2 < response.length

theorem length_ofStatus (sw : Card.StatusWord) : (Response.ofStatus sw).length = 2 := rfl

theorem not_carriesDigest (c : Command) (sw : Card.StatusWord) : ¬ CarriesDigest c (.ofStatus sw) := by
  rintro ⟨-, h⟩
  rw [length_ofStatus] at h
  omega

/-- Only the two digests answer so, and the signature only on a verified token. -/
theorem Executes.digest (h : Executes t c data r) (hr : CarriesDigest c r.1) :
    (c.ins = Card.Ins.internalAuthenticate ∧ r.1 = t.digest authLabel data) ∨
      (c.ins = Card.Ins.performSecurityOperation ∧ t.verified = true ∧ r.1 = t.digest signLabel data) := by
  cases h with
  | challenge hins => exact absurd hins hr.1
  | signed hins =>
    right
    unfold sign at hr ⊢
    split
    · next hp => exact absurd hr (by simpa [hp] using not_carriesDigest c _)
    next hp =>
    split
    · next hv => exact absurd hr (by simpa [hp, hv] using not_carriesDigest c _)
    · next hv => exact ⟨hins, by simpa using hv, rfl⟩
  | authenticated hins => exact Or.inl ⟨hins, rfl⟩
  | _ => exact absurd hr (not_carriesDigest c _)

theorem Reacts.digest (h : Reacts t c r) (hr : CarriesDigest c r.1) :
    c.cla = 0 ∧ ((c.ins = Card.Ins.internalAuthenticate ∧ r.1 = t.digest authLabel (t.chain ++ c.data)) ∨
      (c.ins = Card.Ins.performSecurityOperation ∧ t.verified = true ∧
        r.1 = t.digest signLabel (t.chain ++ c.data))) := by
  cases h with
  | executed _ hcla h => exact ⟨hcla, h.digest hr⟩
  | _ => exact absurd hr (not_carriesDigest c _)

/-- An answer of the digest that carries anything carries the keyed digest, and the status that says so. -/
theorem digest_bytes {label : Bytes} (h : 2 < (t.digest label data).length) :
    ∃ secret, t.secret = some secret ∧ data ≠ [] ∧
      (t.digest label data).bytes = Digest.hmac secret (label ++ data) ++ Card.StatusWord.success.toBytes := by
  unfold digest at h ⊢
  by_cases hd : data = []
  · rw [if_pos hd, length_ofStatus] at h
    omega
  rw [if_neg hd] at h ⊢
  cases hs : t.secret with
  | none =>
    rw [hs] at h
    rw [length_ofStatus] at h
    omega
  | some secret =>
    refine ⟨secret, rfl, hd, ?_⟩
    have hlength : (Digest.hmac secret (label ++ data)).length = 32 := Digest.length_hmac _ _
    simp [Response.fill, Response.push?, Response.empty, Response.setStatus, Response.capacity, hlength]

end KeyFob.SoftToken
