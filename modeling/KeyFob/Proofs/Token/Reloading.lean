import KeyFob.Proofs.Storage.Reliable
import KeyFob.Proofs.Token.Storing

/-!
The token and its store, where nothing fails. The store mirrors the token: a new token that reloads has its secret, PIN
and retries, and starts without a session. So it is the token itself, once that has dropped its session, and no command
tells the two apart. The retries are what takes care: they are stored only when they change, and read with a bound.
-/

namespace KeyFob

namespace SoftToken

open Card (Command Response)

/-- The counter that a token reloads: a full one if none is stored, and none that is more than full. -/
def storedRetries? (C : Contents) : Option UInt8 :=
  match C space retriesKey with
  | none => some maxRetries
  | some [n] => some (if n < maxRetries then n else maxRetries)
  | some _ => none

/-- Contents from which a token reloads just these values. -/
structure Loadable (C : Contents) (secret pin : Bytes) (retries : UInt8) : Prop where
  storedSecret : C space secretKey = some secret
  length : secret.length = secretLength
  storedPin : C space pinKey = some pin
  nonempty : pin ≠ []
  fits : pin.length ≤ maxPin
  storedRetries : storedRetries? C = some retries

def reloaded (t : SoftToken) (secret pin : Bytes) (retries : UInt8) : SoftToken :=
  { t with secret := some secret, pin, retries }

def dropped (t : SoftToken) : SoftToken := { t with verified := false, chain := [] }

/-- What the store holds is what the token has in memory. -/
def Mirrors (C : Contents) (t : SoftToken) : Prop := ∃ secret, t.secret = some secret ∧ Loadable C secret t.pin t.retries

variable {C : Contents} {t : SoftToken}

theorem storedRetries?_le {n : UInt8} (h : storedRetries? C = some n) : n ≤ maxRetries := by
  unfold storedRetries? at h
  split at h
  · exact Option.some.inj h ▸ UInt8.le_refl _
  · next m _ =>
    obtain rfl := Option.some.inj h
    split
    · next hm => exact UInt8.le_of_lt hm
    · exact UInt8.le_refl _
  · cases h

theorem Mirrors.retries (h : Mirrors C t) : t.retries ≤ maxRetries :=
  have ⟨_, _, hload⟩ := h
  storedRetries?_le hload.storedRetries

/-- What becomes of the contents when a token's counter does: it is stored when it changes. -/
def recount (C : Contents) (before after : UInt8) : Contents :=
  if after = before then C else C.set space retriesKey (some [after])

theorem recount_self (C : Contents) (n : UInt8) : recount C n n = C := if_pos rfl

theorem storedRetries?_set {C : Contents} {n : UInt8} (hn : n ≤ maxRetries) :
    storedRetries? (C.set space retriesKey (some [n])) = some n := by
  have hmin : (if n < maxRetries then n else maxRetries) = n := by
    by_cases hlt : n < maxRetries
    · rw [if_pos hlt]
    · rw [if_neg hlt, UInt8.le_antisymm hn (UInt8.not_lt.1 hlt)]
  rw [storedRetries?, Contents.set_self]
  exact congrArg some hmin

theorem Mirrors.recount {t' : SoftToken} (h : Mirrors C t) (hsecret : t'.secret = t.secret) (hpin : t'.pin = t.pin)
    (hretries : t'.retries ≤ maxRetries) : Mirrors (recount C t.retries t'.retries) t' := by
  obtain ⟨secret, hs, hload⟩ := h
  refine ⟨secret, hsecret.trans hs, ?_⟩
  rw [hpin]
  unfold SoftToken.recount
  split
  · next heq => exact heq ▸ hload
  · have hne {key : String} (hk : key ≠ retriesKey) :
        (C.set space retriesKey (some [t'.retries])) space key = C space key :=
      C.set_of_ne _ fun h => hk h.2
    exact ⟨(hne (by decide)).trans hload.storedSecret, hload.length, (hne (by decide)).trans hload.storedPin,
      hload.nonempty, hload.fits, storedRetries?_set hretries⟩

variable {κ : Type} [Storage κ] [Reliable κ]

/-- The result of a part of reloading is a value if and only if it is one that the contents have. -/
def Yields {α : Type} (C : Contents) (p : α → Prop) (r : Except ProvisionError α) (s : Shelf κ) : Prop :=
  s.Holds C ∧ ∀ a, r = .ok a ↔ p a

theorem loadSecret_yields :
    Leads (Shelf.Holds C) (loadSecret : OnShelf κ _) (Yields C fun secret =>
      C space secretKey = some secret ∧ secret.length = secretLength) := by
  refine (OnShelf.read_ok_iff _ _ _).bind fun r => ?_
  rintro s ⟨hs, hread⟩
  cases r with
  | error e => exact ⟨hs, fun secret => iff_of_false nofun fun h => nomatch (hread secret).2 ⟨h.1, Nat.le_of_eq h.2⟩⟩
  | ok bytes =>
    refine ⟨hs, fun secret => ?_⟩
    rw [((hread bytes).1 rfl).1]
    change (if bytes.length = secretLength then Except.ok bytes else .error ProvisionError.corrupted) = _ ↔ _
    split
    · next hl => exact ⟨fun h => by cases h; exact ⟨rfl, hl⟩, fun h => by cases h.1; rfl⟩
    · next hl => exact iff_of_false nofun fun h => hl (Option.some.inj h.1 ▸ h.2)

theorem loadPin_yields :
    Leads (Shelf.Holds C) (loadPin : OnShelf κ _) (Yields C fun pin =>
      C space pinKey = some pin ∧ pin ≠ [] ∧ pin.length ≤ maxPin) := by
  refine (OnShelf.read_ok_iff _ _ _).bind fun r => ?_
  rintro s ⟨hs, hread⟩
  cases r with
  | error e => exact ⟨hs, fun pin => iff_of_false nofun fun h => nomatch (hread pin).2 ⟨h.1, h.2.2⟩⟩
  | ok bytes =>
    refine ⟨hs, fun pin => ?_⟩
    obtain ⟨hstored, hle⟩ := (hread bytes).1 rfl
    rw [hstored]
    change (if bytes = [] then Except.error ProvisionError.corrupted else .ok bytes) = _ ↔ _
    split
    · next hnil => exact iff_of_false nofun fun h => h.2.1 (Option.some.inj h.1 ▸ hnil)
    · next hne => exact ⟨fun h => by cases h; exact ⟨rfl, hne, hle⟩, fun h => by cases h.1; rfl⟩

theorem loadRetries_yields :
    Leads (Shelf.Holds C) (loadRetries : OnShelf κ _) (Yields C fun n => storedRetries? C = some n) := by
  refine (OnShelf.read_legible _ _ _).bind fun r => ?_
  rintro s ⟨hs, rfl⟩
  unfold Contents.read storedRetries?
  rcases C space retriesKey with _ | _ | ⟨m, _ | ⟨m', bs⟩⟩
  · exact ⟨hs, fun n => ⟨fun h => by cases h; rfl, fun h => by cases h; rfl⟩⟩
  · exact ⟨hs, fun n => iff_of_false nofun nofun⟩
  · exact ⟨hs, fun n => ⟨fun h => by cases h; rfl, fun h => by cases h; rfl⟩⟩
  · exact ⟨hs, fun n => iff_of_false nofun nofun⟩

theorem load_yields :
    Leads (Shelf.Holds C) (load : OnShelf κ _) (Yields C fun (loaded : Bytes × Bytes × UInt8) =>
      Loadable C loaded.1 loaded.2.1 loaded.2.2) := by
  refine loadSecret_yields.bind fun r => ?_
  rintro s ⟨hs, hsecret⟩
  cases r with
  | error e => exact ⟨hs, fun _ => iff_of_false nofun fun h => nomatch (hsecret _).2 ⟨h.storedSecret, h.length⟩⟩
  | ok secret =>
  refine loadPin_yields.bind (fun r => ?_) s hs
  rintro s ⟨hs, hpin⟩
  cases r with
  | error e => exact ⟨hs, fun _ => iff_of_false nofun fun h => nomatch (hpin _).2 ⟨h.storedPin, h.nonempty, h.fits⟩⟩
  | ok pin =>
  refine loadRetries_yields.bind (fun r => ?_) s hs
  rintro s ⟨hs, hretries⟩
  cases r with
  | error e => exact ⟨hs, fun _ => iff_of_false nofun fun h => nomatch (hretries _).2 h.storedRetries⟩
  | ok n =>
  obtain ⟨hstored, hlength⟩ := (hsecret secret).1 rfl
  obtain ⟨hstored', hne, hfits⟩ := (hpin pin).1 rfl
  refine ⟨hs, fun (secret', pin', n') => ⟨fun h => ?_, fun h => ?_⟩⟩
  · cases h
    exact ⟨hstored, hlength, hstored', hne, hfits, (hretries n).1 rfl⟩
  · cases hstored.symm.trans h.storedSecret
    cases hstored'.symm.trans h.storedPin
    cases (hretries n').2 h.storedRetries
    rfl

/-- What reloading comes to: it succeeds if the contents have all that is needed, and otherwise nothing changes. -/
def Restores (C : Contents) (t : SoftToken) (r : Except ProvisionError Unit × SoftToken) (s : Shelf κ) : Prop :=
  s.Holds C ∧ ((∃ secret pin n, Loadable C secret pin n ∧ r = (.ok (), t.reloaded secret pin n)) ∨
    (¬ ∃ secret pin n, Loadable C secret pin n) ∧ ∃ e, r = (.error e, t))

theorem restore_yields : Leads (Shelf.Holds C) (restore t : OnShelf κ _) (Restores C t) := by
  refine load_yields.bind fun r => ?_
  rintro s ⟨hs, hload⟩
  cases r with
  | error e =>
    have hnone : ¬ ∃ secret pin n, Loadable C secret pin n :=
      fun ⟨secret, pin, n, h⟩ => nomatch (hload (secret, pin, n)).2 h
    exact ⟨hs, Or.inr ⟨hnone, e, rfl⟩⟩
  | ok loaded =>
    obtain ⟨secret, pin, n⟩ := loaded
    have hloadable : Loadable C secret pin n := (hload (secret, pin, n)).1 rfl
    have adopts : Leads (Shelf.Holds C)
        (t.adopt secret pin n s!"TOKEN: device secret restored ({n.toNat} PIN retries)" : OnShelf κ _) (Restores C t) :=
      (keptByReads_holds.adopt_of_fits t hloadable.fits n _).mono fun _ _ ⟨hs, hr⟩ =>
        ⟨hs, Or.inl ⟨secret, pin, n, hloadable, hr⟩⟩
    exact adopts s hs

/-- The contents behind making secrets. -/
def stocked (C : Contents) (secret : Bytes) : Contents :=
  ((C.set space secretKey (some secret)).set space pinKey (some defaultPin)).set space retriesKey (some [maxRetries])

theorem storeAll_stocks (secret : Bytes) :
    Leads (Shelf.Holds C) (storeAll secret : OnShelf κ _) (Shelf.Done (stocked C secret)) := by
  refine (OnShelf.write_reliable _ _ _).bind fun r => ?_
  rintro s ⟨rfl, hs⟩
  refine (OnShelf.write_reliable _ _ _).bind (fun r => ?_) s hs
  rintro s ⟨rfl, hs⟩
  exact OnShelf.write_reliable _ _ _ s hs

theorem stocked_loadable {secret : Bytes} (h : secret.length = secretLength) :
    Loadable (stocked C secret) secret defaultPin maxRetries := by
  refine ⟨?_, h, ?_, by decide, by decide, storedRetries?_set (UInt8.le_refl _)⟩
  · rw [stocked, Contents.set_of_ne _ _ (by decide), Contents.set_of_ne _ _ (by decide), Contents.set_self]
  · rw [stocked, Contents.set_of_ne _ _ (by decide), Contents.set_self]

/-- What making secrets comes to: the store mirrors them. -/
def Generates (t : SoftToken) (r : Except ProvisionError Unit × SoftToken) (s : Shelf κ) : Prop :=
  r.1 = .ok () ∧ Mirrors (Honest.contents s.store) r.2 ∧ r.2.verified = t.verified

theorem generate_mirrors : Leads (Shelf.Holds C) (generate t : OnShelf κ _) (Generates t) := by
  refine (storeAll_stocks _).bind fun r => ?_
  rintro s ⟨rfl, hs⟩
  refine ⟨rfl, ⟨_, rfl, ?_⟩, rfl⟩
  change Loadable (Honest.contents s.store) _ _ _
  rw [hs]
  exact stocked_loadable (t.entropy.length_draw secretLength)

theorem persistRetries_stores :
    Leads (Shelf.Holds C) (t.persistRetries : OnShelf κ Unit) fun _ s =>
      s.Holds (C.set space retriesKey (some [t.retries])) := by
  refine (OnShelf.write_reliable _ _ _).bind fun r => ?_
  rintro s ⟨rfl, hs⟩
  exact hs

def Recounting {α : Type} (C : Contents) (t : SoftToken) (r : α × SoftToken) (s : Shelf κ) : Prop :=
  s.Holds (recount C t.retries r.2.retries)

theorem recounting_of_same {α : Type} {r : α × SoftToken} (h : r.2.retries = t.retries) :
    Leads (Shelf.Holds C) (pure r : OnShelf κ _) (Recounting C t) := by
  refine .pure fun s hs => ?_
  rw [Recounting, h, recount_self]
  exact hs

theorem verify_recounts (data : Bytes) :
    Leads (Shelf.Holds C) (t.verify data : OnShelf κ _) (Recounting C t) := by
  refine .ite (fun _ => recounting_of_same rfl) fun h0 => .ite (fun _ => recounting_of_same rfl) fun _ => ?_
  refine .ite (fun _ => .ite (fun hne => ?_) fun heq => ?_) fun _ => ?_
  · refine persistRetries_stores.bind fun _ => .pure fun s hs => ?_
    rw [Recounting, recount, if_neg hne.symm]
    exact hs
  · exact recounting_of_same (Decidable.not_not.1 heq).symm
  · have hne : t.retries - 1 ≠ t.retries := fun heq => by
      have hsub := toNat_sub_one h0
      rw [heq] at hsub
      omega
    refine persistRetries_stores.bind fun _ => Leads.bind (Q := fun _ => Shelf.Holds _) (fun _ hs => hs) fun _ =>
      .pure fun s hs => ?_
    rw [Recounting, recount, if_neg hne]
    exact hs

/-- A command stores the counter when it changes it, and nothing else. -/
theorem process_recounts (c : Command) :
    Leads (Shelf.Holds C) (process c t : OnShelf κ _) (Recounting C t) := by
  have executes (data : Bytes) : Leads (Shelf.Holds C) ({ t with chain := [] }.execute c data : OnShelf κ _)
      (Recounting C t) := by
    refine .ite (fun _ => recounting_of_same ?_) fun _ => .ite (fun _ => verify_recounts data) fun _ => ?_
    · unfold challenge
      split <;> rfl
    refine .ite (fun _ => recounting_of_same rfl) fun _ => .ite (fun _ => recounting_of_same rfl) fun _ => ?_
    exact (OnShelf.log_leads _ _ _).bind fun _ => recounting_of_same rfl
  unfold process
  refine .ite (fun _ => recounting_of_same rfl) fun _ => ?_
  cases joinData? t.chain c.data with
  | none =>
    refine .ite (fun _ => recounting_of_same rfl) fun _ => .ite (fun _ => recounting_of_same rfl) fun _ => ?_
    exact recounting_of_same rfl
  | some data =>
    exact .ite (fun _ => recounting_of_same rfl) fun _ => .ite (fun _ => recounting_of_same rfl) fun _ => executes data

end SoftToken

end KeyFob
