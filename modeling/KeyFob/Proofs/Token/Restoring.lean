import KeyFob.Proofs.Token.Reloading

/-!
When a token can be restored, and what becomes of it otherwise, on a store whose reads may fail. The secret, the PIN and the
counter are read in this order. The first of them that cannot be read, that is missing, or that has the wrong length decides
what is wrong, and then the token stays as it was.
-/

namespace KeyFob

def Note.changes : Note → Bool
  | write .. | delete .. => true
  | log _ | read .. => false

namespace SoftToken

/-- A stored value: how long it must be, and what is wrong if it is missing. -/
structure Item where
  key : String
  least : Nat
  most : Nat
  missing : Option ProvisionError

/-- What a token reads when it is restored, in order. A counter need not be there. -/
def secretItem : Item := ⟨secretKey, secretLength, secretLength, some .missingState⟩
def pinItem : Item := ⟨pinKey, 1, maxPin, some .missingState⟩
def retriesItem : Item := ⟨retriesKey, 1, 1, none⟩

namespace Item

variable {κ : Type} [Storage κ]

def behind (i : Item) (s : κ) : κ := (Storage.read space i.key i.most s).2

def judge (i : Item) : Except StorageError Bytes → Option ProvisionError
  | .error .notFound => i.missing
  | .error e => some (.storage e)
  | .ok bytes => if bytes.length < i.least then some .corrupted else none

variable [Fallible κ]

/-- What is wrong with the value, if anything is: it cannot be read, it is missing, or it is too long or too short. -/
def fault (i : Item) (s : κ) : Option ProvisionError :=
  match Fallible.outage space i.key s with
  | some o => some (.storage o.error)
  | none =>
    match Honest.contents s space i.key with
    | none => i.missing
    | some bytes =>
      if i.most < bytes.length then some (.storage .ioError)
      else if bytes.length < i.least then some .corrupted
      else none

/-- The first of these values with which something is wrong decides. -/
def firstFault : List Item → κ → Option ProvisionError
  | [], _ => none
  | i :: rest, s => (i.fault s).or (firstFault rest (i.behind s))

variable {i : Item} {s : κ}

theorem fault_eq_judge (i : Item) (s : κ) : i.fault s = i.judge (Storage.read space i.key i.most s).1 := by
  rw [Fallible.read_eq, fault]
  cases Fallible.outage space i.key s with
  | some o => cases o <;> rfl
  | none =>
    dsimp only
    rw [Contents.read]
    cases Honest.contents s space i.key with
    | none => rfl
    | some bytes =>
      by_cases hle : bytes.length ≤ i.most
      · simp only [if_neg (Nat.not_lt.2 hle), if_pos hle, judge]
      · simp only [if_pos (Nat.not_le.1 hle), if_neg hle, judge]

theorem read_fits {bytes : Bytes} (h : (Storage.read space i.key i.most s).1 = .ok bytes) : bytes.length ≤ i.most := by
  rw [Fallible.read_eq] at h
  cases ho : Fallible.outage space i.key s with
  | some o =>
    rw [ho] at h
    cases h
  | none =>
    rw [ho] at h
    exact (Contents.read_eq_ok_iff.1 h).2

theorem fault_eq_none_iff : i.fault s = none ↔ Fallible.outage space i.key s = none ∧
    ((Honest.contents s space i.key = none ∧ i.missing = none) ∨
      ∃ bytes, Honest.contents s space i.key = some bytes ∧ i.least ≤ bytes.length ∧ bytes.length ≤ i.most) := by
  unfold fault
  cases Fallible.outage space i.key s with
  | some o => simp
  | none =>
    cases Honest.contents s space i.key with
    | none => simp
    | some bytes =>
      dsimp only
      split
      · next hlong => simp [Nat.not_le.2 hlong]
      · next hfits =>
        split
        · next hshort => simp [Nat.not_le.2 hshort]
        · next hlong => simp [Nat.not_lt.1 hfits, Nat.not_lt.1 hlong]

end Item

variable {κ : Type} [Storage κ] [Fallible κ] {i : Item} {s : κ} {α : Type}

/-- The result says what is wrong, if anything is, and otherwise it is as it should be. -/
def Tells (fault : Option ProvisionError) (p : α → Prop) (r : Except ProvisionError α) : Prop :=
  match fault with
  | some e => r = .error e
  | none => ∃ a, r = .ok a ∧ p a

theorem Tells.of_error {fault : Option ProvisionError} {p : α → Prop} {e : ProvisionError}
    (h : Tells fault p (.error e)) : fault = some e := by
  cases fault with
  | none =>
    obtain ⟨a, ha, -⟩ := h
    cases ha
  | some e' => exact congrArg some (Except.error.inj h).symm

theorem Tells.of_ok {fault : Option ProvisionError} {p : α → Prop} {a : α} (h : Tells fault p (.ok a)) :
    fault = none ∧ p a := by
  cases fault with
  | none =>
    obtain ⟨b, hb, hp⟩ := h
    cases hb
    exact ⟨rfl, hp⟩
  | some e' => cases h

def Found (i : Item) (s : κ) (p : α → Prop) (r : Except ProvisionError α) (σ : Shelf κ) : Prop :=
  σ.store = i.behind s ∧ Tells (i.fault s) p r

theorem Found.wrong {p : α → Prop} {e : ProvisionError} {σ : Shelf κ} (hstore : σ.store = i.behind s)
    (hfault : i.fault s = some e) : Found i s p (.error e) σ := by
  refine ⟨hstore, ?_⟩
  rw [hfault]
  rfl

theorem Found.right {p : α → Prop} {a : α} {σ : Shelf κ} (hstore : σ.store = i.behind s) (hfault : i.fault s = none)
    (ha : p a) : Found i s p (.ok a) σ := by
  refine ⟨hstore, ?_⟩
  rw [hfault]
  exact ⟨a, rfl, ha⟩

theorem read_judged (i : Item) (s : κ) :
    Leads (fun σ => σ.store = s) (OnShelf.read space i.key i.most : OnShelf κ _) fun r σ => σ.store = i.behind s ∧
      i.fault s = i.judge r ∧ (r = .error .notFound → Honest.contents s space i.key = none) ∧
      ∀ bytes, r = .ok bytes → Honest.contents s space i.key = some bytes ∧ bytes.length ≤ i.most := by
  rintro σ rfl
  exact ⟨rfl, i.fault_eq_judge σ.store, Honest.read_notFound _ _ _ _, fun bytes h =>
    ⟨Honest.read_ok _ _ _ _ bytes h, Item.read_fits h⟩⟩

theorem loadSecret_found (s : κ) : Leads (fun σ => σ.store = s) (loadSecret : OnShelf κ _)
    (Found secretItem s fun secret => Honest.contents s space secretKey = some secret ∧ secret.length = secretLength) := by
  refine (read_judged secretItem s).bind fun r => ?_
  cases r with
  | error e =>
    refine .pure fun σ ⟨hstore, hfault, _⟩ => .wrong hstore (hfault.trans ?_)
    cases e <;> rfl
  | ok bytes =>
    by_cases hlength : bytes.length = secretLength
    · have hlong : ¬ bytes.length < secretLength := Nat.not_lt.2 (Nat.le_of_eq hlength.symm)
      dsimp only
      rw [if_pos hlength]
      refine .pure fun σ ⟨hstore, hfault, _, hread⟩ => .right hstore (hfault.trans (if_neg hlong)) ?_
      exact ⟨(hread bytes rfl).1, hlength⟩
    · dsimp only
      rw [if_neg hlength]
      refine .pure fun σ ⟨hstore, hfault, _, hread⟩ => .wrong hstore (hfault.trans (if_pos ?_))
      exact Nat.lt_of_le_of_ne (hread bytes rfl).2 hlength

theorem loadPin_found (s : κ) : Leads (fun σ => σ.store = s) (loadPin : OnShelf κ _)
    (Found pinItem s fun pin => Honest.contents s space pinKey = some pin ∧ pin ≠ [] ∧ pin.length ≤ maxPin) := by
  refine (read_judged pinItem s).bind fun r => ?_
  cases r with
  | error e =>
    refine .pure fun σ ⟨hstore, hfault, _⟩ => .wrong hstore (hfault.trans ?_)
    cases e <;> rfl
  | ok bytes =>
    cases bytes with
    | nil => exact .pure fun σ ⟨hstore, hfault, _⟩ => .wrong hstore hfault
    | cons b bs =>
      refine .pure fun σ ⟨hstore, hfault, _, hread⟩ => .right hstore hfault ?_
      obtain ⟨hstored, hfits⟩ := hread (b :: bs) rfl
      exact ⟨hstored, nofun, hfits⟩

theorem loadRetries_found (s : κ) : Leads (fun σ => σ.store = s) (loadRetries : OnShelf κ _)
    (Found retriesItem s fun n => storedRetries? (Honest.contents s) = some n) := by
  refine (read_judged retriesItem s).bind fun r => ?_
  cases r with
  | error e =>
    rintro σ ⟨hstore, hfault, hmissing, -⟩
    cases e with
    | notFound =>
      have hnone : Honest.contents s space retriesKey = none := hmissing rfl
      refine Found.right hstore hfault ?_
      rw [storedRetries?, hnone]
    | full => exact Found.wrong hstore hfault
    | ioError => exact Found.wrong hstore hfault
  | ok bytes =>
    rintro σ ⟨hstore, hfault, -, hread⟩
    obtain ⟨hstored, hfits⟩ := hread bytes rfl
    rcases bytes with _ | ⟨n, _ | ⟨m, bs⟩⟩
    · exact Found.wrong hstore hfault
    · have hstored : Honest.contents s space retriesKey = some [n] := hstored
      refine Found.right hstore hfault ?_
      rw [storedRetries?, hstored]
    · simp [retriesItem] at hfits

def items : List Item := [secretItem, pinItem, retriesItem]

structure Unhindered (s : κ) : Prop where
  secret : Fallible.outage space secretKey s = none
  pin : Fallible.outage space pinKey (secretItem.behind s) = none
  retries : Fallible.outage space retriesKey (pinItem.behind (secretItem.behind s)) = none

theorem contents_behind (i : Item) (s : κ) : Honest.contents (i.behind s) = Honest.contents s :=
  Honest.contents_read space i.key i.most s

theorem Loadable.unique {C : Contents} {secret secret' pin pin' : Bytes} {n n' : UInt8} (h : Loadable C secret pin n)
    (h' : Loadable C secret' pin' n') : secret' = secret ∧ pin' = pin ∧ n' = n :=
  ⟨Option.some.inj (h'.storedSecret.symm.trans h.storedSecret), Option.some.inj (h'.storedPin.symm.trans h.storedPin),
    Option.some.inj (h'.storedRetries.symm.trans h.storedRetries)⟩

/-- Behind a value with which something is wrong nothing more is read; behind one that is good the others decide. -/
theorem Found.bind {β : Type} {p : α → Prop} {q : β → Prop} {rest : Option ProvisionError}
    {f : Except ProvisionError α → OnShelf κ (Except ProvisionError β)} {m : OnShelf κ (Except ProvisionError α)}
    (hm : Leads (fun σ => σ.store = s) m (Found i s p)) (herror : ∀ e, f (.error e) = pure (.error e))
    (hok : ∀ a, p a → Leads (fun σ => σ.store = i.behind s) (f (.ok a)) fun r _ => Tells rest q r) :
    Leads (fun σ => σ.store = s) (m >>= f) fun r _ => Tells ((i.fault s).or rest) q r := by
  refine hm.bind fun r => ?_
  cases r with
  | error e =>
    rintro σ ⟨-, h⟩
    rw [herror, h.of_error]
    rfl
  | ok a =>
    rintro σ ⟨hstore, h⟩
    rw [h.of_ok.1]
    exact hok a h.of_ok.2 σ hstore

theorem load_found (s : κ) : Leads (fun σ => σ.store = s) (load : OnShelf κ _) fun r _ =>
    Tells (Item.firstFault items s) (fun (loaded : Bytes × Bytes × UInt8) =>
      Loadable (Honest.contents s) loaded.1 loaded.2.1 loaded.2.2) r := by
  refine Found.bind (loadSecret_found s) (fun _ => rfl) fun secret ⟨hstored, hlength⟩ => ?_
  refine Found.bind (loadPin_found _) (fun _ => rfl) fun pin ⟨hstored', hne, hfits⟩ => ?_
  refine Found.bind (loadRetries_found _) (fun _ => rfl) fun n hcounted => ?_
  rw [contents_behind] at hstored'
  rw [contents_behind, contents_behind] at hcounted
  exact .pure fun σ _ => ⟨_, rfl, hstored, hlength, hstored', hne, hfits, hcounted⟩

/-- Either everything is taken over, or what is wrong first is told and nothing changes. -/
theorem restore_found (t : SoftToken) (s : κ) : Leads (fun σ => σ.store = s) (restore t : OnShelf κ _) fun r _ =>
    match Item.firstFault items s with
    | some e => r = (.error e, t)
    | none => ∃ secret pin n, Loadable (Honest.contents s) secret pin n ∧ r = (.ok (), t.reloaded secret pin n) := by
  refine (load_found s).bind fun r => ?_
  cases r with
  | error e =>
    refine .pure fun σ h => ?_
    rw [h.of_error]
  | ok loaded =>
    obtain ⟨secret, pin, n⟩ := loaded
    intro σ h
    obtain ⟨hfault, hloadable⟩ := h.of_ok
    rw [hfault]
    have always : KeptByReads (κ := κ) fun _ => True := ⟨fun _ _ _ _ _ => trivial, fun _ _ _ _ => trivial⟩
    exact ⟨secret, pin, n, hloadable, (always.adopt_of_fits t hloadable.fits n _ σ trivial).2⟩

/-- A counter that can be reloaded is one byte, or there is none. -/
theorem Loadable.counter {C : Contents} {secret pin : Bytes} {n : UInt8} (h : Loadable C secret pin n) :
    (C space retriesKey = none ∧ retriesItem.missing = none) ∨
      ∃ bytes, C space retriesKey = some bytes ∧ retriesItem.least ≤ bytes.length ∧ bytes.length ≤ retriesItem.most := by
  have hcounted := h.storedRetries
  unfold storedRetries? at hcounted
  split at hcounted
  · next hnone => exact Or.inl ⟨hnone, rfl⟩
  · next m hone => exact Or.inr ⟨[m], hone, Nat.le_refl 1, Nat.le_refl 1⟩
  · cases hcounted

/-- Nothing is wrong if and only if every read is answered and all three values are good. -/
theorem firstFault_eq_none_iff (s : κ) : Item.firstFault items s = none ↔
    Unhindered s ∧ ∃ secret pin n, Loadable (Honest.contents s) secret pin n := by
  constructor
  · intro h
    -- What has been loaded is good; the single faults are only needed for the reads.
    have hload := load_found s ⟨s, []⟩ rfl
    rw [h] at hload
    obtain ⟨loaded, -, hloadable⟩ := hload
    obtain ⟨hsecret, h⟩ := Option.or_eq_none_iff.1 h
    obtain ⟨hpin, h⟩ := Option.or_eq_none_iff.1 h
    obtain ⟨hretries, -⟩ := Option.or_eq_none_iff.1 h
    exact ⟨⟨(Item.fault_eq_none_iff.1 hsecret).1, (Item.fault_eq_none_iff.1 hpin).1, (Item.fault_eq_none_iff.1 hretries).1⟩,
      _, _, _, hloadable⟩
  · rintro ⟨hanswered, secret, pin, n, h⟩
    have hsecret : secretItem.fault s = none := Item.fault_eq_none_iff.2 ⟨hanswered.secret,
      Or.inr ⟨secret, h.storedSecret, Nat.le_of_eq h.length.symm, Nat.le_of_eq h.length⟩⟩
    have hpin : pinItem.fault (secretItem.behind s) = none := by
      refine Item.fault_eq_none_iff.2 ⟨hanswered.pin, Or.inr ⟨pin, ?_, List.length_pos_iff.2 h.nonempty, h.fits⟩⟩
      rw [contents_behind]
      exact h.storedPin
    have hretries : retriesItem.fault (pinItem.behind (secretItem.behind s)) = none := by
      refine Item.fault_eq_none_iff.2 ⟨hanswered.retries, ?_⟩
      rw [contents_behind, contents_behind]
      exact h.counter
    rw [items, Item.firstFault, hsecret, Item.firstFault, hpin, Item.firstFault, hretries]
    rfl

theorem restore_eq_error_iff {t t' : SoftToken} {e : ProvisionError} :
    (restore t (⟨s, []⟩ : Shelf κ)).1 = (.error e, t') ↔ Item.firstFault items s = some e ∧ t' = t := by
  have hfound := restore_found t s ⟨s, []⟩ rfl
  cases hfault : Item.firstFault items s with
  | some e' =>
    rw [hfault] at hfound
    rw [hfound, Prod.mk.injEq, Except.error.injEq, Option.some.injEq]
    exact and_congr_right fun _ => eq_comm
  | none =>
    rw [hfault] at hfound
    obtain ⟨secret, pin, n, -, hr⟩ := hfound
    rw [hr]
    exact iff_of_false nofun nofun

theorem restore_eq_ok_iff {t t' : SoftToken} : (restore t (⟨s, []⟩ : Shelf κ)).1 = (.ok (), t') ↔ Unhindered s ∧
    ∃ secret pin n, Loadable (Honest.contents s) secret pin n ∧ t' = t.reloaded secret pin n := by
  have hfound := restore_found t s ⟨s, []⟩ rfl
  cases hfault : Item.firstFault items s with
  | some e =>
    rw [hfault] at hfound
    rw [hfound]
    refine iff_of_false nofun fun ⟨hanswered, secret, pin, n, h, _⟩ => ?_
    cases hfault.symm.trans ((firstFault_eq_none_iff s).2 ⟨hanswered, secret, pin, n, h⟩)
  | none =>
    rw [hfault] at hfound
    obtain ⟨secret, pin, n, hloadable, hr⟩ := hfound
    rw [hr, Prod.mk.injEq]
    refine ⟨fun h => ⟨((firstFault_eq_none_iff s).1 hfault).1, secret, pin, n, hloadable, h.2.symm⟩, ?_⟩
    rintro ⟨-, secret', pin', n', h, rfl⟩
    obtain ⟨rfl, rfl, rfl⟩ := hloadable.unique h
    exact ⟨rfl, rfl⟩

omit [Fallible κ] in
theorem keptByReads_notes : KeptByReads (κ := κ) fun σ => ∀ n ∈ σ.notes, n.changes = false where
  log _ _ _ := fun _ h => List.forall_mem_append.2 ⟨h, List.forall_mem_singleton.2 rfl⟩
  read _ _ := fun _ h => List.forall_mem_append.2 ⟨h, List.forall_mem_singleton.2 rfl⟩

omit [Fallible κ] in
/-- Making secrets fails with the store, before anything but the randomness has changed. -/
theorem generate_failed (t : SoftToken) : Leads (fun _ => True) (generate t : OnShelf κ _) fun r _ =>
    ∀ e, r.1 = .error e → r.2 = { t with entropy := (t.entropy.draw secretLength).2 } := by
  have always : KeptByReads (κ := κ) fun _ => True := ⟨fun _ _ _ _ _ => trivial, fun _ _ _ _ => trivial⟩
  refine Leads.bind (Q := fun _ _ => True) (fun _ _ => trivial) fun r => ?_
  cases r with
  | error e => exact .pure fun _ _ _ _ => rfl
  | ok _ =>
    refine (always.adopt_of_fits _ (by decide) _ _).mono fun r _ ⟨_, hr⟩ e he => ?_
    rw [hr] at he
    cases he

/-- Whatever a store holds and whichever reads fail, restoring a token writes nothing. It succeeds exactly when every read
is answered and the store has a secret, a PIN and a counter that are good, or no counter, and then the token has these
values. Otherwise the first that is wrong is told. No failure, be it to restore or to make secrets, changes anything of the
token but that randomness was drawn. -/
theorem restored_whole_or_left_alone (t : SoftToken) (s : κ) :
    let restored := restore t (⟨s, []⟩ : Shelf κ)
    (∀ n ∈ restored.2.notes, n.changes = false) ∧ Honest.contents restored.2.store = Honest.contents s ∧
    (∀ t', restored.1 = (.ok (), t') ↔ Unhindered s ∧
      ∃ secret pin n, Loadable (Honest.contents s) secret pin n ∧ t' = t.reloaded secret pin n) ∧
    (∀ e t', restored.1 = (.error e, t') ↔ Item.firstFault items s = some e ∧ t' = t) ∧
    ∀ e t', (generate t (⟨s, []⟩ : Shelf κ)).1 = (.error e, t') →
      t' = { t with entropy := (t.entropy.draw secretLength).2 } := by
  intro restored
  refine ⟨keptByReads_notes.restore t _ (fun _ h => nomatch h), keptByReads_holds.restore t ⟨s, []⟩ rfl,
    fun _ => restore_eq_ok_iff, fun _ _ => restore_eq_error_iff, fun e t' h => ?_⟩
  have hfailed := generate_failed t (⟨s, []⟩ : Shelf κ) trivial e
  rw [h] at hfailed
  exact hfailed rfl

/-- A store that has all three values, but is not answering when the PIN is read. -/
example : let stored : UnreliableStore :=
      ⟨⟨[((space, secretKey), List.replicate 32 7), ((space, pinKey), [1]), ((space, retriesKey), [9])]⟩, [none, some .full]⟩
    let t : SoftToken := { entropy := .scrambled 7, verified := true }
    Item.firstFault items stored = some (.storage .full) ∧
      (restore t (⟨stored, []⟩ : Shelf UnreliableStore)).1 = (.error (.storage .full), t) := ⟨rfl, rfl⟩

end SoftToken

end KeyFob
