import KeyFob.Proofs.Journal.Leads
import KeyFob.Proofs.Token.Reaction

/-!
What the software token makes of its store. Making secrets writes three values and succeeds only if all of them are
stored; reloading them writes nothing, and misses none of them unless a read fails; and a command writes the retry
counter at most.
-/

namespace KeyFob

namespace SoftToken

open Card (Command Response)

/-- Contents of a store from which the token can reload this secret, with a PIN and a counter. -/
structure Kept (C : Contents) (secret : Bytes) : Prop where
  length : secret.length = secretLength
  stored : C space secretKey = some secret
  pin : ∃ pin, C space pinKey = some pin ∧ pin ≠ [] ∧ pin.length ≤ maxPin
  retries : ∃ n, C space retriesKey = some [n] ∧ n ≤ maxRetries

/-- Only the token's own part of the contents counts. -/
theorem Kept.of_eq {C C' : Contents} {secret : Bytes} (h : Kept C secret) (hC : ∀ key, C' space key = C space key) :
    Kept C' secret := by
  refine ⟨h.length, ?_, ?_, ?_⟩
  · rw [hC]
    exact h.stored
  · rw [hC]
    exact h.pin
  · rw [hC]
    exact h.retries

/-- Contents that differ in the retry counter at most, which stays in range. -/
def Recounts (C C' : Contents) : Prop := C' = C ∨ ∃ n ≤ maxRetries, C' = C.set space retriesKey (some [n])

theorem Recounts.kept {C C' : Contents} {secret : Bytes} (h : Recounts C C') (hC : Kept C secret) : Kept C' secret := by
  obtain rfl | ⟨n, hn, rfl⟩ := h
  · exact hC
  have hne : ∀ {k : String}, k ≠ retriesKey → (C.set space retriesKey (some [n])) space k = C space k :=
    fun hk => C.set_of_ne _ fun h => hk h.2
  refine ⟨hC.length, ?_, ?_, n, C.set_self _ _ _, hn⟩
  · rw [hne (by decide)]
    exact hC.stored
  · rw [hne (by decide)]
    exact hC.pin

theorem Recounts.elsewhere {C C' : Contents} (h : Recounts C C') {name : String} (hname : name ≠ space) (key : String) :
    C' name key = C name key := by
  obtain rfl | ⟨n, hn, rfl⟩ := h
  · rfl
  · exact C.set_of_ne _ fun h => hname h.1

variable {κ : Type} [Storage κ] [Honest κ] {C : Contents} {t : SoftToken}

def Recounted (C : Contents) (s : Shelf κ) : Prop := Recounts C (Honest.contents s.store)

theorem persistRetries_leads (ht : t.retries ≤ maxRetries) :
    Leads (Shelf.Holds C) (t.persistRetries : OnShelf κ Unit) fun _ => Recounted C := by
  refine (OnShelf.write_leads _ _ _).bind fun r => ?_
  cases r with
  | ok _ => exact .pure fun s hs => Or.inr ⟨t.retries, ht, hs⟩
  | error e => exact (OnShelf.log_leads _ _ _).mono fun _ s hs => Or.inl hs

theorem unchanged {α : Type} (a : α) :
    Leads (Shelf.Holds C) (pure a : OnShelf κ α) fun _ => Recounted C :=
  .pure fun _ hs => Or.inl hs

theorem verify_leads (data : Bytes) (ht : t.retries ≤ maxRetries) :
    Leads (Shelf.Holds C) (t.verify data : OnShelf κ _) fun _ => Recounted C := by
  refine .ite (fun _ => unchanged _) fun h0 => .ite (fun _ => unchanged _) fun _ => .ite (fun _ => ?_) fun _ => ?_
  · refine .ite (fun _ => ?_) fun _ => unchanged _
    exact (persistRetries_leads (UInt8.le_refl maxRetries)).bind fun _ => .pure fun s hs => hs
  · refine (persistRetries_leads (sub_one_le_maxRetries h0 ht)).bind fun _ => ?_
    exact Leads.bind (Q := fun _ => Recounted C) (fun _ hs => hs) fun _ => .pure fun _ hs => hs

/-- A command writes the retry counter at most. -/
theorem process_leads (c : Command) (ht : t.retries ≤ maxRetries) :
    Leads (Shelf.Holds C) (process c t : OnShelf κ _) fun _ => Recounted C := by
  have executes (data : Bytes) : Leads (Shelf.Holds C) ({ t with chain := [] }.execute c data : OnShelf κ _)
      fun _ => Recounted C := by
    refine .ite (fun _ => unchanged _) fun _ => .ite (fun _ => verify_leads data ht) fun _ => ?_
    refine .ite (fun _ => unchanged _) fun _ => .ite (fun _ => unchanged _) fun _ => ?_
    exact (OnShelf.log_leads _ _ _).bind fun _ => unchanged _
  unfold process
  refine .ite (fun _ => unchanged _) fun _ => ?_
  cases joinData? t.chain c.data with
  | none => exact .ite (fun _ => unchanged _) fun _ => .ite (fun _ => unchanged _) fun _ => unchanged _
  | some data => exact .ite (fun _ => unchanged _) fun _ => .ite (fun _ => unchanged _) fun _ => executes data

theorem invalidate_leads :
    Leads (Shelf.Holds C) (invalidate t : OnShelf κ _) fun r s => s.Holds C ∧ r.retries = t.retries := by
  have ends : Leads (Shelf.Holds C) (pure { t with verified := false, chain := [] } : OnShelf κ _)
      fun r s => s.Holds C ∧ r.retries = t.retries :=
    .pure fun _ hs => ⟨hs, rfl⟩
  unfold invalidate
  split
  · exact (OnShelf.log_leads _ _ _).bind fun _ => ends
  · exact ends

/-- What no read of the token's part of a store can change. -/
structure KeptByReads {κ : Type} [Storage κ] (P : Shelf κ → Prop) : Prop where
  log (level : Level) (source : Part) (message : String) :
    Leads P (OnShelf.log level source message : OnShelf κ Unit) fun _ => P
  read (key : String) (size : Nat) : Leads P (OnShelf.read space key size : OnShelf κ _) fun _ => P

structure KeptByToken {κ : Type} [Storage κ] (P : Shelf κ → Prop) : Prop where
  log (level : Level) (source : Part) (message : String) :
    Leads P (OnShelf.log level source message : OnShelf κ Unit) fun _ => P
  read (key : String) (size : Nat) : Leads P (OnShelf.read space key size : OnShelf κ _) fun _ => P
  write (key : String) (bytes : Bytes) : Leads P (OnShelf.write space key bytes : OnShelf κ _) fun _ => P

theorem KeptByToken.reads {κ : Type} [Storage κ] {P : Shelf κ → Prop} (h : KeptByToken P) : KeptByReads P := ⟨h.log, h.read⟩

theorem keptByReads_holds : KeptByReads (Shelf.Holds (κ := κ) C) where
  log _ _ _ := fun _ h => h
  read key size := (OnShelf.read_leads space key size).mono fun _ _ h => h.1

theorem keptByToken_elsewhere : KeptByToken (Shelf.Elsewhere (κ := κ) space C) where
  log _ _ _ := fun _ h => h
  read key size := OnShelf.read_elsewhere space key size
  write key bytes := OnShelf.write_elsewhere key bytes

section kept

variable {κ : Type} [Storage κ] {P : Shelf κ → Prop} (t : SoftToken)

theorem KeptByReads.adopt (h : KeptByReads P) (secret pin : Bytes) (retries : UInt8) (message : String) :
    Leads P (t.adopt secret pin retries message : OnShelf κ _) fun _ => P :=
  .ite (fun _ => .pure fun _ hs => hs) fun _ => (h.log _ _ _).bind fun _ => .pure fun _ hs => hs

/-- A PIN that fits is taken over with all the rest. -/
theorem KeptByReads.adopt_of_fits (h : KeptByReads P) {secret pin : Bytes} (hpin : pin.length ≤ maxPin) (retries : UInt8)
    (message : String) : Leads P (t.adopt secret pin retries message : OnShelf κ _) fun r s =>
      P s ∧ r = (.ok (), { t with secret := some secret, pin, retries }) := by
  unfold SoftToken.adopt
  rw [if_neg (Nat.not_lt.2 hpin)]
  exact (h.log _ _ _).bind fun _ => .pure fun _ hs => ⟨hs, rfl⟩

theorem KeptByReads.load (h : KeptByReads P) : Leads P (load : OnShelf κ _) fun _ => P := by
  have secret : Leads P (loadSecret : OnShelf κ _) fun _ => P :=
    (h.read _ _).bind fun r => by cases r <;> exact .pure fun _ hs => hs
  have pin : Leads P (loadPin : OnShelf κ _) fun _ => P :=
    (h.read _ _).bind fun r => by cases r <;> exact .pure fun _ hs => hs
  have retries : Leads P (loadRetries : OnShelf κ _) fun _ => P :=
    (h.read _ _).bind fun r => by
      split <;> exact .pure fun _ hs => hs
  refine secret.bind fun r => ?_
  cases r with
  | error e => exact .pure fun _ hs => hs
  | ok _ =>
  refine pin.bind fun r => ?_
  cases r with
  | error e => exact .pure fun _ hs => hs
  | ok _ =>
  refine retries.bind fun r => ?_
  cases r with
  | error e => exact .pure fun _ hs => hs
  | ok _ => exact .pure fun _ hs => hs

theorem KeptByReads.restore (h : KeptByReads P) : Leads P (restore t : OnShelf κ _) fun _ => P := by
  refine h.load.bind fun r => ?_
  cases r with
  | error e => exact .pure fun _ hs => hs
  | ok _ => exact h.adopt t _ _ _ _

theorem KeptByToken.storeAll (h : KeptByToken P) (secret : Bytes) : Leads P (storeAll secret : OnShelf κ _) fun _ => P := by
  refine (h.write _ _).bind fun r => ?_
  cases r with
  | error e => exact .pure fun _ hs => hs
  | ok _ =>
  refine (h.write _ _).bind fun r => ?_
  cases r with
  | error e => exact .pure fun _ hs => hs
  | ok _ => exact h.write _ _

theorem KeptByToken.generate (h : KeptByToken P) : Leads P (generate t : OnShelf κ _) fun _ => P := by
  refine (h.storeAll _).bind fun r => ?_
  cases r with
  | error e => exact .pure fun _ hs => hs
  | ok _ => exact h.reads.adopt _ _ _ _ _

theorem KeptByToken.restore (h : KeptByToken P) : Leads P (restore t : OnShelf κ _) fun _ => P := h.reads.restore t

end kept

/-- Storing succeeds only if all three values are stored. -/
theorem storeAll_leads (secret : Bytes) :
    Leads (Shelf.Holds C) (storeAll secret : OnShelf κ _) fun r s => r = .ok () →
      Honest.contents s.store space secretKey = some secret ∧ Honest.contents s.store space pinKey = some defaultPin ∧
        Honest.contents s.store space retriesKey = some [maxRetries] := by
  refine (OnShelf.write_leads _ _ _).bind fun r => ?_
  cases r with
  | error e => exact .pure fun s hs => nofun
  | ok _ =>
  refine (OnShelf.write_leads _ _ _).bind fun r => ?_
  cases r with
  | error e => exact .pure fun s hs => nofun
  | ok _ =>
  refine (OnShelf.write_leads _ _ _).mono fun r s hs => ?_
  rintro rfl
  rw [hs]
  refine ⟨?_, ?_, Contents.set_self _ _ _ _⟩
  · rw [Contents.set_of_ne _ _ (by decide), Contents.set_of_ne _ _ (by decide), Contents.set_self]
  · rw [Contents.set_of_ne _ _ (by decide), Contents.set_self]

omit [Honest κ] in
/-- An attempt to write is noted behind all that came before. -/
theorem write_behind {ns : List Note} (name key : String) (bytes : Bytes) :
    Leads (fun s => ns <+: s.notes) (OnShelf.write name key bytes : OnShelf κ _) fun _ s => ns <+: s.notes :=
  fun _ h => h.trans (List.prefix_append _ _)

omit [Honest κ] in
/-- Storing begins with the secret, whatever comes of it. -/
theorem storeAll_notes (secret : Bytes) :
    Leads (fun s => s.notes = []) (storeAll secret : OnShelf κ _) fun _ s =>
      ∃ r, [.write space secretKey secret r] <+: s.notes := by
  have first : Leads (fun s => s.notes = []) (OnShelf.write space secretKey secret : OnShelf κ _) fun r s =>
      [.write space secretKey secret r] <+: s.notes := fun s hs => by
    change _ <+: s.notes ++ [_]
    rw [hs]
    exact List.prefix_refl _
  refine first.bind fun r => ?_
  cases r with
  | error e => exact .pure fun _ h => ⟨_, h⟩
  | ok _ =>
  refine (write_behind _ _ _).bind fun r' => ?_
  cases r' with
  | error e => exact .pure fun _ h => ⟨_, h⟩
  | ok _ => exact (write_behind _ _ _).mono fun _ _ h => ⟨_, h⟩

/-- What making secrets comes to: the one that is drawn is stored first, and all of it has been if that is the answer. -/
structure Generated (t : SoftToken) (C : Contents) (r : Except ProvisionError Unit × SoftToken) (s : Shelf κ) : Prop where
  first : ∃ res, [.write space secretKey (t.entropy.draw secretLength).1 res] <+: s.notes
  elsewhere : s.Elsewhere space C
  kept (h : r.1 = .ok ()) : Kept (Honest.contents s.store) (t.entropy.draw secretLength).1
  retries (h : t.retries ≤ maxRetries) : r.2.retries ≤ maxRetries

theorem generate_leads : Leads (fun s : Shelf κ => s.Holds C ∧ s.notes = []) (generate t) (Generated t C) := by
  intro s hs
  have helse := keptByToken_elsewhere.generate t s (fun n k _ => congrFun (congrFun hs.1 n) k)
  have hkept : Leads (fun s : Shelf κ => s.Holds C ∧ s.notes = []) (generate t) fun r s =>
      (∃ res, [.write space secretKey (t.entropy.draw secretLength).1 res] <+: s.notes) ∧
      (r.1 = .ok () → Kept (Honest.contents s.store) (t.entropy.draw secretLength).1) ∧
      (t.retries ≤ maxRetries → r.2.retries ≤ maxRetries) := by
    refine ((storeAll_leads (t.entropy.draw secretLength).1).and (storeAll_notes _)).bind fun r => ?_
    cases r with
    | error e => exact .pure fun s ⟨_, hfirst⟩ => ⟨hfirst, nofun, id⟩
    | ok _ =>
      rintro s ⟨hstored, res, hfirst⟩
      obtain ⟨hsecret, hpin, hretries⟩ := hstored rfl
      refine ⟨⟨res, hfirst.trans (List.prefix_append _ _)⟩, fun _ => ?_, fun _ => UInt8.le_refl _⟩
      exact ⟨Entropy.length_draw _ _, hsecret, ⟨_, hpin, by decide, by decide⟩, _, hretries, UInt8.le_refl _⟩
  obtain ⟨hfirst, hk, hretries⟩ := hkept s hs
  exact ⟨hfirst, helse, hk, hretries⟩

/-- A value that is there is found, unless reading it fails. -/
theorem read_found {name key : String} {size : Nat} {bytes : Bytes} (hb : C name key = some bytes) :
    Leads (Shelf.Holds C) (OnShelf.read name key size : OnShelf κ _) fun r s => Shelf.Holds C s ∧
      (r = .ok bytes ∨ (∃ e, r = .error e ∧ e ≠ .notFound) ∧ ReadFailed s.notes) := by
  refine (OnShelf.read_leads name key size).mono fun r s ⟨hs, h⟩ => ⟨hs, ?_⟩
  cases r with
  | ok bs => exact Or.inl (congrArg _ (Option.some.inj (h.symm.trans hb)))
  | error e =>
    refine Or.inr ⟨⟨e, rfl, fun he => ?_⟩, name, key, size, e, h.2⟩
    cases (h.1 he).symm.trans hb

/-- The result of a part of reloading: the right value, or an error for a read that failed. -/
def Loaded {α : Type} (C : Contents) (p : α → Prop) (r : Except ProvisionError α) (s : Shelf κ) : Prop :=
  s.Holds C ∧ ((∃ a, r = .ok a ∧ p a) ∨ (∃ e, r = .error e) ∧ ReadFailed s.notes)

variable {secret : Bytes}

theorem loadSecret_leads (h : Kept C secret) :
    Leads (Shelf.Holds C) (loadSecret : OnShelf κ _) (Loaded C (· = secret)) := by
  refine (read_found h.stored).bind fun r => ?_
  rintro s ⟨hs, rfl | ⟨⟨e, rfl, -⟩, hf⟩⟩
  · exact ⟨hs, Or.inl ⟨secret, if_pos h.length, rfl⟩⟩
  · exact ⟨hs, Or.inr ⟨⟨_, rfl⟩, hf⟩⟩

theorem loadPin_leads (h : Kept C secret) :
    Leads (Shelf.Holds C) (loadPin : OnShelf κ _) (Loaded C (C space pinKey = some ·)) := by
  obtain ⟨pin, hpin, hne, -⟩ := h.pin
  refine (read_found hpin).bind fun r => ?_
  rintro s ⟨hs, rfl | ⟨⟨e, rfl, -⟩, hf⟩⟩
  · exact ⟨hs, Or.inl ⟨pin, if_neg hne, hpin⟩⟩
  · exact ⟨hs, Or.inr ⟨⟨_, rfl⟩, hf⟩⟩

theorem loadRetries_leads (h : Kept C secret) :
    Leads (Shelf.Holds C) (loadRetries : OnShelf κ _) (Loaded C (· ≤ maxRetries)) := by
  obtain ⟨n, hn, hle⟩ := h.retries
  refine (read_found hn).bind fun r => ?_
  rintro s ⟨hs, rfl | ⟨⟨e, rfl, hne⟩, hf⟩⟩
  · refine ⟨hs, Or.inl ⟨_, rfl, ?_⟩⟩
    split
    · exact hle
    · exact UInt8.le_refl _
  · cases e with
    | notFound => exact absurd rfl hne
    | full => exact ⟨hs, Or.inr ⟨⟨_, rfl⟩, hf⟩⟩
    | ioError => exact ⟨hs, Or.inr ⟨⟨_, rfl⟩, hf⟩⟩

theorem load_leads (h : Kept C secret) :
    Leads (Shelf.Holds C) (load : OnShelf κ _) (Loaded C fun (loaded : Bytes × Bytes × UInt8) =>
      loaded.1 = secret ∧ C space pinKey = some loaded.2.1 ∧ loaded.2.2 ≤ maxRetries) := by
  refine (loadSecret_leads h).bind fun r => ?_
  rintro s ⟨hs, ⟨_, rfl, rfl⟩ | ⟨⟨e, rfl⟩, hf⟩⟩
  case inr => exact ⟨hs, Or.inr ⟨⟨_, rfl⟩, hf⟩⟩
  refine (loadPin_leads h).bind (fun r => ?_) s hs
  rintro s ⟨hs, ⟨pin, rfl, hpin⟩ | ⟨⟨e, rfl⟩, hf⟩⟩
  case inr => exact ⟨hs, Or.inr ⟨⟨_, rfl⟩, hf⟩⟩
  refine (loadRetries_leads h).bind (fun r => ?_) s hs
  rintro s ⟨hs, ⟨n, rfl, hn⟩ | ⟨⟨e, rfl⟩, hf⟩⟩
  case inr => exact ⟨hs, Or.inr ⟨⟨_, rfl⟩, hf⟩⟩
  exact ⟨hs, Or.inl ⟨_, rfl, rfl, hpin, hn⟩⟩

/-- A kept secret is reloaded, unless a read fails; and nothing is written. -/
theorem restore_leads (h : Kept C secret) (ht : t.retries ≤ maxRetries) :
    Leads (Shelf.Holds C) (restore t : OnShelf κ _) fun r s => s.Holds C ∧ r.2.retries ≤ maxRetries ∧
      (r.1 = .ok () ∧ r.2.secret = some secret ∨ ReadFailed s.notes) := by
  refine (load_leads h).bind fun r => ?_
  rintro s ⟨hs, ⟨⟨secret, pin, n⟩, rfl, rfl, hpin, hn⟩ | ⟨⟨e, rfl⟩, hf⟩⟩
  · obtain ⟨_, hstored, -, hfits⟩ := h.pin
    obtain rfl := Option.some.inj (hpin.symm.trans hstored)
    have adopts : Leads (Shelf.Holds C)
        (t.adopt secret pin n s!"TOKEN: device secret restored ({n.toNat} PIN retries)" : OnShelf κ _) fun r s =>
        s.Holds C ∧ r.2.retries ≤ maxRetries ∧ (r.1 = .ok () ∧ r.2.secret = some secret ∨ ReadFailed s.notes) :=
      (keptByReads_holds.adopt_of_fits t hfits n _).mono fun r s ⟨hs, hr⟩ => hr ▸ ⟨hs, hn, Or.inl ⟨rfl, rfl⟩⟩
    exact adopts s hs
  · exact ⟨hs, ht, Or.inr hf⟩

end SoftToken

end KeyFob
