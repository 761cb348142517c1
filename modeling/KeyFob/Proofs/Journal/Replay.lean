import KeyFob.Journal

/-!
What a journal tells of the signals. Entries account for a change of the signals if replaying the actions among them
makes that change and every look among them shows what the replay has come to. From this follows what a look proves:
a raised flag was raised by somebody, an epoch has moved once for each bump, and a link that is up was set up.
-/

namespace KeyFob

namespace Entry

def replay (s : Signals) : Entry → Signals
  | acted a => a.apply s
  | clearConfirm | takeConfirm _ => s.clear
  | _ => s

/-- A look shows the signals as they are. -/
def Agrees (s : Signals) : Entry → Prop
  | takeConfirm raised => raised = s.confirm
  | readLink index => index = s.link.current
  | readEpoch epoch => epoch = s.epoch
  | _ => True

def lowers : Entry → Bool
  | clearConfirm | takeConfirm _ => true
  | _ => false

def isBump : Entry → Bool
  | acted .bump => true
  | _ => false

def setsLink : Entry → Bool
  | acted (.linkUp _) | acted .linkDown => true
  | _ => false

def looksAtEpoch : Entry → Bool
  | readEpoch _ => true
  | _ => false

def looksAtLink : Entry → Bool
  | readLink _ => true
  | _ => false

end Entry

/-- The number of times that the epoch moved. -/
def bumps (t : List Entry) : Nat := t.countP Entry.isBump

def Accounts : Signals → List Entry → Signals → Prop
  | s, [], s' => s' = s
  | s, e :: t, s' => e.Agrees s ∧ Accounts (e.replay s) t s'

theorem accounts_append {s s' : Signals} {t u : List Entry} :
    Accounts s (t ++ u) s' ↔ ∃ m, Accounts s t m ∧ Accounts m u s' := by
  induction t generalizing s with
  | nil => simp [Accounts]
  | cons e t ih => simp only [List.cons_append, Accounts, ih, exists_and_left, and_assoc]

theorem Accounts.append {s m s' : Signals} {t u : List Entry} (h : Accounts s t m) (h' : Accounts m u s') :
    Accounts s (t ++ u) s' :=
  accounts_append.2 ⟨m, h, h'⟩

def replayed (s : Signals) (t : List Entry) : Signals := t.foldl Entry.replay s

theorem replayed_append (s : Signals) (t u : List Entry) : replayed s (t ++ u) = replayed (replayed s t) u :=
  List.foldl_append

theorem Accounts.eq_replayed {s s' : Signals} {t : List Entry} (h : Accounts s t s') : s' = replayed s t := by
  induction t generalizing s with
  | nil => exact h
  | cons e t ih => exact ih h.2

/-- The entry between two parts agrees with what the first part makes of the signals. -/
theorem Accounts.agrees {s s' : Signals} {t u : List Entry} {e : Entry} (h : Accounts s (t ++ e :: u) s') :
    ∃ m, Accounts s t m ∧ e.Agrees m ∧ Accounts (e.replay m) u s' := by
  obtain ⟨m, ht, he, hu⟩ := accounts_append.1 h
  exact ⟨m, ht, he, hu⟩

/-- A flag that is up was raised since it was last taken down, or has been up from the start. -/
theorem Accounts.raised {s s' : Signals} {t : List Entry} (h : Accounts s t s') (hup : s'.confirm = true) :
    (s.confirm = true ∧ ∀ x ∈ t, x.lowers = false) ∨
      ∃ a b : List Entry, t = a ++ .acted .raise :: b ∧ ∀ x ∈ b, x.lowers = false := by
  induction t generalizing s with
  | nil =>
    obtain rfl := h
    exact Or.inl ⟨hup, by simp⟩
  | cons e t ih =>
    rcases ih h.2 with ⟨hc, ht⟩ | ⟨a, b, rfl, hb⟩
    · cases e with
      | acted a =>
        cases a with
        | raise => exact Or.inr ⟨[], t, rfl, ht⟩
        | _ => exact Or.inl ⟨hc, by simpa [Entry.lowers] using ht⟩
      | clearConfirm => cases hc
      | takeConfirm _ => cases hc
      | _ => exact Or.inl ⟨hc, by simpa [Entry.lowers] using ht⟩
    · exact Or.inr ⟨e :: a, b, rfl, hb⟩

theorem bumps_append (t u : List Entry) : bumps (t ++ u) = bumps t + bumps u := List.countP_append

theorem bumps_eq_zero {t : List Entry} (h : bumps t = 0) : Entry.acted .bump ∉ t :=
  fun hm => List.countP_eq_zero.1 h _ hm rfl

theorem Accounts.epoch {s s' : Signals} {t : List Entry} (h : Accounts s t s') :
    s'.epoch = s.epoch + UInt32.ofNat (bumps t) := by
  induction t generalizing s with
  | nil =>
    obtain rfl := h
    simp [bumps]
  | cons e t ih =>
    rw [ih h.2]
    cases e with
    | acted a =>
      cases a with
      | bump =>
        rw [show bumps (.acted .bump :: t) = 1 + bumps t by simp [bumps, List.countP_cons, Entry.isBump, Nat.add_comm],
          UInt32.ofNat_add, ← UInt32.add_assoc]
        rfl
      | _ => simp [bumps, Entry.isBump, Entry.replay, Action.apply, Signals.raise, Signals.linkUp, Signals.linkDown,
          Signals.pressReset, Signals.request]
    | _ => simp [bumps, Entry.isBump, Entry.replay, Signals.clear]

theorem foldl_bump (n : Nat) (s : Signals) :
    (List.replicate n Action.bump).foldl Action.apply s = { s with epoch := s.epoch + UInt32.ofNat n } := by
  induction n generalizing s with
  | zero => simp
  | succ n ih =>
    rw [List.replicate_succ, List.foldl_cons, ih]
    simp [Action.apply, Signals.bump, UInt32.ofNat_add, UInt32.add_assoc, UInt32.add_comm]

/-- The epoch comes back to where it was only after a multiple of 2^32 bumps. -/
theorem Accounts.bumps_eq_zero_of_epoch {s s' : Signals} {t : List Entry} (h : Accounts s t s')
    (hlt : bumps t < UInt32.size) (he : s'.epoch = s.epoch) : bumps t = 0 := by
  have h0 : UInt32.ofNat (bumps t) = 0 := by
    have := h.epoch
    rw [he] at this
    simpa using this.symm
  have := congrArg UInt32.toNat h0
  rwa [UInt32.toNat_ofNat_of_lt' (by simpa using hlt)] at this

/-- A link that is up on a candidate was set up on it by the last write of the link word, or has been up from the
start. -/
theorem Accounts.linkUp {s s' : Signals} {t : List Entry} {i : Nat} (h : Accounts s t s')
    (hup : s'.link.current = some i) :
    (s.link.current = some i ∧ ∀ x ∈ t, x.setsLink = false) ∨
      ∃ (a b : List Entry) (j : Nat), t = a ++ .acted (.linkUp j) :: b ∧ (∀ x ∈ b, x.setsLink = false) ∧
        (Link.setUp {} j).current = some i := by
  induction t generalizing s with
  | nil =>
    obtain rfl := h
    exact Or.inl ⟨hup, by simp⟩
  | cons e t ih =>
    rcases ih h.2 with ⟨hc, ht⟩ | ⟨a, b, j, rfl, hb, hj⟩
    · cases e with
      | acted a =>
        cases a with
        | linkUp j => exact Or.inr ⟨[], t, j, rfl, ht, hc⟩
        | linkDown => cases hc
        | _ => exact Or.inl ⟨hc, by simpa [Entry.setsLink] using ht⟩
      | _ => exact Or.inl ⟨hc, by simpa [Entry.setsLink] using ht⟩
    · exact Or.inr ⟨e :: a, b, j, rfl, hb, hj⟩

end KeyFob
