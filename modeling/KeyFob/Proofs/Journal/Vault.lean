import KeyFob.Device

/-!
What an activity does to the store and to the token, and to the part of the journal that tells of them. Most activities
have no part in either: they stand by. An activity keeps to a preorder if each of its steps does, so that what the
calls of the token and the accesses to the store keep to is kept to by all that is put together from them.
-/

namespace KeyFob

def Entry.ofVault : Entry → Bool
  | note (.log _) => false
  | note (.read ..) | note (.write ..) | note (.delete ..) => true
  | process _ | answered _ | invalidate | generate | restore => true
  | _ => false

/-- The part of a device that its surroundings do not reach. -/
structure Vault (κ τ : Type) where
  store : κ
  token : τ
  /-- What the journal tells of the two. -/
  trail : List Entry

def vaultTrail (t : List Entry) : List Entry := t.filter Entry.ofVault

theorem vaultTrail_append (t u : List Entry) : vaultTrail (t ++ u) = vaultTrail t ++ vaultTrail u := List.filter_append t u

variable {ε κ τ α β : Type}

def Device.vault (d : Device ε κ τ) : Vault κ τ := ⟨d.store, d.token, vaultTrail d.journal.toList⟩

structure Vault.IsPreorder (R : Vault κ τ → Vault κ τ → Prop) : Prop where
  refl (x : Vault κ τ) : R x x
  trans {x y z : Vault κ τ} (h : R x y) (h' : R y z) : R x z

/-- Whatever the activity does, it leads from one vault to another that stands in relation to it. -/
def Keeps (R : Vault κ τ → Vault κ τ → Prop) (m : Run ε κ τ α) : Prop := ∀ d, R d.vault (m d).2.vault

/-- The activity has no part in the store or in the token. -/
def Bystands (m : Run ε κ τ α) : Prop := ∀ d, (m d).2.vault = d.vault

namespace Keeps

variable {R : Vault κ τ → Vault κ τ → Prop} {m : Run ε κ τ α} {f : α → Run ε κ τ β}

theorem bind (hR : Vault.IsPreorder R) (hm : Keeps R m) (hf : ∀ a, Keeps R (f a)) : Keeps R (m >>= f) :=
  fun d => hR.trans (hm d) (hf (m d).1 (m d).2)

theorem of_bystands (hR : Vault.IsPreorder R) (hm : Bystands m) : Keeps R m := fun d => by
  rw [hm d]
  exact hR.refl _

theorem pure (hR : Vault.IsPreorder R) (a : α) : Keeps R (Pure.pure a : Run ε κ τ α) := fun d => hR.refl d.vault

/-- A first step that stands by. -/
theorem after (hm : Bystands m) (hf : ∀ a, Keeps R (f a)) : Keeps R (m >>= f) := fun d => by
  have h : R (m d).2.vault ((m >>= f) d).2.vault := hf (m d).1 (m d).2
  rwa [hm d] at h

end Keeps

namespace Bystands

variable {m : Run ε κ τ α} {f : α → Run ε κ τ β}

theorem bind (hm : Bystands m) (hf : ∀ a, Bystands (f a)) : Bystands (m >>= f) :=
  fun d => (hf (m d).1 (m d).2).trans (hm d)

theorem pure (a : α) : Bystands (Pure.pure a : Run ε κ τ α) := fun _ => rfl

end Bystands

namespace Run

theorem get_bystands : Bystands (get : Run ε κ τ (Device ε κ τ)) := fun _ => rfl

theorem vault_add (d : Device ε κ τ) (e : Entry) (he : e.ofVault = false) :
    ({ d with journal := d.journal.add e } : Device ε κ τ).vault = d.vault := by
  simp [Device.vault, vaultTrail, he]

theorem vault_addNotes (d : Device ε κ τ) (store : κ) (token : τ) (ns : List Note) :
    ({ d with store, token, journal := d.journal.addNotes ns } : Device ε κ τ).vault =
      ⟨store, token, d.vault.trail ++ vaultTrail (ns.map .note)⟩ := by
  simp [Device.vault, vaultTrail_append]

/-- What an activity on the store makes of the vault. -/
theorem onShelf_vault (f : OnShelf κ α) (d : Device ε κ τ) :
    (onShelf f d).2.vault =
      ⟨(f ⟨d.store, []⟩).2.store, d.token, d.vault.trail ++ vaultTrail ((f ⟨d.store, []⟩).2.notes.map .note)⟩ :=
  vault_addNotes d _ d.token _

/-- What an activity of the token makes of it. -/
theorem withToken_vault (f : τ → OnShelf κ (α × τ)) (d : Device ε κ τ) :
    (withToken f d).2.vault =
      ⟨(f d.token ⟨d.store, []⟩).2.store, (f d.token ⟨d.store, []⟩).1.2,
        d.vault.trail ++ vaultTrail ((f d.token ⟨d.store, []⟩).2.notes.map .note)⟩ :=
  vault_addNotes d _ _ _

/-- What an entry of the vault adds to it. -/
theorem add_vault (d : Device ε κ τ) (e : Entry) (he : e.ofVault = true) :
    (add e d).2.vault = { d.vault with trail := d.vault.trail ++ [e] } := by
  change Vault.mk d.store d.token (vaultTrail (d.journal.add e).toList) = _
  simp [Device.vault, vaultTrail, he]

theorem add_bystands {e : Entry} (he : e.ofVault = false) : Bystands (add e : Run ε κ τ Unit) := fun d => vault_add d e he

theorem log_bystands (level : Level) (source : Part) (message : String) :
    Bystands (log level source message : Run ε κ τ Unit) :=
  add_bystands rfl

theorem logLines_bystands (ls : List Line) : Bystands (logLines ls : Run ε κ τ Unit) := fun d => by
  have hlogs : vaultTrail ((ls.map Note.log).map .note) = [] := by
    refine List.filter_eq_nil_iff.2 fun x hx => ?_
    obtain ⟨n, hn, rfl⟩ := List.mem_map.1 hx
    obtain ⟨l, -, rfl⟩ := List.mem_map.1 hn
    simp [Entry.ofVault]
  change Vault.mk d.store d.token (vaultTrail (d.journal.addNotes (ls.map .log)).toList) = d.vault
  rw [Journal.toList_addNotes, vaultTrail_append, hlogs, List.append_nil]
  rfl

theorem setSignals_bystands (f : Signals → Signals) : Bystands (setSignals f : Run ε κ τ Unit) := fun _ => rfl

theorem act_bystands (a : Action) : Bystands (act a : Run ε κ τ Unit) :=
  (add_bystands rfl).bind fun _ => setSignals_bystands _

theorem actAll_bystands (as : List Action) : Bystands (actAll as : Run ε κ τ Unit) := by
  induction as with
  | nil => exact .pure ()
  | cons a as ih => exact (act_bystands a).bind fun _ => ih

theorem led_bystands (l : Led) (on : Bool) : Bystands (led l on : Run ε κ τ Unit) := add_bystands rfl

theorem close_bystands : Bystands (close : Run ε κ τ Unit) := add_bystands rfl

theorem write_bystands (x : Exchange) (bytes : Bytes) : Bystands (write x bytes : Run ε κ τ _) :=
  (add_bystands rfl).bind fun _ => .pure _

section outside

variable [Surroundings ε]

theorem uptime_bystands : Bystands (uptime : Run ε κ τ Nat) := fun _ => rfl

theorem elapse_bystands (ms : Nat) : Bystands (elapse ms : Run ε κ τ Unit) := fun d =>
  actAll_bystands (Surroundings.elapse ms d.outside).1 { d with outside := (Surroundings.elapse ms d.outside).2 }

theorem delay_bystands (ms : Nat) : Bystands (delay ms : Run ε κ τ Unit) :=
  (add_bystands rfl).bind fun _ => elapse_bystands ms

theorem meanwhile_bystands : Bystands (meanwhile : Run ε κ τ Unit) := fun d =>
  actAll_bystands (Surroundings.meanwhile d.outside).1 { d with outside := (Surroundings.meanwhile d.outside).2 }

theorem emit_bystands (e : Event) : Bystands (emit e : Run ε κ τ Unit) :=
  (add_bystands rfl).bind fun _ d =>
    actAll_bystands (Surroundings.told e d.outside).1 { d with outside := (Surroundings.told e d.outside).2 }

theorem signals_bystands : Bystands (signals : Run ε κ τ Signals) :=
  meanwhile_bystands.bind fun _ => get_bystands.bind fun _ => .pure _

theorem halting_bystands : Bystands (halting : Run ε κ τ Bool) := signals_bystands.bind fun _ => .pure _

theorem readLink_bystands : Bystands (readLink : Run ε κ τ (Option Nat)) :=
  signals_bystands.bind fun _ => (add_bystands rfl).bind fun _ => .pure _

theorem readEpoch_bystands : Bystands (readEpoch : Run ε κ τ UInt32) :=
  signals_bystands.bind fun _ => (add_bystands rfl).bind fun _ => .pure _

theorem takeConfirm_bystands : Bystands (takeConfirm : Run ε κ τ Bool) :=
  signals_bystands.bind fun _ => (setSignals_bystands _).bind fun _ => (add_bystands rfl).bind fun _ => .pure _

theorem clearConfirm_bystands : Bystands (clearConfirm : Run ε κ τ Unit) :=
  meanwhile_bystands.bind fun _ => (setSignals_bystands _).bind fun _ => add_bystands rfl

theorem receive_bystands (size : Nat) (x : Exchange) : Bystands (receive size x : Run ε κ τ _) :=
  (elapse_bystands _).bind fun _ => (add_bystands rfl).bind fun _ => .pure _

theorem unmount_bystands : Bystands (unmount : Run ε κ τ (Except VolumeError Unit)) := by
  refine get_bystands.bind fun d => ?_
  split
  · refine (add_bystands rfl).bind fun _ d => ?_
    let released := Surroundings.unmount d.outside
    exact (logLines_bystands released.2.1).bind (fun _ => .pure released.1) { d with outside := released.2.2 }
  · exact .pure _

end outside

section token

/-- The notes that an activity of the token leaves, as the vault has them. -/
def called (f : τ → OnShelf κ (α × τ)) (v : Vault κ τ) : List Entry :=
  vaultTrail ((f v.token ⟨v.store, []⟩).2.notes.map .note)

/-- What a call of the token, announced by its entry, makes of the vault. -/
theorem call_vault {e : Entry} (he : e.ofVault = true) (f : τ → OnShelf κ (α × τ)) (d : Device ε κ τ) :
    ((do add e; withToken f : Run ε κ τ α) d).2.vault =
      ⟨(f d.token ⟨d.store, []⟩).2.store, (f d.token ⟨d.store, []⟩).1.2, d.vault.trail ++ e :: called f d.vault⟩ := by
  change (withToken f (add e d).2).2.vault = _
  rw [withToken_vault, add_vault d e he]
  simp only [List.append_assoc, List.singleton_append]
  rfl

variable [Surroundings ε]

/-- Time may pass before the answer is noted. -/
theorem answered_vault (answer : Answer) (d : Device ε κ τ) :
    ((do
      match answer.takesMs with
      | some ms => elapse ms
      | none => pure ()
      add (.answered answer.response)
      return answer.response : Run ε κ τ Card.Response) d).2.vault =
      { d.vault with trail := d.vault.trail ++ [.answered answer.response] } := by
  cases answer.takesMs with
  | none => exact add_vault d _ rfl
  | some ms =>
    rw [← elapse_bystands ms d]
    exact add_vault (elapse ms d).2 _ rfl

variable [Token κ τ] {R : Vault κ τ → Vault κ τ → Prop}

/-- To keep to a relation, an invalidation need only keep to it where the token is called. -/
theorem invalidate_keeps (h : ∀ (store : κ) (token : τ) (trail : List Entry),
    let r := Token.invalidate token (⟨store, []⟩ : Shelf κ)
    R ⟨store, token, trail⟩ ⟨r.2.store, r.1, trail ++ .invalidate :: vaultTrail (r.2.notes.map .note)⟩) :
    Keeps R (invalidate : Run ε κ τ Unit) := by
  refine .after meanwhile_bystands fun _ d => ?_
  rw [call_vault rfl]
  exact h d.store d.token d.vault.trail

/-- To keep to a relation, processing a command need only keep to it where the token is called. -/
theorem process_keeps (c : Card.Command) (buffer : Card.Response)
    (h : ∀ (store : κ) (token : τ) (trail : List Entry),
      let r := Token.process c buffer token (⟨store, []⟩ : Shelf κ)
      R ⟨store, token, trail⟩ ⟨r.2.store, r.1.2,
        trail ++ .process c :: (vaultTrail (r.2.notes.map .note) ++ [.answered r.1.1.response])⟩) :
    Keeps R (process c buffer : Run ε κ τ Card.Response) := by
  refine .after meanwhile_bystands fun _ d => ?_
  let r := (do add (.process c); withToken (Token.process c buffer) : Run ε κ τ Answer) d
  have hr : r.2.vault = _ := call_vault rfl (Token.process c buffer) d
  have hanswered := answered_vault r.1 r.2
  rw [hr] at hanswered
  change R d.vault ((do
    match r.1.takesMs with
    | some ms => elapse ms
    | none => pure ()
    add (.answered r.1.response)
    return r.1.response : Run ε κ τ Card.Response) r.2).2.vault
  rw [hanswered, List.append_assoc]
  exact h d.store d.token d.vault.trail

end token

end Run

end KeyFob
