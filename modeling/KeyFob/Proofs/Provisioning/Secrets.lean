import KeyFob.Bench.Turns
import KeyFob.Proofs.Provisioning.Boot
import KeyFob.Proofs.Token.Storing
import KeyFob.Provisioning.ResetMonitor

/-!
The mark is a promise: while it is in the store, the secrets of the last initialization are too, and a boot brings them
back. The mark is set behind them, all that comes between two initializations leaves them alone, and taking the mark
away breaks no promise. A boot that is cut short leaves what one leaves whose accesses fail from there on.
-/

namespace KeyFob

namespace Provisioning

open Card (Command)
open SoftToken (Kept maxRetries)

/-- The last initialization of a journal made this secret: storing it is what it set out with. -/
def LastMade (J : List Entry) (secret : Bytes) : Prop :=
  ∃ (u w : List Entry) (r : Except StorageError Unit), .generate ∉ w ∧
    J = u ++ .generate :: .note (.write SoftToken.space SoftToken.secretKey secret r) :: w

theorem LastMade.append {J w : List Entry} {secret : Bytes} (h : LastMade J secret) (hw : .generate ∉ w) :
    LastMade (J ++ w) secret := by
  obtain ⟨u, w', r, hw', rfl⟩ := h
  refine ⟨u, w' ++ w, r, ?_, by simp⟩
  rw [List.mem_append]
  rintro (h | h)
  · exact hw' h
  · exact hw h

theorem lastMade_of_first {u : List Entry} {secret : Bytes} {r : Except StorageError Unit} {ns : List Note}
    (h : [.write SoftToken.space SoftToken.secretKey secret r] <+: ns) :
    LastMade (u ++ .generate :: vaultTrail (ns.map .note)) secret := by
  obtain ⟨w, rfl⟩ := h
  exact ⟨u, vaultTrail (w.map .note), r, generate_not_mem w, rfl⟩

variable {κ : Type} [Storage κ] [Honest κ]

/-- The promise of the mark, and a counter that can be stored as it stands. -/
structure Promised (v : Vault κ SoftToken) : Prop where
  retries : v.token.retries ≤ maxRetries
  kept (h : Marked (Honest.contents v.store)) :
    ∃ secret, LastMade v.trail secret ∧ Kept (Honest.contents v.store) secret

namespace Promised

variable {v v' : Vault κ SoftToken}

/-- What does not initialize keeps the promise if it leaves the secrets alone. -/
theorem carry (h : Promised v) {w : List Entry} (htrail : v'.trail = v.trail ++ w) (hw : .generate ∉ w)
    (hretries : v'.token.retries ≤ maxRetries)
    (hmarked : Marked (Honest.contents v'.store) → Marked (Honest.contents v.store))
    (hkept : ∀ secret, Kept (Honest.contents v.store) secret → Kept (Honest.contents v'.store) secret) : Promised v' := by
  refine ⟨hretries, fun hm => ?_⟩
  obtain ⟨secret, hmade, hk⟩ := h.kept (hmarked hm)
  exact ⟨secret, htrail ▸ hmade.append hw, hkept secret hk⟩

theorem spared (h : Promised v) {w : List Entry} (htrail : v'.trail = v.trail ++ w) (hw : .generate ∉ w)
    (hretries : v'.token.retries ≤ maxRetries) (hs : Spares (Honest.contents v.store) (Honest.contents v'.store)) :
    Promised v' :=
  h.carry htrail hw hretries hs.marked fun _ hk => hk.of_eq hs.secrets

end Promised

variable {ε : Type}

/-- An activity on the store that spares the secrets keeps the promise. -/
theorem onShelf_promised {α : Type} {f : OnShelf κ α} (hf : ∀ C, Leads (Shelf.Holds C) f fun _ => Spared C) :
    Brings Promised (Run.onShelf f : Run ε κ SoftToken α) fun _ => Promised :=
  .onShelf fun v h => h.spared rfl (generate_not_mem _) h.retries (hf _ ⟨v.store, []⟩ rfl)

theorem erase_promised : Brings Promised (Run.onShelf erase : Run ε κ SoftToken _) fun _ => Promised :=
  onShelf_promised fun _ => erase_leads.mono fun _ _ h => h.1

theorem record_promised (log : RestartLog) (r : RestartRecord) :
    Brings Promised (Run.onShelf (log.record r) : Run ε κ SoftToken _) fun _ => Promised := by
  refine onShelf_promised fun C s hs => ?_
  have h := log.record_elsewhere r s (C := C) fun n k _ => congrFun (congrFun hs n) k
  refine ⟨fun hm => ?_, fun key => h _ key (by decide)⟩
  rwa [Marked, h _ _ (by decide)] at hm

/-- Behind an initialization there is no mark, and if it succeeded the secret it made is stored. -/
theorem generate_brings : Brings (fun v => Promised v ∧ ¬ Marked (Honest.contents v.store))
    (Run.generate : Run ε κ SoftToken _) fun r v => v.token.retries ≤ maxRetries ∧
      ¬ Marked (Honest.contents v.store) ∧
      (r = .ok () → ∃ secret, LastMade v.trail secret ∧ Kept (Honest.contents v.store) secret) := by
  refine .call rfl fun v ⟨h, hm⟩ => ?_
  have hg := SoftToken.generate_leads (t := v.token) (C := Honest.contents v.store) ⟨v.store, []⟩ ⟨rfl, rfl⟩
  refine ⟨hg.retries h.retries, ?_, fun hr => ⟨_, ?_, hg.kept hr⟩⟩
  · exact fun hmark => hm (fun hnone => hmark ((hg.elsewhere space key (by decide)).trans hnone))
  · obtain ⟨res, hfirst⟩ := hg.first
    exact lastMade_of_first hfirst

/-- The mark is set behind secrets that are stored, or not at all. -/
theorem generateAndMark_promised : Brings (fun v => Promised v ∧ ¬ Marked (Honest.contents v.store))
    (Lifecycle.generateAndMark : Run ε κ SoftToken _) fun _ => Promised := by
  refine Lifecycle.generateAndMark_brings generate_brings ?_ ?_
  · exact fun e v ⟨hretries, hm, _⟩ => ⟨hretries, fun h => absurd h hm⟩
  · refine .onShelf fun v ⟨hretries, _, hmade⟩ => ?_
    obtain ⟨secret, hlast, hk⟩ := hmade rfl
    refine ⟨hretries, fun _ => ⟨secret, hlast.append (generate_not_mem _), hk.of_eq ?_⟩⟩
    exact mark_leads ⟨v.store, []⟩ rfl

/-- Reloading leaves the store as it is, and fails only for a read that did. -/
theorem restore_brings {v₀ : Vault κ SoftToken} {secret : Bytes} (h : Promised v₀)
    (hk : Kept (Honest.contents v₀.store) secret) :
    Brings (· = v₀) (Run.restore : Run ε κ SoftToken _) fun r v => Promised v ∧
      (Stumbled v₀.trail v ∨ r = .ok () ∧ v.token.secret = some secret) := by
  refine .call rfl ?_
  rintro v₀ rfl
  obtain ⟨hC, hretries, hr⟩ := SoftToken.restore_leads hk h.retries ⟨v₀.store, []⟩ rfl
  refine ⟨h.spared rfl (generate_not_mem_cons (by simp) _) hretries (hC ▸ Spares.refl _), ?_⟩
  rcases hr with hr | hf
  · exact Or.inr hr
  · exact Or.inl (stumbled_of_notes [.restore] rfl hf)

/-- Whatever is erased behind a restore that failed, the failure was that of a read. -/
theorem restoreOrErase_promised {v₀ : Vault κ SoftToken} {secret : Bytes} (reinit : Bool) (h : Promised v₀)
    (hk : Kept (Honest.contents v₀.store) secret) :
    Brings (· = v₀) (Lifecycle.restoreOrErase reinit : Run ε κ SoftToken _) fun r v => Promised v ∧
      (Stumbled v₀.trail v ∨ r = .ok () ∧ v.token.secret = some secret) := by
  refine Lifecycle.restoreOrErase_brings reinit (restore_brings h hk) (fun _ h => h) (fun _ _ _ h => h) fun _ e => ?_
  refine .onShelf fun v ⟨hp, hs⟩ => ⟨?_, Or.inl ?_⟩
  · exact hp.spared rfl (generate_not_mem _) hp.retries (erase_leads ⟨v.store, []⟩ rfl).1
  · exact (hs.resolve_right fun h => nomatch h.1).later rfl

variable [Surroundings ε]

/-- A boot. All but the store starts afresh. -/
def boot (entropy : Entropy) (reinit : Bool) : Run ε κ SoftToken (Except ProvisionError Unit × Lifecycle) := do
  modify fun d => { d with token := { entropy }, signals := {}, queue := {} }
  Lifecycle.run { reinit }

/-- Where the mark is, what is kept is reloaded and the boot gets ready through restoring, unless a read fails. -/
def Restored (v₀ : Vault κ SoftToken) (reinit : Bool) (r : Except ProvisionError Unit × Lifecycle)
    (v : Vault κ SoftToken) : Prop :=
  ∀ secret, Marked (Honest.contents v₀.store) → Kept (Honest.contents v₀.store) secret →
    Stumbled v₀.trail v ∨
      r = (.ok (), { reinit, stage := .ready, trail := [.start, .restoring, .ready] }) ∧ v.token.secret = some secret

theorem run_promised {v₀ : Vault κ SoftToken} (reinit : Bool) (h : Promised v₀) :
    Brings (· = v₀) (Lifecycle.run { reinit } : Run ε κ SoftToken _) fun r v => Promised v ∧ Restored v₀ reinit r v := by
  have untouched {v : Vault κ SoftToken} (hC : Honest.contents v.store = Honest.contents v₀.store)
      (ht : v.token = v₀.token) (hw : ∃ w, .generate ∉ w ∧ v.trail = v₀.trail ++ w) : Promised v := by
    obtain ⟨w, hw, htrail⟩ := hw
    exact h.spared htrail hw (ht ▸ h.retries) (hC ▸ Spares.refl _)
  refine Lifecycle.run_brings (Lifecycle.decide_brings (isProvisioned_brings v₀) ?_ ?_ ?_)
  · exact fun e v ⟨hC, ht, hw, hs⟩ => ⟨untouched hC ht hw, fun _ _ _ => Or.inl hs⟩
  · rintro d ⟨hC, ht, hw, hm⟩
    exact ⟨generateAndMark_promised d ⟨untouched hC ht hw, hC ▸ hm⟩, fun _ hm' => absurd hm' hm⟩
  · rintro d ⟨hC, ht, hw, hm⟩
    have hp := untouched hC ht hw
    obtain ⟨secret, -, hk⟩ := hp.kept (hC ▸ hm)
    obtain ⟨hv, hr⟩ := restoreOrErase_promised reinit hp hk d rfl
    refine ⟨hv, fun secret' _ hk' => ?_⟩
    obtain rfl : secret' = secret := Option.some.inj (hk'.stored.symm.trans (hC ▸ hk.stored))
    obtain ⟨w, -, hw⟩ := hw
    rcases hr with hs | ⟨hok, hsecret⟩
    · exact Or.inl (hw ▸ hs).earlier
    · exact Or.inr ⟨by rw [hok]; rfl, hsecret⟩

/-- A boot keeps the promise, and where it finds the mark it makes good on it. -/
theorem boot_promised {v₀ : Vault κ SoftToken} (entropy : Entropy) (reinit : Bool) (h : Promised v₀) :
    Brings (· = v₀) (boot entropy reinit : Run ε κ SoftToken _) fun r v => Promised v ∧ Restored v₀ reinit r v := by
  have h' : Promised { v₀ with token := { entropy } } := ⟨UInt8.le_refl _, h.kept⟩
  refine Brings.bind (Q := fun _ v => v = { v₀ with token := { entropy } }) (fun d hd => ?_) fun _ =>
    run_promised reinit h'
  rw [← hd]
  rfl

/-- What can be done to a fob over its life. -/
inductive Deed
  | boot (entropy : Entropy) (reinit : Bool)
  | command (c : Command)
  | invalidate
  | poll
  | record (log : RestartLog) (r : RestartRecord)

def Deed.perform : Deed → Run ε κ SoftToken Unit
  | boot entropy reinit => do let _ ← Provisioning.boot entropy reinit
  | command c => do let _ ← Run.process c .empty
  | invalidate => Run.invalidate
  | poll => do let _ ← ResetMonitor.poll
  | record log r => do let _ ← Run.onShelf (log.record r)

def performAll : List Deed → Run ε κ SoftToken Unit
  | [] => pure ()
  | deed :: rest => do
    deed.perform
    performAll rest

theorem command_promised (c : Command) (buffer : Card.Response) :
    Brings Promised (Run.process c buffer : Run ε κ SoftToken _) fun _ => Promised := by
  refine .of_keeps (Run.process_keeps c buffer fun store t trail h => ?_)
  have hresult : (SoftToken.process c t .empty (⟨store, []⟩ : Shelf κ)).1 = SoftToken.react c t :=
    SoftToken.process_fst c t _
  have hretries := (SoftToken.reacts c t).retries h.retries
  rw [← hresult] at hretries
  have hs := SoftToken.process_leads c h.retries (⟨store, []⟩ : Shelf κ) rfl
  refine h.carry rfl ?_ hretries (fun hm => ?_) fun secret hk => hs.kept hk
  · rw [← List.cons_append, List.mem_append, List.mem_singleton]
    rintro (hg | hg)
    · exact generate_not_mem_cons (by simp) _ hg
    · cases hg
  · have hmark := hs.elsewhere (show space ≠ SoftToken.space by decide) key
    intro hnone
    exact hm (hmark.trans hnone)

theorem invalidate_promised : Brings Promised (Run.invalidate : Run ε κ SoftToken Unit) fun _ => Promised := by
  refine .of_keeps (Run.invalidate_keeps fun store t trail h => ?_)
  obtain ⟨hstore, hretries⟩ := SoftToken.invalidate_leads (t := t) (⟨store, []⟩ : Shelf κ) rfl
  exact h.spared rfl (generate_not_mem_cons (by simp) _) (le_of_eq_of_le hretries h.retries) (hstore ▸ Spares.refl _)

theorem poll_promised : Brings Promised (ResetMonitor.poll : Run ε κ SoftToken Bool) fun _ => Promised := by
  refine .after Run.signals_bystands fun signals => ?_
  split
  · exact .pure fun _ h => h
  refine .after (Run.emit_bystands _) fun _ => erase_promised.bind fun r => ?_
  cases r with
  | ok _ => exact .after (Run.log_bystands _ _ _) fun _ => .after (Run.act_bystands _) fun _ => .pure fun _ h => h
  | error e => exact .after (Run.log_bystands _ _ _) fun _ => .pure fun _ h => h

theorem Deed.promised (deed : Deed) : Brings Promised (deed.perform : Run ε κ SoftToken Unit) fun _ => Promised := by
  cases deed with
  | boot entropy reinit =>
    intro d h
    exact (boot_promised entropy reinit h d rfl).1
  | command c => exact (command_promised c _).bind fun _ => .pure fun _ h => h
  | invalidate => exact invalidate_promised
  | poll => exact poll_promised.bind fun _ => .pure fun _ h => h
  | record log r => exact (record_promised log r).bind fun _ => .pure fun _ h => h

theorem performAll_promised (deeds : List Deed) :
    Brings Promised (performAll deeds : Run ε κ SoftToken Unit) fun _ => Promised := by
  induction deeds with
  | nil => exact .pure fun _ h => h
  | cons deed deeds ih => exact deed.promised.bind fun _ => ih

/-- Whatever is done to a fob that started with an empty store, and whichever accesses to the store fail: while the mark
is there, the secret of the last initialization is stored, with a PIN and a counter in range, and any boot whose reads
succeed brings just that secret back and gets ready through restoring. -/
theorem marked_store_keeps_the_last_secret (deeds : List Deed) (d : Device ε κ SoftToken)
    (hempty : ∀ name key, Honest.contents d.store name key = none) (htoken : d.token.retries ≤ maxRetries)
    (hm : Marked (Honest.contents (performAll deeds d).2.store)) :
    ∃ secret, LastMade (performAll deeds d).2.vault.trail secret ∧
      Kept (Honest.contents (performAll deeds d).2.store) secret ∧
      ∀ entropy reinit, let booted := boot entropy reinit (performAll deeds d).2
        (∀ e ∈ booted.2.vault.trail.drop (performAll deeds d).2.vault.trail.length, e.failedRead = false) →
          booted.1 = (.ok (), { reinit, stage := .ready, trail := [.start, .restoring, .ready] }) ∧
            booted.2.token.secret = some secret := by
  have h : Promised (performAll deeds d).2.vault :=
    performAll_promised deeds d ⟨htoken, fun hm => absurd (hempty space key) hm⟩
  obtain ⟨secret, hlast, hk⟩ := h.kept hm
  refine ⟨secret, hlast, hk, fun entropy reinit => ?_⟩
  intro booted hreads
  obtain ⟨-, hr⟩ := boot_promised entropy reinit h (performAll deeds d).2 rfl
  rcases hr secret hm hk with ⟨w, hw, e, he, hfailed⟩ | hr
  · rw [hw, List.drop_left] at hreads
    exact absurd (hreads e he) (by simp [hfailed])
  · exact hr

/-- A fob whose first attempt to mark it fails, as does the first to store its counter. -/
def fragile : Device Bench.Turns UnreliableStore SoftToken where
  outside := { left := [[], [.reset]] }
  store := { outages := [none, none, none, none, some .full, none, none, none, none, none, some .ioError] }
  token := { entropy := ⟨fun _ => 0, 0⟩ }

/-- Two boots until it is marked, a wrong PIN, a restart on record, a press of the reset button, a third boot and a
wrong PIN again. -/
def turbulent : List Deed :=
  let mistake : Command := ⟨0, Card.Ins.verify, 0, 0, [9], 0⟩
  [.boot ⟨fun _ => 1, 0⟩ true, .boot ⟨fun _ => 2, 0⟩ false, .command mistake, .record {} ⟨5, .taskPanic⟩, .poll,
    .boot ⟨fun _ => 3, 0⟩ true, .command mistake]

theorem third_secret_is_brought_back :
    Marked (Honest.contents (performAll turbulent fragile).2.store) ∧
      ∃ secret, LastMade (performAll turbulent fragile).2.vault.trail secret ∧
        Kept (Honest.contents (performAll turbulent fragile).2.store) secret ∧
        (boot ⟨fun _ => 4, 0⟩ true (performAll turbulent fragile).2).1 =
          (.ok (), { reinit := true, stage := .ready, trail := [.start, .restoring, .ready] }) ∧
        (boot ⟨fun _ => 4, 0⟩ true (performAll turbulent fragile).2).2.token.secret = some secret := by
  have hm : Marked (Honest.contents (performAll turbulent fragile).2.store) := by
    unfold Marked
    decide +kernel
  have hreads : ∀ e ∈ (boot ⟨fun _ => 4, 0⟩ true (performAll turbulent fragile).2).2.vault.trail.drop
      (performAll turbulent fragile).2.vault.trail.length, e.failedRead = false := by
    decide +kernel
  obtain ⟨secret, hlast, hk, hboot⟩ :=
    marked_store_keeps_the_last_secret turbulent fragile (fun _ _ => rfl) (by decide) hm
  exact ⟨hm, secret, hlast, hk, hboot ⟨fun _ => 4, 0⟩ true hreads⟩

end Provisioning

end KeyFob
