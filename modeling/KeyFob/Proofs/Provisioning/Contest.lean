import KeyFob.Bench.Turns
import KeyFob.Proofs.Provisioning.Boot
import KeyFob.Proofs.Token.Storing
import KeyFob.Tasks

/-!
A boot while the reset monitor and the coordinator are at work. The three share the store without a lock: before each
access of the boot the others may take any number of turns, and the restart that the monitor asks for may come at any of
them. A boot does not ask whether a restart is pending. So what it leaves for the next one hangs on which comes last,
its own mark or the monitor's erasing.
-/

namespace KeyFob

namespace Tasks

variable {ε κ τ : Type} [Surroundings ε]

theorem countdown_bystands (n : Nat) : Bystands (countdown n : Run ε κ τ Unit) := by
  induction n with
  | zero => exact .pure ()
  | succ n ih => exact (Run.log_bystands _ _ _).bind fun _ => (Run.delay_bystands _).bind fun _ => ih

theorem prepare_bystands (reason : Restart.Reason) (secs : UInt32) : Bystands (prepare reason secs : Run ε κ τ Unit) := by
  unfold prepare
  split
  · refine (Run.log_bystands _ _ _).bind fun _ => (countdown_bystands _).bind fun _ => Run.unmount_bystands.bind fun r => ?_
    cases r with
    | ok _ => exact .pure ()
    | error e => exact Run.log_bystands _ _ _
  · refine (Run.log_bystands _ _ _).bind fun _ => Run.unmount_bystands.bind fun r => ?_
    cases r with
    | ok _ => exact .pure ()
    | error e => exact Run.log_bystands _ _ _

/-- The coordinator writes nothing but its record. -/
theorem awaitRestart_brings [Storage κ] [Honest κ] {C : Contents} (secs : UInt32) :
    Brings (fun v => Shelf.Elsewhere RestartLog.space C ⟨v.store, []⟩) (awaitRestart secs : Run ε κ τ Bool) fun _ v =>
      Shelf.Elsewhere RestartLog.space C ⟨v.store, []⟩ := by
  refine .after Run.signals_bystands fun signals => ?_
  dsimp only
  split
  · exact .pure fun _ h => h
  refine .after (Run.setSignals_bystands _) fun _ => Brings.bind ?_ fun _ =>
    .after (Run.log_bystands _ _ _) fun _ => .after (Run.add_bystands rfl) fun _ => .pure fun _ h => h
  refine .after Run.uptime_bystands fun uptime => Brings.bind (.onShelf fun v h => ?_) fun _ =>
    .after (prepare_bystands _ _) fun _ => .pure fun _ h => h
  exact ((RestartLog.load_elsewhere {}).bind fun log => log.record_elsewhere _) ⟨v.store, []⟩ h

end Tasks

namespace Provisioning

/-- The monitor has either erased the mark or done nothing. -/
theorem poll_brings {ε κ τ : Type} [Surroundings ε] [Storage κ] [Honest κ] {C : Contents} :
    Brings (fun v => Honest.contents v.store = C) (ResetMonitor.poll : Run ε κ τ Bool) fun requested v =>
      (requested = true → ¬ Marked (Honest.contents v.store)) ∧ (requested = false → Honest.contents v.store = C) := by
  refine .after Run.signals_bystands fun signals => ?_
  split
  · exact .pure fun _ h => ⟨nofun, fun _ => h⟩
  have erases : Brings (fun v => Honest.contents v.store = C) (Run.onShelf erase : Run ε κ τ _) fun r v =>
      (r = .ok () → ¬ Marked (Honest.contents v.store)) ∧ (∀ e, r = .error e → Honest.contents v.store = C) := by
    refine .onShelf fun v hC => ⟨(erase_leads ⟨v.store, []⟩ rfl).2, fun e he => ?_⟩
    have hd := OnShelf.delete_leads space key ⟨v.store, []⟩ hC
    change (OnShelf.delete space key ⟨v.store, []⟩).1 = .error e at he
    rw [he] at hd
    exact hd
  refine .after (Run.emit_bystands _) fun _ => erases.bind fun r => ?_
  cases r with
  | ok _ =>
    exact .after (Run.log_bystands _ _ _) fun _ => .after (Run.act_bystands _) fun _ => .pure fun _ h =>
      ⟨fun _ => h.1 rfl, nofun⟩
  | error e => exact .after (Run.log_bystands _ _ _) fun _ => .pure fun _ h => ⟨nofun, fun _ => h.2 e rfl⟩

inductive Turn
  /-- The monitor looks at the button. -/
  | poll
  /-- The coordinator restarts the fob, if it has been asked to. -/
  | coordinate (secs : UInt32)
deriving DecidableEq, Repr

/-- A store that a boot does not have to itself. -/
structure Contested (ε κ : Type) where
  /-- The reset monitor and the coordinator, and the store that they have in common with the boot. -/
  others : Device ε κ Unit
  /-- The turns they take before each access of the boot. -/
  turns : List (List Turn) := []
  /-- The monitor has erased the mark and asked for the restart. -/
  requested : Bool := false
  /-- From here on the boot does nothing any more. -/
  restarted : Bool := false
  /-- The accesses of the boot since the request. -/
  behind : List Note := []

namespace Contested

variable {ε κ : Type}

section turns

variable [Surroundings ε] [Storage κ]

/-- The monitor ends with its request, and all of them with the restart. -/
def turn (t : Turn) (c : Contested ε κ) : Contested ε κ :=
  if c.restarted then c else match t with
  | .poll =>
    if c.requested then c else
    let polled := ResetMonitor.poll c.others
    { c with others := polled.2, requested := polled.1, behind := [] }
  | .coordinate secs =>
    let awaited := Tasks.awaitRestart secs c.others
    { c with others := awaited.2, restarted := awaited.1 }

def turnAll (ts : List Turn) (c : Contested ε κ) : Contested ε κ := ts.foldl (fun c t => c.turn t) c

/-- The others go first. -/
def yield (c : Contested ε κ) : Contested ε κ :=
  match c.turns with
  | [] => c
  | ts :: later => { c.turnAll ts with turns := later }

def access {α : Type} (f : κ → Except StorageError α × κ) (note : Except StorageError α → Note) (c : Contested ε κ) :
    Except StorageError α × Contested ε κ :=
  let c := c.yield
  if c.restarted then (.error .ioError, c) else
  let (r, store) := f c.others.store
  (r, { c with
    others := { c.others with store }
    behind := if c.requested then c.behind ++ [note r] else c.behind })

instance : Storage (Contested ε κ) where
  read name key size := access (Storage.read name key size) (.read name key size)
  write name key bytes := access (Storage.write name key bytes) (.write name key bytes)
  delete name key := access (Storage.delete name key) (.delete name key)
  contains name key c := Storage.contains name key c.others.store

end turns

variable [Storage κ] [Honest κ]

def Marked (c : Contested ε κ) : Prop := Provisioning.Marked (Honest.contents c.others.store)

def MarkedBehind (c : Contested ε κ) : Prop := ∃ bytes, .write space key bytes (.ok ()) ∈ c.behind

/-- No mark has been set since the request. -/
def Bare (c : Contested ε κ) : Prop := c.requested = true → ¬ c.Marked ∧ ¬ c.MarkedBehind

/-- The mark is there if and only if the boot has set it since the request. -/
def Settled (c : Contested ε κ) : Prop := c.requested = true → (c.Marked ↔ c.MarkedBehind)

variable {c c' : Contested ε κ}

theorem Bare.settled (h : c.Bare) : c.Settled := fun hr => iff_of_false (h hr).1 (h hr).2

/-- What the others can make of it: they leave the mark alone, or the monitor erases it and asks for the restart. -/
inductive Beside (c c' : Contested ε κ) : Prop
  | alone (hrequested : c'.requested = c.requested) (hbehind : c.requested = true → c'.behind = c.behind)
    (hmark : c'.Marked ↔ c.Marked)
  | erased (hrequested : c'.requested = true) (hbehind : c'.behind = []) (hmark : ¬ c'.Marked)

namespace Beside

theorem refl (c : Contested ε κ) : c.Beside c := .alone rfl (fun _ => rfl) Iff.rfl

theorem trans {c'' : Contested ε κ} (h : c.Beside c') (h' : c'.Beside c'') : c.Beside c'' := by
  cases h' with
  | erased hr' hb' hm' => exact .erased hr' hb' hm'
  | alone hr' hb' hm' =>
    cases h with
    | alone hr hb hm =>
      exact .alone (hr'.trans hr) (fun h => (hb' (hr.trans h)).trans (hb h)) (hm'.trans hm)
    | erased hr hb hm => exact .erased (hr'.trans hr) ((hb' hr).trans hb) fun h => hm (hm'.1 h)

theorem bare (h : c.Beside c') (hc : c.Bare) : c'.Bare := by
  intro hr'
  cases h with
  | alone hr hb hm =>
    have hreq := hr.symm.trans hr'
    rw [hm, MarkedBehind, hb hreq]
    exact hc hreq
  | erased hr hb hm => exact ⟨hm, by simp [MarkedBehind, hb]⟩

theorem settled (h : c.Beside c') (hc : c.Settled) : c'.Settled := by
  intro hr'
  cases h with
  | alone hr hb hm =>
    have hreq := hr.symm.trans hr'
    rw [hm, MarkedBehind, hb hreq]
    exact hc hreq
  | erased hr hb hm => exact iff_of_false hm (by simp [MarkedBehind, hb])

end Beside

variable [Surroundings ε]

theorem beside_turn (t : Turn) (c : Contested ε κ) : c.Beside (c.turn t) := by
  unfold turn
  split
  · exact .refl c
  cases t with
  | poll =>
    dsimp only
    split
    · exact .refl c
    next hrequested =>
    obtain ⟨herased, halone⟩ := poll_brings (C := Honest.contents c.others.store) c.others rfl
    cases hpolled : (ResetMonitor.poll c.others).1 with
    | true => exact .erased rfl rfl (herased hpolled)
    | false =>
      refine .alone ?_ (fun h => absurd h hrequested) (iff_of_eq (congrArg Provisioning.Marked (halone hpolled)))
      exact (Bool.eq_false_iff.2 hrequested).symm
  | coordinate secs =>
    have h := Tasks.awaitRestart_brings secs (C := Honest.contents c.others.store) c.others fun _ _ _ => rfl
    have hmark := h space key (by decide)
    exact .alone rfl (fun _ => rfl) (not_congr (iff_of_eq (congrArg (· = none) hmark)))

theorem beside_turnAll (ts : List Turn) (c : Contested ε κ) : c.Beside (c.turnAll ts) := by
  induction ts generalizing c with
  | nil => exact .refl c
  | cons t ts ih => exact (beside_turn t c).trans (ih (c.turn t))

theorem beside_yield (c : Contested ε κ) : c.Beside c.yield := by
  unfold yield
  split
  · exact .refl c
  · next ts later _ =>
    cases beside_turnAll ts c with
    | alone hr hb hm => exact .alone hr hb hm
    | erased hr hb hm => exact .erased hr hb hm

section access

variable {α : Type} {f : κ → Except StorageError α × κ} {note : Except StorageError α → Note}

omit [Honest κ] in
/-- What an access makes of it, once the others have had their turns. -/
theorem access_cases (f : κ → Except StorageError α × κ) (note : Except StorageError α → Note) (c : Contested ε κ) :
    (access f note c).2 = c.yield ∨
      (access f note c).2.requested = c.yield.requested ∧
        (access f note c).2.others.store = (f c.yield.others.store).2 ∧
        (c.yield.requested = true → (access f note c).2.behind = c.yield.behind ++ [note (f c.yield.others.store).1]) := by
  unfold access
  dsimp only
  split
  · exact Or.inl rfl
  · exact Or.inr ⟨rfl, rfl, fun hr => if_pos hr⟩

/-- An access that sets no mark. -/
theorem access_bare (hf : ∀ s, Provisioning.Marked (Honest.contents (f s).2) → Provisioning.Marked (Honest.contents s))
    (hnote : ∀ r bytes, note r ≠ .write space key bytes (.ok ())) (h : c.Bare) : (access f note c).2.Bare := by
  have hy := (beside_yield c).bare h
  rcases access_cases f note c with hc | ⟨hrequested, hstore, hbehind⟩
  · exact hc ▸ hy
  intro hr
  obtain ⟨hm, hb⟩ := hy (hrequested.symm.trans hr)
  refine ⟨fun h => hm (hf _ ?_), ?_⟩
  · rw [← hstore]
    exact h
  · rintro ⟨bytes, hmem⟩
    rw [hbehind (hrequested.symm.trans hr), List.mem_append, List.mem_singleton] at hmem
    rcases hmem with hmem | hmem
    · exact hb ⟨bytes, hmem⟩
    · exact hnote _ bytes hmem.symm

/-- The mark is there or not as the attempt to set it went. -/
theorem mark_settled (bytes : Bytes) (h : c.Bare) : (Storage.write space key bytes c).2.Settled := by
  have hy := (beside_yield c).bare h
  rcases access_cases (Storage.write space key bytes) (.write space key bytes) c with hc | ⟨hrequested, hstore, hbehind⟩
  · exact (congrArg Settled hc).mpr hy.settled
  intro hr
  have hr' := hrequested.symm.trans hr
  obtain ⟨hm, hb⟩ := hy hr'
  replace hbehind := hbehind hr'
  change _ = c.yield.behind ++ [.write space key bytes (Storage.write space key bytes c.yield.others.store).1] at hbehind
  rw [Marked, MarkedBehind]
  change Provisioning.Marked (Honest.contents (access _ _ c).2.others.store) ↔
    ∃ bytes, Note.write space key bytes (.ok ()) ∈ (access _ _ c).2.behind
  rw [hstore, hbehind]
  cases hw : (Storage.write space key bytes c.yield.others.store).1 with
  | ok _ =>
    rw [Honest.write_ok _ _ _ _ hw]
    refine iff_of_true ?_ ⟨bytes, List.mem_append_right _ (List.mem_singleton_self _)⟩
    rw [Provisioning.Marked, Contents.set_self]
    exact Option.some_ne_none _
  | error e =>
    rw [Honest.write_error _ _ _ _ e hw]
    refine iff_of_false hm ?_
    rintro ⟨bytes', hmem⟩
    rw [List.mem_append, List.mem_singleton] at hmem
    rcases hmem with hmem | hmem
    · exact hb ⟨bytes', hmem⟩
    · cases hmem

end access

theorem read_bare (name key : String) (size : Nat) :
    Leads (fun s : Shelf (Contested ε κ) => s.store.Bare) (OnShelf.read name key size) fun _ s => s.store.Bare :=
  fun _ h => access_bare (fun s hm => Honest.contents_read name key size s ▸ hm) (fun _ _ hr => nomatch hr) h

theorem isProvisioned_bare :
    Leads (fun s : Shelf (Contested ε κ) => s.store.Bare) isProvisioned fun _ s => s.store.Bare := by
  refine (read_bare _ _ _).bind fun r => ?_
  split <;> exact .pure fun _ h => h

theorem erase_bare : Leads (fun s : Shelf (Contested ε κ) => s.store.Bare) erase fun _ s => s.store.Bare := by
  intro s h
  refine access_bare (fun s hm => ?_) (fun _ _ hr => nomatch hr) h
  exact (erase_leads (C := Honest.contents s) ⟨s, []⟩ rfl).1.marked hm

theorem keptByToken_bare : SoftToken.KeptByToken fun s : Shelf (Contested ε κ) => s.store.Bare where
  log _ _ _ := fun _ h => h
  read key size := read_bare _ key size
  write key bytes s h := by
    refine access_bare (fun s hm hnone => ?_) (fun r bytes hr => absurd (Note.write.inj hr).1 (by decide)) h
    have hw : Shelf.Elsewhere SoftToken.space (Honest.contents s) _ :=
      OnShelf.write_elsewhere key bytes ⟨s, []⟩ fun _ _ _ => rfl
    exact hm ((hw Provisioning.space Provisioning.key (by decide)).trans hnone)

variable {ε' : Type} [Surroundings ε']

/-- The boot leaves the mark as its own attempt to set it went, and where it has gone to restore there was no attempt. -/
theorem run_settled (reinit : Bool) :
    Brings (fun v => v.store.Bare) (Lifecycle.run { reinit } : Run ε' (Contested ε κ) SoftToken _) fun r v =>
      v.store.Settled ∧ (.restoring ∈ r.2.trail → v.store.Bare) := by
  have reads : Brings (fun v => v.store.Bare) (Run.onShelf isProvisioned : Run ε' (Contested ε κ) SoftToken _)
      fun _ v => v.store.Bare :=
    .onShelf fun v h => isProvisioned_bare ⟨v.store, []⟩ h
  have generates : Brings (fun v => v.store.Bare) (Lifecycle.generateAndMark : Run ε' (Contested ε κ) SoftToken _)
      fun _ v => v.store.Settled := by
    refine Lifecycle.generateAndMark_brings (A := fun _ v => Bare v.store)
      (.call rfl fun v h => keptByToken_bare.generate v.token _ h) (fun _ _ h => h.settled) ?_
    exact .onShelf fun v h => mark_settled [1] h
  have restores : Brings (fun v => v.store.Bare)
      (Lifecycle.restoreOrErase reinit : Run ε' (Contested ε κ) SoftToken _) fun _ v => v.store.Bare := by
    refine Lifecycle.restoreOrErase_brings reinit (A := fun _ v => Bare v.store)
      (.call rfl fun v h => keptByToken_bare.restore v.token _ h) (fun _ h => h) (fun _ _ _ h => h) fun _ _ => ?_
    exact .onShelf fun v h => erase_bare ⟨v.store, []⟩ h
  refine Lifecycle.run_brings (Lifecycle.decide_brings reads ?_ ?_ ?_)
  · exact fun _ _ h => ⟨h.settled, fun _ => h⟩
  · have unrestored (last : Stage) (h : last ≠ .restoring) : Stage.restoring ∉ [.start, .initializing, last] := by
      simpa using h.symm
    refine generates.mono fun r v h => ⟨h, fun hrestoring => absurd hrestoring (unrestored (Lifecycle.ending r) ?_)⟩
    cases r <;> exact Stage.noConfusion
  · exact restores.mono fun _ _ h => ⟨h.settled, fun _ => h⟩

/-- Once the monitor has erased the mark and asked for the restart, the restart finds the mark if and only if the boot
has set it since; it finds none behind a boot that has gone to restore. Without the mark the next boot initializes, or
else it cannot read the mark. -/
theorem reset_holds_unless_marked_behind (reinit : Bool) (d : Device ε' (Contested ε κ) SoftToken)
    (hstart : d.store.requested = false) (later : List Turn)
    (hrequested : ((Lifecycle.run { reinit } d).2.store.turnAll later).requested = true) :
    let booted := Lifecycle.run { reinit } d
    let c := booted.2.store.turnAll later
    (c.Marked ↔ c.MarkedBehind) ∧ (.restoring ∈ booted.1.2.trail → ¬ c.Marked) ∧
      (¬ c.Marked → ∀ (next : Device ε κ SoftToken) (reinit' : Bool), next.store = c.others.store →
        let r := Lifecycle.run { reinit := reinit' } next
        r.1.2.trail = [.start, .initializing, Lifecycle.ending r.1.1] ∨
          Stumbled next.vault.trail r.2.vault ∧ r.1.2.trail = [.start, .failed]) := by
  intro booted c
  obtain ⟨hsettled, hbare⟩ := run_settled reinit d fun h => absurd (hstart.symm.trans h) (by decide)
  have hbeside : booted.2.store.Beside c := beside_turnAll later booted.2.store
  refine ⟨hbeside.settled hsettled hrequested, ?_, ?_⟩
  · exact fun hrestoring => (hbeside.bare (hbare hrestoring) hrequested).1
  · intro hm next reinit' hnext r
    rcases Lifecycle.run_stages next.vault reinit' next rfl with h | h | h
    · exact Or.inl h.2
    · rw [Marked, ← hnext] at hm
      exact absurd h.1 hm
    · exact Or.inr h

open Bench (Turns)

/-- A fob whose reset button is pressed. The others have these turns before each access of the boot. -/
def pressed (marked : MemoryStore) (turns : List (List Turn)) : Device Turns (Contested Turns MemoryStore) SoftToken where
  outside := {}
  store := { others := { outside := { left := [[.reset]] }, store := marked, token := () }, turns }
  token := { entropy := ⟨fun _ => 1, 0⟩ }

def nextBoot (c : Contested Turns MemoryStore) : Device Turns MemoryStore SoftToken where
  outside := {}
  store := c.others.store
  token := { entropy := ⟨fun _ => 2, 0⟩ }

/-- The monitor looks when the boot has just set its mark. -/
theorem reset_behind_a_boot :
    let c := (Lifecycle.run { reinit := true } (pressed {} [])).2.store.turnAll [.poll, .coordinate 0]
    c.requested = true ∧ c.restarted = true ∧ ¬ c.Marked ∧
      (Lifecycle.run { reinit := true } (nextBoot c)).1.2.trail = [.start, .initializing, .ready] := by
  intro c
  have hrequested : c.requested = true := by decide +kernel
  have hbehind : c.behind = [] := List.isEmpty_iff.1 (by decide +kernel)
  obtain ⟨hmarked, -, -⟩ := reset_holds_unless_marked_behind true (pressed {} []) rfl [.poll, .coordinate 0] hrequested
  refine ⟨hrequested, by decide +kernel, fun hm => ?_, by decide +kernel⟩
  obtain ⟨bytes, hmem⟩ := hmarked.1 hm
  exact absurd (hbehind ▸ hmem) List.not_mem_nil

/-- On a fob with a mark the monitor looks before the boot does, which then finds none and sets a new one: the boot
behind the restart goes to restore. -/
theorem mark_set_behind_the_request :
    let c := (Lifecycle.run { reinit := true } (pressed (({} : MemoryStore).insert space key [1]) [[.poll]])).2.store.turnAll
      [.coordinate 0]
    c.requested = true ∧ c.restarted = true ∧ c.Marked ∧
      (Lifecycle.run { reinit := true } (nextBoot c)).1.2.trail = [.start, .restoring, .ready] := by
  refine ⟨by decide +kernel, by decide +kernel, ?_, by decide +kernel⟩
  unfold Marked Provisioning.Marked
  decide +kernel

end Contested

end Provisioning

end KeyFob
