import KeyFob.Bench.Turns
import KeyFob.Proofs.Provisioning.Contest
import KeyFob.Proofs.RestartLog.Ring

/-!
The restarts of a fob whose store never fails, over any number of records and reloads. The ring continues what was in the
store: from the slot of any log that is up to date, it holds what it once held, with the records made since behind it. So
the last four records stay, the newest one last.
-/

namespace KeyFob.RestartLog

/-- What is done with the restart logs; a log is meant by its place among those that are up to date. -/
inductive Use
  | reload
  | record (log : Nat) (r : RestartRecord)
  | finish (reason : Restart.Reason) (secs : UInt32)
  | list (log : Nat)
  | ask (log : Nat)
deriving DecidableEq, Repr

/-- A fob with the restart logs that are up to date on it, and the records that were made, oldest first. -/
structure Chronicle (ε κ τ : Type) where
  device : Device ε κ τ
  /-- A log is up to date if it made the last record or was loaded since. -/
  logs : List RestartLog := [{}]
  made : List RestartRecord := []

variable {ε κ τ : Type} [Surroundings ε] [Storage κ]

namespace Chronicle

def use (c : Chronicle ε κ τ) : Use → Chronicle ε κ τ
  | .reload =>
    let (l, device) := Run.onShelf (load {}) c.device
    { c with device, logs := l :: c.logs }
  | .record i r =>
    match c.logs[i]? with
    | none => c
    | some l =>
      let (l, device) := Run.onShelf (l.record r) c.device
      ⟨device, [l], c.made ++ [r]⟩
  | .finish reason secs =>
    let (r, device) := Tasks.finish reason secs c.device
    ⟨device, [], c.made ++ [r]⟩
  | .list i =>
    match c.logs[i]? with
    | none => c
    | some l => { c with device := (Run.onShelf l.all c.device).2 }
  | .ask i =>
    match c.logs[i]? with
    | none => c
    | some l => { c with device := (Run.onShelf l.latest c.device).2 }

/-- All that is done on a fob, at first with a log that was never loaded. -/
def ofUses (d : Device ε κ τ) (uses : List Use) : Chronicle ε κ τ := uses.foldl use { device := d }

end Chronicle

/-- From this slot on the ring holds what it held from some slot on, with the records made since behind it. -/
def Continues (C₀ C : Contents) (made : List RestartRecord) (n : Nat) : Prop :=
  n < slots ∧ ∃ n₀, around (kept C) n = (around (kept C₀) n₀ ++ made.map some).drop made.length

variable {C₀ C : Contents} {made : List RestartRecord} {n : Nat}

theorem Continues.refl (C : Contents) (hn : n < slots) : Continues C C [] n := ⟨hn, n, by simp⟩

/-- One more record drops the oldest entry and comes last. -/
theorem drop_concat (f : Nat → Option RestartRecord) (n₀ : Nat) (made : List RestartRecord) (r : RestartRecord) :
    (around f n₀ ++ (made ++ [r]).map some).drop (made ++ [r]).length =
      ((around f n₀ ++ made.map some).drop made.length).tail ++ [some r] := by
  have hlength : made.length + 1 ≤ (around f n₀ ++ made.map some).length := by
    rw [List.length_append, length_around, List.length_map, Nat.add_comm]
    exact Nat.add_le_add_right (by decide) _
  rw [List.tail_drop, List.map_append, List.length_append, ← List.append_assoc]
  exact List.drop_append_of_le_length hlength

theorem Continues.record (h : Continues C₀ C made n) (r : RestartRecord) :
    Continues C₀ (recorded C n r) (made ++ [r]) ((n + 1) % slots) := by
  obtain ⟨hn, n₀, h⟩ := h
  exact ⟨next_lt n, n₀, by rw [around_recorded C hn, h, drop_concat]⟩

theorem reduceOption_map_some {α : Type} (as : List α) : (as.map some).reduceOption = as := by
  rw [List.reduceOption, List.filterMap_map]
  exact List.filterMap_some

/-- The records that were made lie behind what is left of the old ones. -/
theorem Continues.listed (h : Continues C₀ C made n) : ∃ n₀, (around (kept C) n).reduceOption =
    ((around (kept C₀) n₀).drop made.length).reduceOption ++ made.drop (made.length - slots) := by
  obtain ⟨-, n₀, h⟩ := h
  refine ⟨n₀, ?_⟩
  rw [h, List.drop_append, length_around, List.reduceOption_append, ← List.map_drop, reduceOption_map_some]

theorem Continues.newest {r : RestartRecord} (h : Continues C₀ C (made ++ [r]) n) :
    (around (kept C) n).getLast? = some (some r) := by
  obtain ⟨-, n₀, h⟩ := h
  rw [h, drop_concat, List.getLast?_concat]

/-- Nothing is left of the old records once four have been made, or if there were none. -/
theorem Continues.listed_all (h : Continues C₀ C made n)
    (hall : slots ≤ made.length ∨ ∀ n < slots, kept C₀ n = none) :
    (around (kept C) n).reduceOption = made.drop (made.length - slots) := by
  obtain ⟨n₀, h⟩ := h.listed
  rw [h]
  suffices hold : ((around (kept C₀) n₀).drop made.length).reduceOption = [] by rw [hold, List.nil_append]
  rcases hall with hmany | hempty
  · rw [List.drop_eq_nil_of_le (by rwa [length_around])]
    rfl
  · refine List.eq_nil_iff_forall_not_mem.2 fun r hr => ?_
    obtain ⟨m, hm, hkept⟩ := exists_of_mem_around (List.mem_of_mem_drop (List.reduceOption_mem_iff.1 hr))
    cases (hempty m hm).symm.trans hkept

variable [Reliable κ]

/-- The slot that a new log would take up, and those of all logs that are up to date, continue the ring. -/
def Sound (C₀ C : Contents) (made : List RestartRecord) (logs : List RestartLog) : Prop :=
  Continues C₀ C made (position C) ∧ ∀ l ∈ logs, Continues C₀ C made l.next

variable {logs : List RestartLog}

theorem Sound.init (C : Contents) : Sound C C [] [{}] := by
  refine ⟨.refl C (position_lt C), fun l hl => ?_⟩
  cases List.mem_singleton.1 hl
  exact .refl C (by decide)

theorem Sound.load (h : Sound C₀ C made logs) : Sound C₀ C made (⟨position C⟩ :: logs) :=
  ⟨h.1, List.forall_mem_cons.2 h⟩

/-- Behind a record no log is up to date but, if it was made through one, this one. -/
theorem Continues.sound (h : Continues C₀ C made n) (r : RestartRecord) (hlogs : ∀ l ∈ logs, l = ⟨(n + 1) % slots⟩) :
    Sound C₀ (recorded C n r) (made ++ [r]) logs := by
  have hring := h.record r
  refine ⟨?_, fun l hl => ?_⟩
  · rwa [position_recorded]
  · rwa [hlogs l hl]

/-- The record of a restart goes where the stored position says. -/
theorem finish_brings (reason : Restart.Reason) (secs : UInt32) :
    Brings (fun v => Honest.contents v.store = C) (Tasks.finish reason secs : Run ε κ τ RestartRecord) fun r v =>
      Honest.contents v.store = recorded C (position C) r := by
  refine .after Run.uptime_bystands fun uptime => Brings.bind (.onShelf fun v h => ?_) fun _ =>
    .after (Tasks.prepare_bystands _ _) fun _ => .pure fun _ h => h
  have hrecord : Leads (Shelf.Holds C) (do let l ← load {}; l.record ⟨UInt64.ofNat uptime, reason⟩ : OnShelf κ _)
      fun _ s => s.Holds (recorded C (position C) ⟨UInt64.ofNat uptime, reason⟩) := by
    refine load_legible.bind fun l => ?_
    rintro s ⟨hs, rfl⟩
    exact (record_reliable _ _ s hs).2
  exact hrecord ⟨v.store, []⟩ h

namespace Chronicle

variable {c : Chronicle ε κ τ}

/-- What is up to date on the fob continues what the store held. -/
def Truthful (C₀ : Contents) (c : Chronicle ε κ τ) : Prop := Sound C₀ (Honest.contents c.device.store) c.made c.logs

omit [Surroundings ε] in
/-- Reading changes nothing that the ring depends on. -/
theorem Truthful.read {α : Type} {f : OnShelf κ α} (h : c.Truthful C₀)
    (hf : (f ⟨c.device.store, []⟩).2.Holds (Honest.contents c.device.store)) :
    Truthful C₀ { c with device := (Run.onShelf f c.device).2 } := by
  have hstore : Honest.contents (Run.onShelf f c.device).2.store = Honest.contents c.device.store := hf
  rw [Truthful, hstore]
  exact h

theorem Truthful.use (h : c.Truthful C₀) (u : Use) : (c.use u).Truthful C₀ := by
  cases u with
  | reload =>
    obtain ⟨hholds, hl⟩ := load_legible ⟨c.device.store, []⟩ rfl
    have hsound := Sound.load h
    rwa [← hl, ← hholds] at hsound
  | record i r =>
    cases hi : c.logs[i]? with
    | none => simpa only [Chronicle.use, hi] using h
    | some l =>
      obtain ⟨hl, hholds⟩ := record_reliable l r ⟨c.device.store, []⟩ rfl
      have hsound := (h.2 l (List.mem_of_getElem? hi)).sound r fun _ => List.mem_singleton.1
      rw [← hholds, ← hl] at hsound
      simp only [Chronicle.use, hi]
      exact hsound
  | finish reason secs =>
    have hsound := h.1.sound (Tasks.finish reason secs c.device).1 fun _ hl => absurd hl List.not_mem_nil
    have hholds : Honest.contents (Tasks.finish reason secs c.device).2.store =
        recorded (Honest.contents c.device.store) (position (Honest.contents c.device.store))
          (Tasks.finish reason secs c.device).1 := finish_brings reason secs c.device rfl
    rwa [← hholds] at hsound
  | list i =>
    cases hi : c.logs[i]? with
    | none => simpa only [Chronicle.use, hi] using h
    | some l => simpa only [Chronicle.use, hi] using h.read (all_legible l ⟨c.device.store, []⟩ rfl).1
  | ask i =>
    cases hi : c.logs[i]? with
    | none => simpa only [Chronicle.use, hi] using h
    | some l => simpa only [Chronicle.use, hi] using h.read (latest_legible l ⟨c.device.store, []⟩ rfl).1

theorem truthful_ofUses (d : Device ε κ τ) (uses : List Use) : (ofUses d uses).Truthful (Honest.contents d.store) :=
  List.foldlRecOn uses use (Sound.init _) fun _ h u _ => h.use u

/-- What the fob answers through a log that is up to date, after whatever was done. -/
theorem last_records_kept (d : Device ε κ τ) (uses : List Use) (l : RestartLog) (hl : l ∈ (ofUses d uses).logs) :
    let c := ofUses d uses
    let lastOnes := c.made.drop (c.made.length - slots)
    let listed := (Run.onShelf l.all c.device).1
    (∀ r, c.made.getLast? = some r → (Run.onShelf l.latest c.device).1 = some r) ∧ lastOnes <:+ listed ∧
      (slots ≤ c.made.length ∨ (∀ n < slots, Honest.contents d.store space (slotKey n) = none) → listed = lastOnes) := by
  intro c lastOnes listed
  have hring := (truthful_ofUses d uses).2 l hl
  have hlisted : listed = (around (kept (Honest.contents c.device.store)) l.next).reduceOption :=
    (all_legible l ⟨c.device.store, []⟩ rfl).2
  refine ⟨fun r hr => ?_, ?_, fun hall => ?_⟩
  · obtain ⟨made, hmade⟩ := List.getLast?_eq_some_iff.1 hr
    have hnewest := (latest_legible l ⟨c.device.store, []⟩ rfl).2
    rw [hmade] at hring
    exact (Option.some.inj (hnewest.symm.trans hring.newest))
  · obtain ⟨n₀, h⟩ := hring.listed
    rw [hlisted, h]
    exact List.suffix_append _ _
  · rw [hlisted]
    refine hring.listed_all (hall.imp_right fun hempty n hn => ?_)
    rw [kept, Contents.read, hempty n hn]

/-- A fob with a position behind the end of the ring, and a slot that holds no record. -/
def usedFob : Device Bench.Turns MemoryStore Bench.AnyToken where
  outside := {}
  store := ⟨[((space, nextKey), [7, 1, 0, 0]), ((space, slotKey 1), [255]), ((space, slotKey 2), [5, 1])]⟩
  token := .scripted {}

def longUptime : RestartRecord := ⟨18446744073709551615, .taskPanic⟩

def usage : List Use :=
  [.record 0 ⟨1, .volumeMount⟩, .ask 0, .finish .hardReset 3, .reload, .reload, .record 1 ⟨300, .storageInit⟩, .reload,
    .list 0, .record 0 ⟨5, .socketAllocation⟩, .record 0 longUptime, .reload]

theorem last_records_kept_over_reloads :
    (⟨1⟩ : RestartLog) ∈ (ofUses usedFob usage).logs ∧
      (Run.onShelf (latest ⟨1⟩) (ofUses usedFob usage).device).1 = some longUptime ∧
      (Run.onShelf (all ⟨1⟩) (ofUses usedFob usage).device).1 =
        [⟨0, .hardReset⟩, ⟨300, .storageInit⟩, ⟨5, .socketAllocation⟩, longUptime] := by
  have hlog : (⟨1⟩ : RestartLog) ∈ (ofUses usedFob usage).logs := by decide +kernel
  obtain ⟨hlatest, -, hlisted⟩ := last_records_kept usedFob usage ⟨1⟩ hlog
  have hfour : slots ≤ (ofUses usedFob usage).made.length := by decide +kernel
  refine ⟨hlog, hlatest longUptime (by decide +kernel), (hlisted (Or.inl hfour)).trans ?_⟩
  decide +kernel

end Chronicle

end KeyFob.RestartLog
