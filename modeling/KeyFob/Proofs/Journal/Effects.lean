import KeyFob.Proofs.Journal.Vault
import KeyFob.Proofs.Journal.Leaves

/-!
What a task does, in order: each access to the store, each delay, each event, and whatever else it does to the world. The
log lines that it writes are left out, and what others do to the signals meanwhile. `Did l d d'` says that from `d` to `d'`
these were the effects; one after another they add up.
-/

namespace KeyFob

def Entry.isEffect : Entry → Bool
  | note (.log _) | acted _ => false
  | _ => true

def effects (t : List Entry) : List Entry := t.filter Entry.isEffect

variable {ε κ τ α β : Type}

def Did (l : List Entry) (d d' : Device ε κ τ) : Prop :=
  ∃ t, d'.journal.toList = d.journal.toList ++ t ∧ effects t = l

namespace Did

variable {l l' : List Entry} {d d' d'' : Device ε κ τ}

theorem refl (d : Device ε κ τ) : Did [] d d := ⟨[], (List.append_nil _).symm, rfl⟩

theorem trans (h : Did l d d') (h' : Did l' d' d'') : Did (l ++ l') d d'' := by
  obtain ⟨t, hj, ht⟩ := h
  obtain ⟨u, hj', hu⟩ := h'
  refine ⟨t ++ u, by rw [hj', hj, List.append_assoc], ?_⟩
  rw [effects, List.filter_append, ← ht, ← hu]
  rfl

theorem since (h : Did l d d') : effects (d'.journal.since d.journal) = l := by
  obtain ⟨t, hj, ht⟩ := h
  rw [Journal.since_eq hj, ht]

/-- A step without effects in front of others. -/
theorem after (h : Did [] d d') (h' : Did l d' d'') : Did l d d'' := h.trans h'

/-- A step without effects behind others. -/
theorem before (h : Did l d d') (h' : Did [] d' d'') : Did l d d'' := by
  rw [← List.append_nil l]
  exact h.trans h'

end Did

/-- What an activity on the store comes to: how it leaves the store, and the accesses that it has noted. -/
structure Accessed (l : List Entry) (store : κ) (s s' : Shelf κ) : Prop where
  store_eq : s'.store = store
  noted : effects (s'.notes.map .note) = effects (s.notes.map .note) ++ l

namespace Accessed

variable {l l' : List Entry} {store store' : κ} {s s' s'' : Shelf κ}

theorem trans (h : Accessed l store s s') (h' : Accessed l' store' s' s'') : Accessed (l ++ l') store' s s'' :=
  ⟨h'.store_eq, by rw [h'.noted, h.noted, List.append_assoc]⟩

theorem note (s : Shelf κ) (store : κ) (n : Note) : Accessed (effects [.note n]) store s ⟨store, s.notes ++ [n]⟩ := by
  refine ⟨rfl, ?_⟩
  rw [List.map_append, effects, List.filter_append]
  rfl

/-- A log line behind others. -/
theorem log (h : Accessed l store s s') (level : Level) (source : Part) (message : String) :
    Accessed l store s (OnShelf.log level source message s').2 := by
  rw [← List.append_nil l, ← h.store_eq]
  exact h.trans (.note s' s'.store (.log ⟨level, source, message⟩))

variable [Storage κ]

theorem read (name key : String) (size : Nat) (s : Shelf κ) :
    Accessed [.note (.read name key size (Storage.read name key size s.store).1)] (Storage.read name key size s.store).2 s
      (OnShelf.read name key size s).2 :=
  .note s _ (.read name key size (Storage.read name key size s.store).1)

theorem write (name key : String) (bytes : Bytes) (s : Shelf κ) :
    Accessed [.note (.write name key bytes (Storage.write name key bytes s.store).1)]
      (Storage.write name key bytes s.store).2 s (OnShelf.write name key bytes s).2 :=
  .note s _ (.write name key bytes (Storage.write name key bytes s.store).1)

theorem delete (name key : String) (s : Shelf κ) :
    Accessed [.note (.delete name key (Storage.delete name key s.store).1)] (Storage.delete name key s.store).2 s
      (OnShelf.delete name key s).2 :=
  .note s _ (.delete name key (Storage.delete name key s.store).1)

end Accessed

namespace Run

variable (d : Device ε κ τ)

theorem add_did (e : Entry) : Did (effects [e]) d (add e d).2 := ⟨[e], Journal.toList_add _ _, rfl⟩

theorem log_did (level : Level) (source : Part) (message : String) : Did [] d (log level source message d).2 := add_did d _

theorem logLines_did (ls : List Line) : Did [] d (logLines ls d).2 := by
  refine ⟨(ls.map Note.log).map .note, Journal.toList_addNotes _ _, List.filter_eq_nil_iff.2 fun x hx => ?_⟩
  obtain ⟨n, hn, rfl⟩ := List.mem_map.1 hx
  obtain ⟨line, -, rfl⟩ := List.mem_map.1 hn
  simp [Entry.isEffect]

theorem act_did (a : Action) : Did [] d (act a d).2 := ⟨[.acted a], Journal.toList_add _ _, rfl⟩

theorem actAll_did (as : List Action) : Did [] d (actAll as d).2 := by
  induction as generalizing d with
  | nil => exact .refl d
  | cons a as ih => exact (act_did d a).after (ih (act a d).2)

theorem onShelf_did {f : OnShelf κ α} {l : List Entry} {store : κ}
    (h : Accessed l store ⟨d.store, []⟩ (f ⟨d.store, []⟩).2) : Did l d (onShelf f d).2 :=
  ⟨_, Journal.toList_addNotes _ _, h.noted⟩

variable [Surroundings ε]

theorem elapse_did (ms : Nat) : Did [] d (elapse ms d).2 :=
  actAll_did { d with outside := (Surroundings.elapse ms d.outside).2 } _

theorem delay_did (ms : Nat) : Did [.delay ms] d (delay ms d).2 := (add_did d _).before (elapse_did _ ms)

theorem meanwhile_did : Did [] d (meanwhile d).2 :=
  actAll_did { d with outside := (Surroundings.meanwhile d.outside).2 } _

theorem halting_did : Did [] d (halting d).2 := meanwhile_did d

/-- The volume is released once, if it is mounted. -/
theorem unmount_did : Did (if Surroundings.mounted d.outside then [.unmount] else []) d (unmount d).2 := by
  cases h : Surroundings.mounted d.outside with
  | true =>
    let asked := (add .unmount d).2
    let released := Surroundings.unmount d.outside
    have hunmount : (unmount d).2 = (logLines released.2.1 { asked with outside := released.2.2 }).2 := by
      change ((if Surroundings.mounted d.outside = true then _ else _ : Run ε κ τ (Except VolumeError Unit)) d).2 = _
      rw [h]
      rfl
    rw [hunmount]
    exact (add_did d _).before (logLines_did { asked with outside := released.2.2 } _)
  | false =>
    have hunmount : unmount d = (.ok (), d) := by
      change (if Surroundings.mounted d.outside = true then _ else _ : Run ε κ τ (Except VolumeError Unit)) d = _
      rw [h]
      rfl
    rw [hunmount]
    exact .refl d

end Run

end KeyFob
