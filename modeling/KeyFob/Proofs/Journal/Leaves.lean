import KeyFob.Device
import KeyFob.Proofs.Journal.Replay

/-!
What an activity leaves in the journal. `Leaves m P` says that `m` only adds to the journal, that what it adds accounts
for the signals, and that `P` holds of its result and of its own steps among the new entries. The laws for `pure` and
`>>=` put activities together; below them stands what each operation of a device leaves.
-/

namespace KeyFob

/-- The steps of the task itself: neither what others do to the signals, nor notes. -/
def Entry.isOwn : Entry → Bool
  | note _ | acted _ => false
  | _ => true

theorem Entry.not_lowers {x : Entry} (h : x.isOwn = false) : x.lowers = false := by
  cases x <;> first | rfl | cases h

theorem Entry.not_looksAtEpoch {x : Entry} (h : x.isOwn = false) : x.looksAtEpoch = false := by
  cases x <;> first | rfl | cases h

theorem Entry.not_looksAtLink {x : Entry} (h : x.isOwn = false) : x.looksAtLink = false := by
  cases x <;> first | rfl | cases h

def own (t : List Entry) : List Entry := t.filter Entry.isOwn

theorem own_append (t u : List Entry) : own (t ++ u) = own t ++ own u := List.filter_append t u

/-- What is not found in notes nor in what others do is found among the own steps. -/
theorem filterMap_own {β : Type} {f : Entry → Option β} (hnote : ∀ n, f (.note n) = none)
    (hacted : ∀ a, f (.acted a) = none) (t : List Entry) : (own t).filterMap f = t.filterMap f := by
  rw [own, List.filterMap_filter]
  refine congrArg (List.filterMap · t) (funext fun x => ?_)
  cases x with
  | note n => exact (hnote n).symm
  | acted a => exact (hacted a).symm
  | _ => rfl

theorem filter_own {p : Entry → Bool} (hnote : ∀ n, p (.note n) = false) (hacted : ∀ a, p (.acted a) = false)
    (t : List Entry) : (own t).filter p = t.filter p := by
  rw [own, List.filter_filter]
  refine congrArg (List.filter · t) (funext fun x => ?_)
  cases x with
  | note n => exact hnote n ▸ rfl
  | acted a => exact hacted a ▸ rfl
  | _ => exact Bool.and_true _

def Journal.since (j before : Journal) : List Entry := j.toList.drop before.toList.length

theorem Journal.since_eq {j before : Journal} {t : List Entry} (h : j.toList = before.toList ++ t) :
    j.since before = t := by
  rw [since, h, List.drop_left]

variable {ε κ τ α β : Type}

def Leaves (m : Run ε κ τ α) (P : α → List Entry → Prop) : Prop :=
  ∀ d, ∃ t, (m d).2.journal.toList = d.journal.toList ++ t ∧ Accounts d.signals t (m d).2.signals ∧ P (m d).1 (own t)

namespace Leaves

variable {m : Run ε κ τ α} {f : α → Run ε κ τ β} {P Q : α → List Entry → Prop} {R : β → List Entry → Prop}

theorem mono (h : Leaves m P) (hPQ : ∀ a o, P a o → Q a o) : Leaves m Q := by
  intro d
  obtain ⟨t, hj, hs, hP⟩ := h d
  exact ⟨t, hj, hs, hPQ _ _ hP⟩

theorem pure {a : α} (h : P a []) : Leaves (Pure.pure a : Run ε κ τ α) P :=
  fun _ => ⟨[], (List.append_nil _).symm, rfl, h⟩

theorem bind (hm : Leaves m P) (hf : ∀ a o, P a o → Leaves (f a) fun b o' => R b (o ++ o')) : Leaves (m >>= f) R := by
  intro d
  obtain ⟨t, hj, hs, hP⟩ := hm d
  obtain ⟨u, hj', hs', hR⟩ := hf _ _ hP (m d).2
  refine ⟨t ++ u, ?_, hs.append hs', ?_⟩
  · rw [← List.append_assoc, ← hj]
    exact hj'
  · rw [own_append]
    exact hR

/-- A first step that always leaves the same. -/
theorem step {l : List Entry} (hm : Leaves m fun _ o => o = l) (hf : ∀ a, Leaves (f a) fun b o => R b (l ++ o)) :
    Leaves (m >>= f) R :=
  hm.bind fun a _ h => h ▸ hf a

/-- A first step that leaves nothing of its own. -/
theorem skip (hm : Leaves m fun _ o => o = []) (hf : ∀ a, Leaves (f a) R) : Leaves (m >>= f) R :=
  hm.step hf

end Leaves

namespace Run

/-- Reading and changing what the journal does not tell of leaves nothing. -/
theorem leaves_of_same {m : Run ε κ τ α} (hj : ∀ d, (m d).2.journal = d.journal)
    (hs : ∀ d, (m d).2.signals = d.signals) : Leaves m fun _ o => o = [] :=
  fun d => ⟨[], by rw [hj, List.append_nil], hs d, rfl⟩

theorem get_leaves : Leaves (get : Run ε κ τ (Device ε κ τ)) fun _ o => o = [] :=
  leaves_of_same (fun _ => rfl) fun _ => rfl

theorem add_leaves {e : Entry} (he : ∀ s, e.Agrees s ∧ e.replay s = s) :
    Leaves (add e : Run ε κ τ Unit) fun _ o => o = own [e] :=
  fun d => ⟨[e], Journal.toList_add _ _, ⟨(he d.signals).1, (he d.signals).2.symm⟩, rfl⟩

theorem log_leaves (level : Level) (source : Part) (message : String) :
    Leaves (log level source message : Run ε κ τ Unit) fun _ o => o = [] :=
  add_leaves fun _ => ⟨trivial, rfl⟩

theorem accounts_notes (s : Signals) (ns : List Note) : Accounts s (ns.map .note) s := by
  induction ns with
  | nil => rfl
  | cons n ns ih => exact ⟨trivial, ih⟩

theorem own_notes (ns : List Note) : own (ns.map .note) = [] := by
  induction ns with
  | nil => rfl
  | cons n ns ih => exact ih

theorem logLines_leaves (ls : List Line) : Leaves (logLines ls : Run ε κ τ Unit) fun _ o => o = [] :=
  fun _ => ⟨(ls.map Note.log).map .note, Journal.toList_addNotes _ _, accounts_notes _ _, own_notes _⟩

theorem onShelf_leaves (f : OnShelf κ α) : Leaves (onShelf f : Run ε κ τ α) fun _ o => o = [] :=
  fun d => ⟨(f ⟨d.store, []⟩).2.notes.map .note, Journal.toList_addNotes _ _, accounts_notes _ _, own_notes _⟩

theorem act_leaves (a : Action) : Leaves (act a : Run ε κ τ Unit) fun _ o => o = [] :=
  fun _ => ⟨[.acted a], Journal.toList_add _ _, ⟨trivial, rfl⟩, rfl⟩

theorem actAll_leaves (as : List Action) : Leaves (actAll as : Run ε κ τ Unit) fun _ o => o = [] := by
  induction as with
  | nil => exact .pure rfl
  | cons a as ih => exact (act_leaves a).skip fun _ => ih

theorem actAll_eq (as : List Action) (d : Device ε κ τ) :
    actAll as d = ((), { d with
      signals := as.foldl Action.apply d.signals
      journal := ⟨(as.map Entry.acted).reverse ++ d.journal.reversed⟩ }) := by
  induction as generalizing d with
  | nil => rfl
  | cons a as ih =>
    change actAll as (act a d).2 = _
    rw [ih]
    simp [act, add, setSignals, Journal.add]
    rfl

theorem bind_eq {m : Run ε κ τ α} {f : α → Run ε κ τ β} {d d' : Device ε κ τ} (h : m d = m d') :
    (m >>= f) d = (m >>= f) d' := by
  change f (m d).1 (m d).2 = f (m d').1 (m d').2
  rw [h]

theorem led_leaves (l : Led) (on : Bool) : Leaves (led l on : Run ε κ τ Unit) fun _ o => o = [.led l on] :=
  add_leaves fun _ => ⟨trivial, rfl⟩

theorem close_leaves : Leaves (close : Run ε κ τ Unit) fun _ o => o = [.close] :=
  add_leaves fun _ => ⟨trivial, rfl⟩

theorem write_leaves (x : Exchange) (bytes : Bytes) :
    Leaves (write x bytes : Run ε κ τ _) fun _ o => o = [.write bytes] :=
  .step (add_leaves fun _ => ⟨trivial, rfl⟩) fun _ => .pure rfl

section outside

variable [Surroundings ε]

theorem uptime_leaves : Leaves (uptime : Run ε κ τ Nat) fun _ o => o = [] :=
  leaves_of_same (fun _ => rfl) fun _ => rfl

theorem elapse_leaves (ms : Nat) : Leaves (elapse ms : Run ε κ τ Unit) fun _ o => o = [] :=
  fun d => actAll_leaves (Surroundings.elapse ms d.outside).1 { d with outside := (Surroundings.elapse ms d.outside).2 }

theorem delay_leaves (ms : Nat) : Leaves (delay ms : Run ε κ τ Unit) fun _ o => o = [.delay ms] :=
  .step (add_leaves fun _ => ⟨trivial, rfl⟩) fun _ => (elapse_leaves ms).mono fun _ _ h => by rw [h]; rfl

theorem emit_leaves (e : Event) : Leaves (emit e : Run ε κ τ Unit) fun _ o => o = [.emit e] := by
  refine .step (add_leaves fun _ => ⟨trivial, rfl⟩) fun _ => ?_
  refine Leaves.mono (P := fun _ o => o = []) (fun d => ?_) fun _ _ h => by rw [h]; rfl
  exact actAll_leaves (Surroundings.told e d.outside).1 { d with outside := (Surroundings.told e d.outside).2 }

theorem apply_leaves (n : Config.Network) : Leaves (apply n : Run ε κ τ _) fun _ o => o = [.apply n] := by
  refine .step (add_leaves fun _ => ⟨trivial, rfl⟩) fun _ => Leaves.mono (P := fun _ o => o = []) ?_ fun _ _ h => by
    rw [h]; rfl
  exact leaves_of_same (fun _ => rfl) fun _ => rfl

theorem connect_leaves : Leaves (connect : Run ε κ τ _) fun _ o => o = [.connect] := by
  refine .step (add_leaves fun _ => ⟨trivial, rfl⟩) fun _ => Leaves.mono (P := fun _ o => o = []) (fun d => ?_)
    fun _ _ h => by rw [h]; rfl
  let called := Surroundings.connect d.queue d.outside
  exact logLines_leaves called.2.2.1 { d with outside := called.2.2.2, queue := called.2.1 }

theorem meanwhile_leaves : Leaves (meanwhile : Run ε κ τ Unit) fun _ o => o = [] :=
  fun d => actAll_leaves (Surroundings.meanwhile d.outside).1 { d with outside := (Surroundings.meanwhile d.outside).2 }

theorem signals_leaves : Leaves (signals : Run ε κ τ Signals) fun _ o => o = [] :=
  meanwhile_leaves.skip fun _ => get_leaves.skip fun _ => .pure rfl

theorem halting_leaves : Leaves (halting : Run ε κ τ Bool) fun _ o => o = [] :=
  signals_leaves.skip fun _ => .pure rfl

/-- A look at the signals shows what the others have made of them. -/
theorem look_leaves {m : Run ε κ τ α} (f : Signals → α) (e : α → Entry) (hown : ∀ a, (e a).isOwn = true)
    (he : ∀ s, (e (f s)).Agrees s)
    (hm : ∀ d, m d = (f (meanwhile d).2.signals,
      { (meanwhile d).2 with
        signals := (e (f (meanwhile d).2.signals)).replay (meanwhile d).2.signals
        journal := (meanwhile d).2.journal.add (e (f (meanwhile d).2.signals)) })) :
    Leaves m fun a o => o = [e a] := by
  intro d
  obtain ⟨t, hj, hs, ho⟩ := meanwhile_leaves d
  refine ⟨t ++ [e (m d).1], ?_, hs.append ⟨?_, ?_⟩, ?_⟩
  · rw [hm, Journal.toList_add, hj, List.append_assoc]
  · rw [hm]
    exact he _
  · rw [hm]
    rfl
  · rw [own_append, ho]
    simp [own, hown]

theorem readLink_leaves : Leaves (readLink : Run ε κ τ (Option Nat)) fun r o => o = [.readLink r] :=
  look_leaves (fun s => s.link.current) .readLink (fun _ => rfl) (fun _ => rfl) fun _ => rfl

theorem readEpoch_leaves : Leaves (readEpoch : Run ε κ τ UInt32) fun r o => o = [.readEpoch r] :=
  look_leaves (fun s => s.epoch) .readEpoch (fun _ => rfl) (fun _ => rfl) fun _ => rfl

theorem takeConfirm_leaves : Leaves (takeConfirm : Run ε κ τ Bool) fun r o => o = [.takeConfirm r] :=
  look_leaves (fun s => s.confirm) .takeConfirm (fun _ => rfl) (fun _ => rfl) fun _ => rfl

theorem clearConfirm_leaves : Leaves (clearConfirm : Run ε κ τ Unit) fun _ o => o = [.clearConfirm] :=
  look_leaves (fun _ => ()) (fun _ => .clearConfirm) (fun _ => rfl) (fun _ => trivial) fun _ => rfl

theorem receive_leaves (size : Nat) (x : Exchange) :
    Leaves (receive size x : Run ε κ τ (Except TransportError Bytes)) fun r o => o = [.receive r] :=
  (elapse_leaves _).skip fun _ => .step (add_leaves fun _ => ⟨trivial, rfl⟩) fun _ => .pure rfl

variable (d : Device ε κ τ)

theorem meanwhile_outside : (meanwhile d).2.outside = (Surroundings.meanwhile d.outside).2 :=
  congrArg (·.2.outside) (actAll_eq (Surroundings.meanwhile d.outside).1
    { d with outside := (Surroundings.meanwhile d.outside).2 })

theorem delay_outside (ms : Nat) : (delay ms d).2.outside = (Surroundings.elapse ms d.outside).2 :=
  congrArg (·.2.outside) (actAll_eq (Surroundings.elapse ms d.outside).1
    { d with outside := (Surroundings.elapse ms d.outside).2, journal := d.journal.add (.delay ms) })

end outside

section token

theorem withToken_leaves (f : τ → OnShelf κ (α × τ)) : Leaves (withToken f : Run ε κ τ α) fun _ o => o = [] :=
  get_leaves.skip fun d => (onShelf_leaves (f d.token)).skip fun _ =>
    .skip (leaves_of_same (fun _ => rfl) fun _ => rfl) fun _ => .pure rfl

variable [Surroundings ε] [Token κ τ]

theorem invalidate_leaves : Leaves (invalidate : Run ε κ τ Unit) fun _ o => o = [.invalidate] :=
  meanwhile_leaves.skip fun _ => .step (add_leaves fun _ => ⟨trivial, rfl⟩) fun _ =>
    (withToken_leaves _).mono fun _ _ h => by rw [h]; rfl

theorem process_leaves (c : Card.Command) (buffer : Card.Response) :
    Leaves (process c buffer : Run ε κ τ Card.Response) fun r o => o = [.process c, .answered r] := by
  refine meanwhile_leaves.skip fun _ => .step (add_leaves fun _ => ⟨trivial, rfl⟩) fun _ => ?_
  refine (withToken_leaves _).skip fun answer => ?_
  have ended : Leaves (do add (.answered answer.response); return answer.response : Run ε κ τ Card.Response)
      fun r o => own [.process c] ++ o = [.process c, .answered r] :=
    .step (add_leaves fun _ => ⟨trivial, rfl⟩) fun _ => .pure rfl
  cases answer.takesMs with
  | some ms => exact (elapse_leaves ms).skip fun _ => ended
  | none => exact ended

end token

end Run

end KeyFob
