import KeyFob.Proofs.Provisioning.Ends
import KeyFob.Proofs.Session.Halting
import KeyFob.Tasks

/-!
Requests for a restart in a journal. A task that calls for a restart tells of it only if none is pending; a boot and a
session do not call for one at all, but leave that to their task.
-/

namespace KeyFob

open Restart (Reason)

namespace Entry

def request? : Entry → Option Reason
  | emit (.restartRequested reason) => some reason
  | _ => none

/-- Steps that serve a peer, or make the token forget. -/
def isService : Entry → Bool
  | dial .. | process _ | invalidate => true
  | _ => false

end Entry

def requests (t : List Entry) : List Reason := t.filterMap Entry.request?

theorem requests_append (t u : List Entry) : requests (t ++ u) = requests t ++ requests u := List.filterMap_append

theorem requests_own (t : List Entry) : requests (own t) = requests t := filterMap_own (fun _ => rfl) (fun _ => rfl) t

theorem requests_acted (as : List Action) : requests (as.map .acted) = [] := by
  induction as with
  | nil => rfl
  | cons a as ih => exact ih

theorem mem_requests {t : List Entry} {reason : Reason} :
    reason ∈ requests t ↔ .emit (.restartRequested reason) ∈ t := by
  refine List.mem_filterMap.trans ⟨?_, fun h => ⟨_, h, rfl⟩⟩
  rintro ⟨x, hx, hreason⟩
  cases x with
  | emit e =>
    cases e with
    | restartRequested r =>
      cases hreason
      exact hx
    | _ => cases hreason
  | _ => cases hreason

theorem replayed_acted (as : List Action) (σ : Signals) : replayed σ (as.map .acted) = as.foldl Action.apply σ := by
  rw [replayed, List.foldl_map]
  rfl

namespace Session

open Card (Command)
open Config (Endpoint)

variable {s s' : Session} {o : List Entry} {c : Command}

theorem Dials.unasked {index : Nat} {peer : Endpoint} {r : Dialed} (h : Dials index peer s r s' o) :
    requests o = [] := by
  induction h with
  | again _ ih =>
    rw [requests_append, ih]
    rfl
  | _ => rfl

theorem Answers.unasked {r : Card.Response} {locked : Bool} (h : Answers s c r locked s' o) : requests o = [] := by
  obtain ⟨g, l, rfl, hg, hl⟩ := h.replies
  have hg' : requests g = [] := by
    refine List.filterMap_eq_nil_iff.2 fun x hx => ?_
    have := hg x hx
    cases x <;> first | rfl | cases this
  change requests (g ++ l) = []
  rw [requests_append, hg']
  cases hl <;> rfl

theorem Serves.unasked {r : Outcome} (h : Serves s c r s' o) : requests o = [] := by
  have hpending : requests (pending c) = [] := by
    unfold pending
    split <;> rfl
  cases h with
  | writeFailed h | lockedOut h | served h =>
    rw [requests_append, requests_append, hpending, h.unasked]
    rfl

theorem Connects.unasked {r : Outcome} (h : Connects s r s' o) : requests o = [] := by
  have hdropped (epoch : UInt32) : requests (s.dropped epoch) = [] := by
    unfold dropped
    split <;> rfl
  cases h with
  | readFailed => rfl
  | empty raw epoch hc =>
    change requests (s.dropped epoch ++ _) = []
    rw [requests_append, hdropped]
    rfl
  | command raw epoch hc h =>
    change requests (s.dropped epoch ++ _) = []
    rw [requests_append, hdropped, h.unasked]
    rfl

theorem Cycles.unasked {e : CycleEnd} (h : Cycles s e s' o) : requests o = [] := by
  cases h with
  | halted | waiting | unknown => rfl
  | ended index hn h => exact h.unasked
  | @connected index _ _ _ _ _ _ o o' h h' =>
    change requests (o ++ o') = []
    rw [requests_append, h.unasked, h'.unasked]
    rfl

/-- A session leaves it to its task to ask for a restart. -/
theorem Laps.unasked {e : LoopEnd} (h : Laps s e s' o) : requests o = [] := by
  induction h with
  | halted h | fatal h | waiting h => exact h.unasked
  | next h _ _ ih =>
    rw [requests_append, h.unasked, ih]
    rfl

end Session

/-- A boot leaves that to its task as well, and serves nobody. -/
theorem Lifecycle.stepsThrough_bare (trail : List Provisioning.Stage) :
    requests (stepsThrough trail) = [] ∧ ∀ x ∈ stepsThrough trail, x.isService = false := by
  unfold stepsThrough
  split <;> simp [requests, Entry.request?, Entry.isService]

namespace Run

variable {ε κ τ : Type}

theorem actAll_acts (as : List Action) (d : Device ε κ τ) :
    (actAll as d).2.signals = as.foldl Action.apply d.signals ∧
      (actAll as d).2.journal.toList = d.journal.toList ++ as.map .acted := by
  rw [actAll_eq]
  exact ⟨rfl, by simp [Journal.toList]⟩

variable [Surroundings ε]

theorem meanwhile_acts (d : Device ε κ τ) : ∃ as : List Action,
    (meanwhile d).2.signals = as.foldl Action.apply d.signals ∧
      (meanwhile d).2.journal.toList = d.journal.toList ++ as.map .acted :=
  ⟨_, actAll_acts (Surroundings.meanwhile d.outside).1 { d with outside := (Surroundings.meanwhile d.outside).2 }⟩

theorem emit_acts (e : Event) (d : Device ε κ τ) : ∃ as : List Action,
    (emit e d).2.signals = as.foldl Action.apply d.signals ∧
      (emit e d).2.journal.toList = d.journal.toList ++ .emit e :: as.map .acted := by
  obtain ⟨hσ, hj⟩ := actAll_acts (Surroundings.told e d.outside).1
    { d with outside := (Surroundings.told e d.outside).2, journal := d.journal.add (.emit e) }
  refine ⟨_, hσ, hj.trans ?_⟩
  rw [Journal.toList_add, List.append_assoc]
  rfl

end Run

namespace Tasks

variable {σ σ' : Signals} {t u : List Entry} {reason : Reason}

/-- What a task that calls for a restart leaves, whatever the others do in between: a line where one is pending, and
otherwise its reason, told and then asked for. -/
inductive Asks (reason : Reason) (σ : Signals) : List Entry → Signals → Prop
  | dropped (as : List Action) (n : Note) (h : (as.foldl Action.apply σ).halting = true) :
    Asks reason σ (as.map .acted ++ [.note n]) (as.foldl Action.apply σ)
  | made (as bs : List Action) (h : (as.foldl Action.apply σ).halting = false) :
    Asks reason σ (as.map .acted ++ .emit (.restartRequested reason) :: (bs.map .acted ++ [.acted (.restart reason)]))
      (((as ++ bs).foldl Action.apply σ).request reason)

/-- A journal that tells of one request at most, made while no restart is pending. -/
structure AsksOnce (σ : Signals) (t : List Entry) : Prop where
  once : (requests t).length ≤ 1
  unpending (pre post : List Entry) (r : Reason) (h : t = pre ++ .emit (.restartRequested r) :: post) :
    (replayed σ pre).halting = false

theorem not_asked (h : requests t = []) (r : Reason) : .emit (.restartRequested r) ∉ t := by
  rw [← mem_requests, h]
  exact List.not_mem_nil

theorem AsksOnce.of_unasked (σ : Signals) (h : requests t = []) : AsksOnce σ t where
  once := by simp [h]
  unpending pre post r ht := absurd (by simp [ht]) (not_asked h r)

theorem AsksOnce.behind (h : AsksOnce σ' u) (ht : requests t = []) (hσ : σ' = replayed σ t) : AsksOnce σ (t ++ u) where
  once := by
    rw [requests_append, ht]
    exact h.once
  unpending pre post r hsplit := by
    obtain ⟨pre', rfl, hu⟩ := append_split hsplit (not_asked ht r)
    rw [replayed_append, ← hσ]
    exact h.unpending pre' post r hu

theorem AsksOnce.before (h : AsksOnce σ t) (hu : requests u = []) : AsksOnce σ (t ++ u) where
  once := by
    rw [requests_append, hu, List.append_nil]
    exact h.once
  unpending pre post r hsplit := by
    rcases split_cases hsplit with ⟨b, ht, -⟩ | ⟨pre', -, hu'⟩
    · exact h.unpending pre b r ht
    · exact absurd (by simp [hu']) (not_asked hu r)

/-- From the moment at which a restart is pending nothing more is asked for, and what is pending stays as it is. -/
theorem AsksOnce.pending (h : AsksOnce σ t) (hacc : Accounts σ t σ') {pre post : List Entry} (ht : t = pre ++ post)
    (hpending : (replayed σ pre).halting = true) :
    requests post = [] ∧ σ'.restart = (replayed σ pre).restart := by
  refine ⟨List.eq_nil_iff_forall_not_mem.2 fun r hr => ?_, ?_⟩
  · obtain ⟨a, b, rfl⟩ := List.append_of_mem (mem_requests.1 hr)
    -- The restart would still be pending where the request is told of.
    have hopen := h.unpending (pre ++ a) b r (by rw [ht, List.append_assoc])
    rw [replayed_append, halting_replayed a hpending] at hopen
    cases hopen
  · rw [hacc.eq_replayed, ht, replayed_append]
    exact restart_replayed post hpending

theorem Asks.requests_eq (h : Asks reason σ t σ') : requests t = [] ∨ requests t = [reason] := by
  cases h with
  | dropped as n h =>
    rw [requests_append, requests_acted]
    exact Or.inl rfl
  | made as bs h =>
    have hlast : requests (.emit (.restartRequested reason) :: (bs.map .acted ++ [.acted (.restart reason)])) =
        reason :: requests (bs.map .acted ++ [.acted (.restart reason)]) := rfl
    rw [requests_append, requests_acted, hlast, requests_append, requests_acted]
    exact Or.inr rfl

theorem Asks.asksOnce (h : Asks reason σ t σ') : AsksOnce σ t := by
  cases h with
  | dropped as n h => exact .of_unasked σ (by rw [requests_append, requests_acted]; rfl)
  | made as bs h =>
    have hone : AsksOnce (replayed σ (as.map .acted)) [.emit (.restartRequested reason)] := by
      refine ⟨Nat.le_refl 1, fun pre post r hsplit => ?_⟩
      cases pre with
      | nil =>
        rw [replayed_acted]
        exact h
      | cons x pre => simp at hsplit
    have hrest : requests (bs.map .acted ++ [.acted (.restart reason)]) = [] := by
      rw [requests_append, requests_acted]
      rfl
    exact (hone.before hrest).behind (requests_acted as) rfl

/-- Neither the others nor the request itself serve anybody. -/
theorem Asks.unserved (h : Asks reason σ t σ') : ∀ x ∈ t, x.isService = false := by
  have acted (as : List Action) : ∀ x ∈ as.map Entry.acted, x.isService = false := by
    intro x hx
    obtain ⟨a, -, rfl⟩ := List.mem_map.1 hx
    rfl
  cases h with
  | dropped as n h => exact List.forall_mem_append.2 ⟨acted as, by simp [Entry.isService]⟩
  | made as bs h =>
    refine List.forall_mem_append.2 ⟨acted as, List.forall_mem_cons.2 ⟨rfl, ?_⟩⟩
    exact List.forall_mem_append.2 ⟨acted bs, by simp [Entry.isService]⟩

variable {ε κ τ : Type} [Surroundings ε]

theorem request_asks (reason : Reason) (d : Device ε κ τ) :
    ∃ t, (request reason d).2.journal.toList = d.journal.toList ++ t ∧
      Asks reason d.signals t (request reason d).2.signals := by
  obtain ⟨as, hσ, hj⟩ := Run.meanwhile_acts d
  have hlook : Run.halting d = ((Run.meanwhile d).2.signals.halting, (Run.meanwhile d).2) := rfl
  unfold request
  rw [Run.bind_apply, hlook]
  generalize (Run.meanwhile d).2 = d₁ at hσ hj
  cases h : d₁.signals.halting with
  | true =>
    let n : Note := .log ⟨.warn, .coordinator, "RESTART | already pending, dropping '" ++ reason.text ++ "'"⟩
    refine ⟨as.map .acted ++ [.note n], ?_, ?_⟩
    · rw [← List.append_assoc, ← hj]
      exact Journal.toList_add _ _
    · change Asks reason d.signals _ d₁.signals
      rw [hσ]
      exact .dropped as n (hσ ▸ h)
  | false =>
    obtain ⟨bs, hσ', hj'⟩ := Run.emit_acts (.restartRequested reason) d₁
    refine ⟨as.map .acted ++ .emit (.restartRequested reason) :: (bs.map .acted ++ [.acted (.restart reason)]), ?_, ?_⟩
    · change ((Run.emit _ d₁).2.journal.add (.acted (.restart reason))).toList = _
      rw [Journal.toList_add, hj', hj]
      simp
    · change Asks reason d.signals _ ((Run.emit _ d₁).2.signals.request reason)
      rw [hσ', hσ, ← List.foldl_append]
      exact .made as bs (hσ ▸ h)

end Tasks

end KeyFob
