import KeyFob.Proofs.Provisioning.Mark
import KeyFob.Provisioning.Lifecycle

/-!
What a boot brings about, put together from what reading the mark, making secrets, marking, reloading and erasing bring
about on their own. A boot whose reads succeed initializes an unmarked fob and restores a marked one.
-/

namespace KeyFob

def Entry.failedRead : Entry → Bool
  | note (.read _ _ _ (.error _)) => true
  | _ => false

theorem exists_failedRead {ns : List Note} (h : ReadFailed ns) : ∃ e ∈ vaultTrail (ns.map .note), e.failedRead = true := by
  obtain ⟨name, key, size, e, hmem⟩ := h
  exact ⟨_, List.mem_filter.2 ⟨List.mem_map_of_mem hmem, rfl⟩, rfl⟩

theorem generate_not_mem (ns : List Note) : Entry.generate ∉ vaultTrail (ns.map .note) := by
  intro h
  obtain ⟨n, -, hn⟩ := List.mem_map.1 (List.mem_filter.1 h).1
  cases hn

theorem generate_not_mem_cons {e : Entry} (he : e ≠ .generate) (ns : List Note) :
    .generate ∉ e :: vaultTrail (ns.map .note) :=
  List.not_mem_cons_of_ne_of_not_mem he.symm (generate_not_mem ns)

section stumbled

variable {κ τ : Type} {v v' : Vault κ τ} {J w : List Entry}

def Stumbled (J : List Entry) (v : Vault κ τ) : Prop :=
  ∃ w, v.trail = J ++ w ∧ ∃ e ∈ w, e.failedRead = true

theorem stumbled_of_notes {ns : List Note} (u : List Entry)
    (hv : v.trail = J ++ (u ++ vaultTrail (ns.map .note))) (h : ReadFailed ns) : Stumbled J v := by
  obtain ⟨e, he, hfailed⟩ := exists_failedRead h
  exact ⟨_, hv, e, List.mem_append_right _ he, hfailed⟩

theorem Stumbled.later (h : Stumbled J v) (hv : v'.trail = v.trail ++ w) :
    Stumbled J v' := by
  obtain ⟨w', hw', e, he, hfailed⟩ := h
  exact ⟨w' ++ w, by rw [hv, hw', List.append_assoc], e, List.mem_append_left _ he, hfailed⟩

theorem Stumbled.earlier (h : Stumbled (J ++ w) v) : Stumbled J v := by
  obtain ⟨w', hw', e, he, hfailed⟩ := h
  exact ⟨w ++ w', by rw [hw', List.append_assoc], e, List.mem_append_right _ he, hfailed⟩

end stumbled

theorem Provisioning.isProvisioned_brings {ε κ τ : Type} [Storage κ] [Honest κ] (v₀ : Vault κ τ) :
    Brings (· = v₀) (Run.onShelf isProvisioned : Run ε κ τ _) fun r v =>
      Honest.contents v.store = Honest.contents v₀.store ∧ v.token = v₀.token ∧
        (∃ w, .generate ∉ w ∧ v.trail = v₀.trail ++ w) ∧
        match r with
        | .ok true => Marked (Honest.contents v₀.store)
        | .ok false => ¬ Marked (Honest.contents v₀.store)
        | .error _ => Stumbled v₀.trail v := by
  refine .onShelf ?_
  rintro v₀ rfl
  obtain ⟨hC, hr⟩ := isProvisioned_leads ⟨v₀.store, []⟩ rfl
  refine ⟨hC, rfl, ⟨_, generate_not_mem _, rfl⟩, ?_⟩
  revert hr
  cases (isProvisioned ⟨v₀.store, []⟩).1 with
  | error e => exact stumbled_of_notes [] rfl
  | ok b => cases b <;> exact id

namespace Lifecycle

open Provisioning (Stage Marked)

/-- Where a boot stands that has entered a stage. -/
def entered (l : Lifecycle) (target : Stage) : Lifecycle := { l with
  stage := target
  trail := if l.trail.length < maxTrail then l.trail ++ [target] else l.trail }

def ending : Except ProvisionError Unit → Stage
  | .ok () => .ready
  | .error _ => .failed

variable {ε κ τ : Type} {P : Vault κ τ → Prop} {l : Lifecycle}

theorem enter_brings [Surroundings ε] (l : Lifecycle) (target : Stage) :
    Brings P (l.enter target : Run ε κ τ Lifecycle) fun l' v => P v ∧ l' = l.entered target :=
  .after (Run.log_bystands _ _ _) fun _ => .after (Run.emit_bystands _) fun _ => .pure fun _ h => ⟨h, rfl⟩

variable [Storage κ] [Token κ τ] {A Q : Except ProvisionError Unit → Vault κ τ → Prop}

theorem generateAndMark_brings (hgenerate : Brings P (Run.generate : Run ε κ τ _) A)
    (hfailed : ∀ e v, A (.error e) v → Q (.error e) v)
    (hmark : Brings (A (.ok ())) (Run.onShelf Provisioning.mark : Run ε κ τ _) fun r => Q (r.mapError .storage)) :
    Brings P (generateAndMark : Run ε κ τ _) Q := by
  refine hgenerate.bind fun r => ?_
  cases r with
  | error e => exact .pure (hfailed e)
  | ok _ =>
  refine hmark.bind fun r => ?_
  cases r with
  | error e => exact .pure fun _ h => h
  | ok _ => exact .pure fun _ h => h

theorem restoreOrErase_brings (reinit : Bool) (hrestore : Brings P (Run.restore : Run ε κ τ _) A)
    (hrestored : ∀ v, A (.ok ()) v → Q (.ok ()) v) (hfailed : reinit = false → ∀ e v, A (.error e) v → Q (.error e) v)
    (herase : reinit = true → ∀ e,
      Brings (A (.error e)) (Run.onShelf Provisioning.erase : Run ε κ τ _) fun _ => Q (.error e)) :
    Brings P (restoreOrErase reinit : Run ε κ τ _) Q := by
  refine hrestore.bind fun r => ?_
  cases r with
  | ok _ => exact .pure hrestored
  | error e =>
    cases reinit with
    | false => exact .pure (hfailed rfl e)
    | true =>
      refine .after (Run.log_bystands _ _ _) fun _ => (herase rfl e).bind fun r => ?_
      cases r with
      | ok _ => exact .pure fun _ h => h
      | error e => exact .after (Run.log_bystands _ _ _) fun _ => .pure fun _ h => h

variable [Surroundings ε] {B : Except StorageError Bool → Vault κ τ → Prop}
  {R : Except ProvisionError Unit × Lifecycle → Vault κ τ → Prop}

theorem decide_brings (hread : Brings P (Run.onShelf Provisioning.isProvisioned : Run ε κ τ _) B)
    (hfailed : ∀ e v, B (.error e) v → R (.error (.storage e), l) v)
    (hunmarked : Brings (B (.ok false)) (generateAndMark : Run ε κ τ _) fun r => R (r, l.entered .initializing))
    (hmarked : Brings (B (.ok true)) (restoreOrErase l.reinit : Run ε κ τ _) fun r => R (r, l.entered .restoring)) :
    Brings P (l.decide : Run ε κ τ _) R := by
  refine hread.bind fun r => ?_
  cases r with
  | error e => exact .pure (hfailed e)
  | ok marked =>
    cases marked with
    | false =>
      refine (enter_brings l .initializing).bind fun l' => ?_
      rintro d ⟨hd, rfl⟩
      exact hunmarked d hd
    | true =>
      refine (enter_brings l .restoring).bind fun l' => ?_
      rintro d ⟨hd, rfl⟩
      exact hmarked d hd

theorem run_brings (h : Brings P (l.decide : Run ε κ τ _) fun r => R (r.1, r.2.entered (ending r.1))) :
    Brings P (l.run : Run ε κ τ _) R := by
  refine .after (Run.led_bystands _ _) fun _ => h.bind fun (r, l') => .after (Run.led_bystands _ _) fun _ => ?_
  cases r with
  | ok _ =>
    refine (enter_brings l' .ready).bind fun l'' => .pure ?_
    rintro v ⟨hv, rfl⟩
    exact hv
  | error e =>
    refine .after (Run.log_bystands _ _ _) fun _ => (enter_brings l' .failed).bind fun l'' => .pure ?_
    rintro v ⟨hv, rfl⟩
    exact hv

/-- A boot that can read the mark initializes an unmarked fob and restores a marked one. -/
theorem run_stages [Honest κ] (v₀ : Vault κ τ) (reinit : Bool) :
    Brings (· = v₀) (run { reinit } : Run ε κ τ _) fun r v =>
      (¬ Marked (Honest.contents v₀.store) ∧ r.2.trail = [.start, .initializing, ending r.1]) ∨
      (Marked (Honest.contents v₀.store) ∧ r.2.trail = [.start, .restoring, ending r.1]) ∨
      (Stumbled v₀.trail v ∧ r.2.trail = [.start, .failed]) := by
  refine run_brings (decide_brings (Provisioning.isProvisioned_brings v₀) ?_ ?_ ?_)
  · exact fun e v h => Or.inr (Or.inr ⟨h.2.2.2, rfl⟩)
  · exact fun d h => Or.inl ⟨h.2.2.2, rfl⟩
  · exact fun d h => Or.inr (Or.inl ⟨h.2.2.2, rfl⟩)

end Lifecycle

end KeyFob
