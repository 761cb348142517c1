import KeyFob.Proofs.Journal.Leaves

/-!
Restarts that are pending. Nothing that anybody does takes a request back or puts another reason in its place, so an
activity that has found a restart pending, or has asked for one itself, leaves it pending whatever it does from there.
-/

namespace KeyFob

theorem Entry.restart_replay (x : Entry) {s : Signals} (h : s.halting = true) : (x.replay s).restart = s.restart := by
  cases x with
  | acted a =>
    cases a with
    | restart r => exact s.restart.request_of_halting r h
    | _ => rfl
  | _ => rfl

/-- No entry of a journal does anything to a restart that is pending. -/
theorem restart_replayed (t : List Entry) {s : Signals} (h : s.halting = true) :
    (replayed s t).restart = s.restart := by
  induction t generalizing s with
  | nil => rfl
  | cons x t ih =>
    have hx : (x.replay s).restart = s.restart := x.restart_replay h
    have hhalting : (x.replay s).halting = true := by
      rw [Signals.halting, hx]
      exact h
    exact (ih hhalting).trans hx

theorem halting_replayed (t : List Entry) {s : Signals} (h : s.halting = true) : (replayed s t).halting = true := by
  rw [Signals.halting, restart_replayed t h]
  exact h

variable {ε κ τ α β : Type}

/-- The activity does nothing to a restart that is pending. -/
def KeepsPending (m : Run ε κ τ α) : Prop :=
  ∀ d, d.signals.halting = true → (m d).2.signals.restart = d.signals.restart

namespace KeepsPending

variable {m : Run ε κ τ α} {f : α → Run ε κ τ β}

theorem halting (h : KeepsPending m) {d : Device ε κ τ} (hd : d.signals.halting = true) :
    (m d).2.signals.halting = true := by
  rw [Signals.halting, h d hd]
  exact hd

theorem pure (a : α) : KeepsPending (Pure.pure a : Run ε κ τ α) := fun _ _ => rfl

theorem bind (hm : KeepsPending m) (hf : ∀ a, KeepsPending (f a)) : KeepsPending (m >>= f) :=
  fun d hd => (hf (m d).1 (m d).2 (hm.halting hd)).trans (hm d hd)

theorem of_leaves {P : α → List Entry → Prop} (h : Leaves m P) : KeepsPending m := by
  intro d hd
  obtain ⟨t, -, hs, -⟩ := h d
  rw [hs.eq_replayed]
  exact restart_replayed t hd

end KeepsPending

/-- Where it ends with a result like this the activity leaves a restart pending; and one that was pending before is left
alone. -/
structure EndsPending (m : Run ε κ τ α) (p : α → Prop) : Prop where
  kept : KeepsPending m
  ended (d : Device ε κ τ) (h : p (m d).1) : (m d).2.signals.halting = true

namespace EndsPending

variable {m : Run ε κ τ α} {f : α → Run ε κ τ β} {p : α → Prop} {q : β → Prop}

theorem pure {a : α} (h : ¬ p a) : EndsPending (Pure.pure a : Run ε κ τ α) p := ⟨.pure a, fun _ ha => absurd ha h⟩

/-- A first step that no restart need be pending behind. -/
theorem after (hm : KeepsPending m) (hf : ∀ a, EndsPending (f a) q) : EndsPending (m >>= f) q where
  kept := hm.bind fun a => (hf a).kept
  ended d h := (hf (m d).1).ended (m d).2 h

/-- Where the first step has left a restart pending, the rest need only leave it alone. -/
theorem bind (hm : EndsPending m p) (hf : ∀ a, p a → KeepsPending (f a)) (hf' : ∀ a, ¬ p a → EndsPending (f a) q) :
    EndsPending (m >>= f) q where
  kept := hm.kept.bind fun a => by
    by_cases h : p a
    · exact hf a h
    · exact (hf' a h).kept
  ended d h := by
    by_cases hp : p (m d).1
    · exact (hf _ hp).halting (hm.ended d hp)
    · exact (hf' _ hp).ended (m d).2 h

/-- Behind a look that has found a restart pending the activity need only leave it alone. -/
theorem branch {m : Run ε κ τ Bool} {f : Bool → Run ε κ τ β} (hm : EndsPending m (· = true)) (h : KeepsPending (f true))
    (h' : EndsPending (f false) q) : EndsPending (m >>= f) q := by
  refine hm.bind (fun b hb => ?_) fun b hb => ?_
  · rw [hb]
    exact h
  · rw [Bool.eq_false_iff.2 hb]
    exact h'

/-- Behind a step that always leaves a restart pending. -/
theorem then_keeps (hm : EndsPending m fun _ => True) (hf : ∀ a, KeepsPending (f a)) : EndsPending (m >>= f) q :=
  hm.bind (fun a _ => hf a) fun _ h => absurd trivial h

end EndsPending

namespace Run

theorem act_restart_pending (r : Restart.Reason) : EndsPending (act (.restart r) : Run ε κ τ Unit) fun _ => True where
  kept := .of_leaves (act_leaves _)
  ended d _ := d.signals.restart.halting_request r

theorem halting_pending [Surroundings ε] : EndsPending (halting : Run ε κ τ Bool) (· = true) where
  kept := .of_leaves halting_leaves
  ended _ h := h

end Run

end KeyFob
