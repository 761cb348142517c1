import KeyFob.Journal

/-!
Reading a journal from its front with a state in mind: what each entry makes of the state, and what an entry must agree
with. A journal tells of a state if it can be read so to its end.
-/

namespace KeyFob

structure Reading (σ : Type) where
  next : σ → Entry → σ
  Fits : σ → Entry → Prop

namespace Reading

variable {σ : Type} {r : Reading σ} {s m s' : σ} {t u : List Entry} {e : Entry}

def after (r : Reading σ) (s : σ) (t : List Entry) : σ := t.foldl r.next s

def Tells (r : Reading σ) : σ → List Entry → σ → Prop
  | s, [], s' => s' = s
  | s, e :: t, s' => r.Fits s e ∧ r.Tells (r.next s e) t s'

theorem after_append (s : σ) (t u : List Entry) : r.after s (t ++ u) = r.after (r.after s t) u := List.foldl_append

theorem tells_append : r.Tells s (t ++ u) s' ↔ ∃ m, r.Tells s t m ∧ r.Tells m u s' := by
  induction t generalizing s with
  | nil => simp [Tells]
  | cons e t ih => simp only [List.cons_append, Tells, ih, exists_and_left, and_assoc]

theorem Tells.append (h : r.Tells s t m) (h' : r.Tells m u s') : r.Tells s (t ++ u) s' := tells_append.2 ⟨m, h, h'⟩

theorem Tells.eq_after (h : r.Tells s t s') : s' = r.after s t := by
  induction t generalizing s with
  | nil => exact h
  | cons e t ih => exact ih h.2

/-- An entry agrees with what the part in front of it makes of the state. -/
theorem Tells.fits (h : r.Tells s (t ++ e :: u) s') : r.Fits (r.after s t) e ∧ r.Tells (r.next (r.after s t) e) u s' := by
  obtain ⟨m, ht, he, hu⟩ := tells_append.1 h
  obtain rfl := ht.eq_after
  exact ⟨he, hu⟩

def Ignores (r : Reading σ) (p : Entry → Bool) : Prop := ∀ s e, p e = false → r.next s e = s ∧ r.Fits s e

theorem Ignores.mono {p q : Entry → Bool} (hp : r.Ignores p) (hq : ∀ e, q e = false → p e = false) : r.Ignores q :=
  fun s e h => hp s e (hq e h)

theorem Ignores.tells {p : Entry → Bool} (hp : r.Ignores p) (h : ∀ e ∈ t, p e = false) : r.Tells s t s := by
  induction t with
  | nil => rfl
  | cons e t ih =>
    rw [List.forall_mem_cons] at h
    obtain ⟨hnext, hfits⟩ := hp s e h.1
    refine ⟨hfits, ?_⟩
    rw [hnext]
    exact ih h.2

theorem Ignores.after {p : Entry → Bool} (hp : r.Ignores p) (h : ∀ e ∈ t, p e = false) : r.after s t = s :=
  (hp.tells h).eq_after.symm

theorem Ignores.tells_filter {p : Entry → Bool} (hp : r.Ignores p) :
    r.Tells s (t.filter p) s' ↔ r.Tells s t s' := by
  induction t generalizing s with
  | nil => rfl
  | cons e t ih =>
    cases he : p e with
    | true =>
      rw [List.filter_cons_of_pos he]
      simp only [Tells, ih]
    | false =>
      obtain ⟨hnext, hfits⟩ := hp s e he
      rw [List.filter_cons_of_neg (by simp [he])]
      simp only [Tells, ih, hnext, hfits, true_and]

end Reading

end KeyFob
