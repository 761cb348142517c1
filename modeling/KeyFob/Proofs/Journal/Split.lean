import KeyFob.Proofs.Journal.Leaves

/-!
Splitting a journal at an entry. Two splits of one list either agree or one of them comes first, and a split of the own
steps of a trail, or of trails put together, comes from a split of a trail.
-/

namespace KeyFob

/-- An entry of two parts stands in the first or in the second. -/
theorem split_cases {α : Type} {a j pre post : List α} {y : α} (h : a ++ j = pre ++ y :: post) :
    (∃ b, a = pre ++ y :: b ∧ post = b ++ j) ∨ ∃ pre', pre = a ++ pre' ∧ j = pre' ++ y :: post := by
  rcases List.append_eq_append_iff.1 h with h' | ⟨b, rfl, hb⟩
  · exact Or.inr h'
  · cases b with
    | nil => exact Or.inr ⟨[], by simp, hb.symm⟩
    | cons z b =>
      obtain ⟨rfl, rfl⟩ := List.cons.inj hb
      exact Or.inl ⟨b, rfl, rfl⟩

theorem append_cons_cases {α : Type} {u v u' v' : List α} {y y' : α} (h : u ++ y :: v = u' ++ y' :: v') :
    (u = u' ∧ y = y' ∧ v = v') ∨ (∃ m, u' = u ++ y :: m ∧ v = m ++ y' :: v') ∨
      ∃ m, u = u' ++ y' :: m ∧ v' = m ++ y :: v := by
  rcases split_cases h with h' | ⟨m, rfl, hm⟩
  · exact Or.inr (Or.inr h')
  · cases m with
    | nil =>
      obtain ⟨rfl, rfl⟩ := List.cons.inj hm
      exact Or.inl ⟨by simp, rfl, rfl⟩
    | cons z m =>
      obtain ⟨rfl, rfl⟩ := List.cons.inj hm
      exact Or.inr (Or.inl ⟨m, rfl, rfl⟩)

/-- An entry that is not in the first part splits the second. -/
theorem append_split {α : Type} {a j pre post : List α} {y : α} (h : a ++ j = pre ++ y :: post) (hy : y ∉ a) :
    ∃ pre', pre = a ++ pre' ∧ j = pre' ++ y :: post := by
  refine (split_cases h).resolve_left ?_
  rintro ⟨b, rfl, -⟩
  simp at hy

theorem flatten_split {α : Type} {ts : List (List α)} {pre post : List α} {y : α} (h : ts.flatten = pre ++ y :: post) :
    ∃ before t after a b, ts = before ++ t :: after ∧ t = a ++ y :: b ∧ pre = before.flatten ++ a ∧
      post = b ++ after.flatten := by
  induction ts generalizing pre with
  | nil => simp at h
  | cons t ts ih =>
    rw [List.flatten_cons] at h
    rcases split_cases h with ⟨b, rfl, rfl⟩ | ⟨pre', rfl, hts⟩
    · exact ⟨[], _, ts, pre, b, rfl, rfl, rfl, rfl⟩
    · obtain ⟨before, t', after, a, b, rfl, rfl, rfl, rfl⟩ := ih hts
      exact ⟨t :: before, _, after, a, b, rfl, rfl, by simp, rfl⟩

theorem mem_own {t : List Entry} {x : Entry} : x ∈ own t ↔ x ∈ t ∧ x.isOwn = true := List.mem_filter

/-- What none of the own steps does, nothing in the trail does, if it takes an own step to do it. -/
theorem forall_of_own {t : List Entry} {p : Entry → Bool} (hp : ∀ x, x.isOwn = false → p x = false)
    (h : ∀ x ∈ own t, p x = false) : ∀ x ∈ t, p x = false := by
  intro x hx
  cases ho : x.isOwn with
  | true => exact h x (mem_own.2 ⟨hx, ho⟩)
  | false => exact hp x ho

theorem own_split {t l l' : List Entry} {x : Entry} (h : own t = l ++ x :: l') :
    ∃ u v, t = u ++ x :: v ∧ own u = l ∧ own v = l' := by
  obtain ⟨u, w, rfl, hu, hw⟩ := List.filter_eq_append_iff.1 h
  obtain ⟨w₁, v, rfl, hw₁, -, hv⟩ := List.filter_eq_cons_iff.1 hw
  refine ⟨u ++ w₁, v, by simp, ?_, hv⟩
  have : own w₁ = [] := List.filter_eq_nil_iff.2 hw₁
  rw [own_append, this, List.append_nil]
  exact hu

end KeyFob
