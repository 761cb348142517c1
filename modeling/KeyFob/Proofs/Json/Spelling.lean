import KeyFob.Proofs.Json.Leaves
import Mathlib.Data.List.Basic

/-!
What can be written. Every number and every text has a spelling, and so has a tree whose leaves have one.
-/

namespace KeyFob.Json

/-- Some text writes this tree. -/
def Spelled (v : Value) : Prop := ∃ cs, Spells cs v

theorem Spells.padded {cs : List Char} {v : Value} (h : Spells cs v) : Padded cs v := by
  simpa using Padded.intro blank_nil h blank_nil

theorem Spelled.exists_text {v : Value} (h : Spelled v) : ∃ text, Writes text v := by
  obtain ⟨cs, h⟩ := h
  exact ⟨String.ofList cs, by simpa [Writes] using h.padded⟩

theorem spelled_bool (b : Bool) : Spelled (.bool b) := by
  cases b with
  | false => exact ⟨_, .ofFalse⟩
  | true => exact ⟨_, .ofTrue⟩

section numbers

/-- No needless zero stands in front of the digits of a number. -/
theorem toDigits_unpadded (n : Nat) (h : (Nat.toDigits 10 n).head? = some '0') : Nat.toDigits 10 n = ['0'] := by
  induction n using Nat.strongRecOn with
  | ind n ih =>
    rcases Nat.lt_or_ge n 10 with hlt | hge
    · rw [Nat.toDigits_of_lt_base hlt] at h ⊢
      rw [Option.some.inj h]
    · have hdiv : 0 < n / 10 := Nat.div_pos hge (by decide)
      have hne : Nat.toDigits 10 (n / 10) ≠ [] := Nat.toDigits_ne_nil
      rw [Nat.toDigits_of_base_le (by decide) hge, List.head?_append_of_ne_nil _ hne] at h
      -- the digits before the last one are those of a smaller number, which is not zero
      have hzero := congrArg (Nat.ofDigitChars 10 · 0) (ih (n / 10) (by omega) h)
      rw [Nat.ofDigitChars_ten_toDigits] at hzero
      exact absurd (hzero.trans (by decide)) (Nat.ne_of_gt hdiv)

theorem whole_toDigits (n : Nat) : Whole (Nat.toDigits 10 n) where
  nonempty := Nat.toDigits_ne_nil
  digit _ := Nat.isDigit_of_mem_toDigits (by decide) (by decide)
  unpadded := toDigits_unpadded n

theorem spelled_natural (n : Nat) : Spelled (.number ⟨false, Nat.toDigits 10 n, none, none⟩) :=
  ⟨_, .number (.inl rfl) ⟨whole_toDigits n, nofun, nofun⟩⟩

end numbers

section strings

/-- An escape for a character that cannot stand as it is. -/
theorem text?_hex {n : Nat} (h : n < 0x80) (us : List Unit16) : text? (.hex n :: us) = (text? us).map (Char.ofNat n :: ·) := by
  have hhigh : isHighSurrogate n = false := by simp [isHighSurrogate]; omega
  have hlow : isLowSurrogate n = false := by simp [isLowSurrogate]; omega
  rcases us with _ | ⟨_ | _ | _, us⟩ <;> simp [text?, hhigh, hlow]

theorem hexValue?_digitChar : ∀ x < 16, hexValue? (Nat.digitChar x) = some x := by decide

/-- Every text can stand between quotes. -/
theorem exists_units (cs : List Char) : ∃ ds us, Units ds us ∧ text? us = some cs := by
  induction cs with
  | nil => exact ⟨[], [], .nil, rfl⟩
  | cons c cs ih =>
    obtain ⟨ds, us, hus, htext⟩ := ih
    by_cases hplain : 0x20 ≤ c.toNat ∧ c ≠ '"' ∧ c ≠ '\\'
    · exact ⟨_, _, .char hplain.1 hplain.2.1 hplain.2.2 hus, by simp [text?, htext]⟩
    · have hlt : c.toNat < 0x80 := by
        by_cases hcontrol : 0x20 ≤ c.toNat
        · by_cases hquote : c = '"'
          · simp [hquote]
          · have hescape : c = '\\' := by simpa [hcontrol, hquote] using hplain
            simp [hescape]
        · omega
      have hzero := hexValue?_digitChar 0 (by decide)
      have hhigh := hexValue?_digitChar (c.toNat / 16) (by omega)
      have hlow := hexValue?_digitChar (c.toNat % 16) (by omega)
      refine ⟨_, _, .hex hzero hzero hhigh hlow hus, ?_⟩
      have hunit : 0 * 4096 + 0 * 256 + c.toNat / 16 * 16 + c.toNat % 16 = c.toNat := by omega
      rw [hunit, text?_hex hlt, htext, Option.map_some, Char.ofNat_toNat]

theorem spelled_string {ds : List Char} {us : List Unit16} (h : Units ds us) : Spelled (.string us) := ⟨_, .string h⟩

end strings

theorem exists_items {items : List Value} (h : ∀ v ∈ items, Spelled v) (hne : items ≠ []) : ∃ cs, Items cs items := by
  induction items with
  | nil => exact absurd rfl hne
  | cons v items ih =>
    rw [List.forall_mem_cons] at h
    obtain ⟨⟨cs, hcs⟩, hrest⟩ := h
    by_cases hnil : items = []
    · subst hnil
      exact ⟨_, .last hcs.padded⟩
    · obtain ⟨ds, hds⟩ := ih hrest hnil
      exact ⟨_, .cons hcs.padded hds⟩

theorem spelled_array {items : List Value} (h : ∀ v ∈ items, Spelled v) : Spelled (.array items) := by
  by_cases hnil : items = []
  · subst hnil
    exact ⟨_, .emptyArray blank_nil⟩
  · obtain ⟨cs, hcs⟩ := exists_items h hnil
    exact ⟨_, .array hcs⟩

theorem exists_members {members : List (List Unit16 × Value)} (h : ∀ m ∈ members, (∃ ds, Units ds m.1) ∧ Spelled m.2)
    (hne : members ≠ []) : ∃ cs, Members cs members := by
  induction members with
  | nil => exact absurd rfl hne
  | cons m members ih =>
    rw [List.forall_mem_cons] at h
    obtain ⟨⟨⟨ns, hns⟩, cs, hcs⟩, hrest⟩ := h
    have hname : Name _ m.1 := .intro blank_nil hns blank_nil
    by_cases hnil : members = []
    · subst hnil
      exact ⟨_, .last hname hcs.padded⟩
    · obtain ⟨ds, hds⟩ := ih hrest hnil
      exact ⟨_, .cons hname hcs.padded hds⟩

theorem spelled_object {members : List (List Unit16 × Value)} (h : ∀ m ∈ members, (∃ ds, Units ds m.1) ∧ Spelled m.2) :
    Spelled (.object members) := by
  by_cases hnil : members = []
  · subst hnil
    exact ⟨_, .emptyObject blank_nil⟩
  · obtain ⟨cs, hcs⟩ := exists_members h hnil
    exact ⟨_, .object hcs⟩

end KeyFob.Json
