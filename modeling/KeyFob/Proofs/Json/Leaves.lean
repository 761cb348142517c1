import KeyFob.Proofs.Json.Grammar

/-!
Reading the parts of JSON text that hold no other values: blanks, words, numbers and strings. For each of them the reader
takes the longest beginning that the grammar allows, and nothing else.
-/

namespace KeyFob.Json

variable {s t w : List Char}

/-- What a text starts with, if it starts with anything, fails a test. -/
def Stops (p : Char → Bool) (t : List Char) : Prop := ∀ c, t.head? = some c → p c = false

@[simp] theorem stops_nil (p : Char → Bool) : Stops p [] := nofun

@[simp] theorem stops_cons {p : Char → Bool} {c : Char} : Stops p (c :: t) ↔ p c = false := by simp [Stops]

/-- A text is taken apart where the test first fails. -/
theorem span_eq_iff {p : Char → Bool} {a b : List Char} :
    (s.takeWhile p = a ∧ s.dropWhile p = b) ↔ s = a ++ b ∧ (∀ c ∈ a, p c = true) ∧ Stops p b := by
  constructor
  · rintro ⟨rfl, rfl⟩
    refine ⟨List.takeWhile_append_dropWhile.symm, fun c hc => ?_, fun c hc => ?_⟩
    · exact List.all_eq_true.1 List.all_takeWhile c hc
    · simpa [hc] using List.head?_dropWhile_not p s
  · rintro ⟨rfl, ha, hb⟩
    have hstop : b.takeWhile p = [] ∧ b.dropWhile p = b := by
      cases b with
      | nil => exact ⟨rfl, rfl⟩
      | cons c b => simp [stops_cons.1 hb]
    rw [List.takeWhile_append_of_pos ha, List.dropWhile_append_of_pos ha, hstop.1, hstop.2, List.append_nil]
    exact ⟨rfl, rfl⟩

theorem skipBlanks_eq_iff : skipBlanks s = t ↔ (∃ w, Blank w ∧ s = w ++ t) ∧ Stops isBlank t := by
  constructor
  · intro h
    obtain ⟨hs, hw, ht⟩ := span_eq_iff.1 ⟨rfl, h⟩
    exact ⟨⟨_, hw, hs⟩, ht⟩
  · rintro ⟨⟨w, hw, hs⟩, ht⟩
    exact (span_eq_iff.2 ⟨hs, hw, ht⟩).2

theorem skipBlanks_append (hw : Blank w) (ht : Stops isBlank t) : skipBlanks (w ++ t) = t :=
  skipBlanks_eq_iff.2 ⟨⟨w, hw, rfl⟩, ht⟩

theorem blank_nil : Blank [] := nofun

theorem expect?_eq_some {word : List Char} : expect? word s = some t ↔ s = word ++ t := by
  induction word generalizing s with
  | nil => simp [expect?]
  | cons c word ih =>
    cases s with
    | nil => simp [expect?]
    | cons d s =>
      rw [expect?]
      split
      · next h => simp [ih, h]
      · next h => simp [Ne.symm h]

/-- The quote that opens a name or the colon behind it, with blanks in front. -/
theorem expect?_skipBlanks {c : Char} (hc : isBlank c = false) :
    expect? [c] (skipBlanks s) = some t ↔ ∃ w, Blank w ∧ s = w ++ c :: t := by
  rw [expect?_eq_some, List.singleton_append, skipBlanks_eq_iff]
  simp [hc]

section numbers

variable {ds : List Char}

theorem someDigits?_eq_some : someDigits? s = some (ds, t) ↔ s = ds ++ t ∧ Digits ds ∧ Stops Char.isDigit t := by
  have hspan := span_eq_iff (p := Char.isDigit) (s := s) (a := ds) (b := t)
  have hsome : someDigits? s = some (ds, t) ↔ ds ≠ [] ∧ s.takeWhile Char.isDigit = ds ∧ s.dropWhile Char.isDigit = t := by
    rw [someDigits?, digits]
    cases s.takeWhile Char.isDigit with
    | nil => simp +contextual [eq_comm]
    | cons d ds' => simp +contextual [eq_comm]
  rw [hsome, hspan]
  exact ⟨fun ⟨hne, hs, hall, ht⟩ => ⟨hs, ⟨hne, hall⟩, ht⟩, fun ⟨hs, hds, ht⟩ => ⟨hds.nonempty, hs, hds.digit, ht⟩⟩

theorem whole?_of_zero : whole? ('0' :: s) = some (ds, t) ↔ ds = ['0'] ∧ s = t ∧ Stops Char.isDigit t := by
  rcases s with _ | ⟨c, s⟩
  · simp +contextual [whole?, eq_comm]
  · by_cases hc : c.isDigit = true
    · simp +contextual [whole?, hc]
      rintro - rfl
      simp [hc]
    · simp only [whole?, hc, Bool.false_eq_true, if_false, Option.some.injEq, Prod.mk.injEq]
      refine ⟨fun ⟨hds, ht⟩ => ⟨hds.symm, ht, ?_⟩, fun ⟨hds, ht, _⟩ => ⟨hds.symm, ht⟩⟩
      simpa [← ht] using hc

theorem whole?_eq_some : whole? s = some (ds, t) ↔ s = ds ++ t ∧ Whole ds ∧ Stops Char.isDigit t := by
  by_cases hzero : ∃ s', s = '0' :: s'
  · obtain ⟨s', rfl⟩ := hzero
    rw [whole?_of_zero]
    constructor
    · rintro ⟨rfl, rfl, ht⟩
      exact ⟨rfl, ⟨⟨by simp, by simp⟩, fun _ => rfl⟩, ht⟩
    · rintro ⟨hs, hds, ht⟩
      have hhead : ds.head? = some '0' := by
        rcases ds with _ | ⟨d, ds⟩
        · exact absurd rfl hds.nonempty
        · exact congrArg some (List.cons.inj hs).1.symm
      obtain rfl := hds.unpadded hhead
      exact ⟨rfl, (List.cons.inj hs).2, ht⟩
  · have hwhole : whole? s = someDigits? s := by
      unfold whole?
      split
      · next s' => exact absurd ⟨s', rfl⟩ hzero
      · rfl
    rw [hwhole, someDigits?_eq_some]
    refine and_congr_right fun hs => and_congr_left fun _ => ⟨fun hds => ⟨hds, fun hhead => ?_⟩, fun hds => hds.toDigits⟩
    obtain ⟨ds', rfl⟩ := List.head?_eq_some_iff.1 hhead
    exact absurd ⟨ds' ++ t, hs⟩ hzero

/-- What can go on with a number: a digit, a point, or the letter of an exponent. -/
def extendsNumber (c : Char) : Bool := c.isDigit || c == '.' || c == 'e' || c == 'E'

theorem Stops.mono {p q : Char → Bool} (h : Stops p t) (hq : ∀ c, p c = false → q c = false) : Stops q t :=
  fun c hc => hq c (h c hc)

theorem fraction?_sound {f : Option (List Char)} (h : fraction? s = some (f, t)) : s = fractionText f ++ t ∧ FractionOk f := by
  unfold fraction? at h
  split at h
  · next s' =>
    obtain ⟨⟨ds, t'⟩, hds, h⟩ := Option.map_eq_some_iff.1 h
    obtain ⟨rfl, rfl⟩ := Prod.mk.inj h
    obtain ⟨rfl, hds, -⟩ := someDigits?_eq_some.1 hds
    refine ⟨rfl, fun ds' h => ?_⟩
    obtain rfl := Option.some.inj h
    exact hds
  · obtain ⟨rfl, rfl⟩ := Prod.mk.inj (Option.some.inj h)
    exact ⟨rfl, nofun⟩

theorem fraction?_text {f : Option (List Char)} (hf : FractionOk f) (ht : Stops (fun c => c.isDigit || c == '.') t) :
    fraction? (fractionText f ++ t) = some (f, t) := by
  rcases f with _ | ds
  · show fraction? t = some (none, t)
    unfold fraction?
    split
    · simp at ht
    · rfl
  · have hdigits := someDigits?_eq_some.2 ⟨rfl, hf ds rfl, ht.mono fun c hc => (Bool.or_eq_false_iff.1 hc).1⟩
    simp [fractionText, fraction?, hdigits]

theorem exponent?_sound {x : Option (Option Char × List Char)} (h : exponent? s = some (x, t)) :
    ∃ e, ExponentLetter e ∧ s = exponentText e x ++ t ∧ ExponentOk x := by
  have hnone : ∃ e, ExponentLetter e ∧ t = exponentText e none ++ t ∧ ExponentOk none := ⟨'e', .inl rfl, rfl, nofun⟩
  unfold exponent? at h
  split at h
  · next e s' =>
    split at h
    · next he =>
      split at h
      · next sign u =>
        split at h
        · next hsign =>
          obtain ⟨⟨ds, t'⟩, hds, h⟩ := Option.map_eq_some_iff.1 h
          obtain ⟨rfl, rfl⟩ := Prod.mk.inj h
          obtain ⟨rfl, hds, -⟩ := someDigits?_eq_some.1 hds
          refine ⟨e, he, rfl, fun sign' ds' h => ?_⟩
          obtain ⟨rfl, rfl⟩ := Prod.mk.inj (Option.some.inj h)
          exact ⟨fun c hc => Option.some.inj hc ▸ hsign, hds⟩
        · obtain ⟨⟨ds, t'⟩, hds, h⟩ := Option.map_eq_some_iff.1 h
          obtain ⟨rfl, rfl⟩ := Prod.mk.inj h
          obtain ⟨hs, hds, -⟩ := someDigits?_eq_some.1 hds
          refine ⟨e, he, congrArg (e :: ·) hs, fun sign' ds' h => ?_⟩
          obtain ⟨rfl, rfl⟩ := Prod.mk.inj (Option.some.inj h)
          exact ⟨nofun, hds⟩
      · cases h
    · obtain ⟨rfl, rfl⟩ := Prod.mk.inj (Option.some.inj h)
      exact hnone
  · obtain ⟨rfl, rfl⟩ := Prod.mk.inj (Option.some.inj h)
    exact hnone

theorem exponent?_text {e : Char} {x : Option (Option Char × List Char)} (he : ExponentLetter e) (hx : ExponentOk x)
    (ht : Stops extendsNumber t) : exponent? (exponentText e x ++ t) = some (x, t) := by
  have hstop : Stops Char.isDigit t := ht.mono fun c hc => by simp_all [extendsNumber]
  rcases x with _ | ⟨sign, ds⟩
  · show exponent? t = some (none, t)
    unfold exponent?
    split
    · next c s =>
      have hc : ¬ (c = 'e' ∨ c = 'E') := by
        rintro (rfl | rfl) <;> simp [extendsNumber] at ht
      rw [if_neg hc]
    · rfl
  · obtain ⟨hsign, hds⟩ := hx sign ds rfl
    have hdigits := someDigits?_eq_some.2 ⟨rfl, hds, hstop⟩
    rcases sign with _ | c
    · obtain ⟨d, ds, rfl⟩ := List.exists_cons_of_ne_nil hds.nonempty
      have hd : ¬ (d = '+' ∨ d = '-') := by
        rintro (rfl | rfl) <;> exact absurd (hds.digit _ (List.mem_cons_self ..)) (by decide)
      rw [List.cons_append] at hdigits
      simp [exponentText, exponent?, show e = 'e' ∨ e = 'E' from he, hd, hdigits]
    · simp [exponentText, exponent?, show e = 'e' ∨ e = 'E' from he, hsign c rfl, hdigits]

def unsigned? (negative : Bool) (s : List Char) : Option (Number × List Char) := do
  let (whole, s) ← whole? s
  let (fraction, s) ← fraction? s
  let (exponent, s) ← exponent? s
  some (⟨negative, whole, fraction, exponent⟩, s)

theorem number?_minus (s : List Char) : number? ('-' :: s) = unsigned? true s := rfl

theorem number?_of_ne (h : s.head? ≠ some '-') : number? s = unsigned? false s := by
  rcases s with _ | ⟨c, s⟩
  · rfl
  · have hc : c ≠ '-' := by simpa using h
    unfold number?
    split
    next negative s' hs =>
    split at hs
    · next heq => exact absurd (List.cons.inj heq).1 hc
    · obtain ⟨rfl, rfl⟩ := Prod.mk.inj hs
      rfl

variable {n : Number}

theorem unsigned?_sound {negative : Bool} (h : unsigned? negative s = some (n, t)) : n.negative = negative ∧ n.WellFormed ∧
    ∃ e, ExponentLetter e ∧ s = n.whole ++ (fractionText n.fraction ++ exponentText e n.exponent) ++ t := by
  simp only [unsigned?, Option.bind_eq_bind, Option.bind_eq_some_iff, Prod.exists, Option.some.injEq, Prod.mk.injEq] at h
  obtain ⟨whole, s₁, hwhole, fraction, s₂, hfraction, exponent, s₃, hexponent, rfl, rfl⟩ := h
  obtain ⟨hs, hdigits, -⟩ := whole?_eq_some.1 hwhole
  obtain ⟨hs₁, hf⟩ := fraction?_sound hfraction
  obtain ⟨e, he, hs₂, hx⟩ := exponent?_sound hexponent
  exact ⟨rfl, ⟨hdigits, hf, hx⟩, e, he, by simp [hs, hs₁, hs₂]⟩

theorem unsigned?_text {e : Char} (he : ExponentLetter e) (hn : n.WellFormed) (ht : Stops extendsNumber t) :
    unsigned? n.negative (n.whole ++ (fractionText n.fraction ++ exponentText e n.exponent) ++ t) = some (n, t) := by
  have hstop : Stops (fun c => c.isDigit || c == '.') (exponentText e n.exponent ++ t) := by
    rcases n.exponent with _ | ⟨sign, ds⟩
    · exact ht.mono fun c hc => by simp_all [extendsNumber]
    · rcases he with rfl | rfl <;> simp [exponentText]
  have hstop' : Stops Char.isDigit (fractionText n.fraction ++ (exponentText e n.exponent ++ t)) := by
    rcases n.fraction with _ | ds
    · exact hstop.mono fun c hc => (Bool.or_eq_false_iff.1 hc).1
    · simp [fractionText]
  have hwhole := whole?_eq_some.2 ⟨rfl, hn.whole, hstop'⟩
  simp only [List.append_assoc, unsigned?, hwhole, fraction?_text hn.fraction hstop, exponent?_text he hn.exponent ht,
    Option.bind_eq_bind, Option.bind_some]

theorem number?_sound (h : number? s = some (n, t)) : ∃ e, ExponentLetter e ∧ n.WellFormed ∧ s = n.text e ++ t := by
  by_cases hminus : s.head? = some '-'
  · obtain ⟨s', rfl⟩ := List.head?_eq_some_iff.1 hminus
    obtain ⟨hnegative, hn, e, he, rfl⟩ := unsigned?_sound (number?_minus s' ▸ h)
    exact ⟨e, he, hn, by simp [Number.text, hnegative]⟩
  · obtain ⟨hnegative, hn, e, he, rfl⟩ := unsigned?_sound (number?_of_ne hminus ▸ h)
    exact ⟨e, he, hn, by simp [Number.text, hnegative]⟩

def opensNumber (c : Char) : Bool := c == '-' || c.isDigit

theorem ne_of_opensNumber {c d : Char} (hc : opensNumber c = true) (hd : opensNumber d = false) : c ≠ d := by
  rintro rfl
  rw [hc] at hd
  cases hd

theorem head_text (hn : n.WellFormed) (e : Char) : ∃ c cs, n.text e = c :: cs ∧ opensNumber c = true := by
  obtain ⟨d, ds, hds⟩ := List.exists_cons_of_ne_nil hn.whole.nonempty
  by_cases hnegative : n.negative = true
  · exact ⟨'-', _, by simp [Number.text, hnegative]; rfl, rfl⟩
  · have hd : d.isDigit = true := hn.whole.digit d (hds ▸ List.mem_cons_self ..)
    exact ⟨d, _, by simp [Number.text, hnegative, hds]; rfl, by simp [opensNumber, hd]⟩

theorem number?_text {e : Char} (he : ExponentLetter e) (hn : n.WellFormed) (ht : Stops extendsNumber t) :
    number? (n.text e ++ t) = some (n, t) := by
  have hunsigned := unsigned?_text he hn ht
  by_cases hnegative : n.negative = true
  · rw [hnegative] at hunsigned
    simpa [Number.text, hnegative, number?_minus] using hunsigned
  · obtain ⟨d, ds, hds⟩ := List.exists_cons_of_ne_nil hn.whole.nonempty
    have hd : d ≠ '-' := by
      rintro rfl
      exact absurd (hn.whole.digit '-' (hds ▸ List.mem_cons_self ..)) (by decide)
    rw [Bool.not_eq_true] at hnegative
    rw [hnegative] at hunsigned
    rw [Number.text, hnegative]
    simp only [Bool.false_eq_true, if_false, List.nil_append]
    rw [number?_of_ne (by simpa [hds] using hd), hunsigned]

end numbers

section strings

variable {us : List Unit16}

theorem units?_sound (h : units? s = some (us, t)) : ∃ cs, s = cs ++ '"' :: t ∧ Units cs us := by
  fun_induction units? s generalizing us with
  | case1 s =>
    obtain ⟨rfl, rfl⟩ := Prod.mk.inj (Option.some.inj h)
    exact ⟨[], rfl, .nil⟩
  | case2 a b c d s ih =>
    simp only [Option.bind_eq_bind, Option.bind_eq_some_iff, Prod.exists, Option.some.injEq, Prod.mk.injEq] at h
    obtain ⟨x, ha, y, hb, z, hc, w, hd, rest, s', hrest, rfl, rfl⟩ := h
    obtain ⟨cs, rfl, hcs⟩ := ih hrest
    exact ⟨_, rfl, .hex ha hb hc hd hcs⟩
  | case3 e s _ he ih =>
    obtain ⟨⟨rest, s'⟩, hrest, h⟩ := Option.map_eq_some_iff.1 h
    obtain ⟨rfl, rfl⟩ := Prod.mk.inj h
    obtain ⟨cs, rfl, hcs⟩ := ih hrest
    exact ⟨_, rfl, .short he hcs⟩
  | case6 c s hquote _ _ hplain ih =>
    obtain ⟨⟨rest, s'⟩, hrest, h⟩ := Option.map_eq_some_iff.1 h
    obtain ⟨rfl, rfl⟩ := Prod.mk.inj h
    obtain ⟨cs, rfl, hcs⟩ := ih hrest
    rw [not_or, Nat.not_lt] at hplain
    exact ⟨_, rfl, .char hplain.1 hquote hplain.2 hcs⟩
  | case4 | case5 | case7 => cases h

theorem units?_char {c : Char} (hcontrol : 0x20 ≤ c.toNat) (hquote : c ≠ '"') (hescape : c ≠ '\\')
    (h : units? s = some (us, t)) : units? (c :: s) = some (.char c :: us, t) := by
  have hplain : ¬ (c.toNat < 0x20 ∨ c = '\\') := not_or.2 ⟨Nat.not_lt.2 hcontrol, hescape⟩
  rw [units?.eq_def]
  split
  · next heq => exact absurd (List.cons.inj heq).1 hquote
  · next heq => exact absurd (List.cons.inj heq).1 hescape
  · next heq => exact absurd (List.cons.inj heq).1 hescape
  · next c' s' _ _ _ heq =>
    obtain ⟨rfl, rfl⟩ := List.cons.inj heq
    rw [if_neg hplain, h]
    rfl
  · next heq => cases heq

/-- No short escape is mistaken for the start of a long one. -/
theorem units?_short {e : Char} (he : (shortEscape? e).isSome = true) (h : units? s = some (us, t)) :
    units? ('\\' :: e :: s) = some (.short e :: us, t) := by
  have hu : e ≠ 'u' := by
    rintro rfl
    cases he
  rw [units?.eq_def]
  split
  · next heq => cases heq
  · next heq => exact absurd (List.cons.inj (List.cons.inj heq).2).1 hu
  · next e' s' _ heq =>
    obtain ⟨-, heq⟩ := List.cons.inj heq
    obtain ⟨rfl, rfl⟩ := List.cons.inj heq
    rw [if_pos he, h]
    rfl
  · next hshort heq =>
    obtain ⟨rfl, rfl⟩ := List.cons.inj heq
    exact (hshort e s rfl rfl).elim
  · next heq => cases heq

theorem units?_text {cs : List Char} (h : Units cs us) (t : List Char) : units? (cs ++ '"' :: t) = some (us, t) := by
  induction h with
  | nil => rfl
  | char hcontrol hquote hescape _ ih => exact units?_char hcontrol hquote hescape ih
  | short he _ ih => exact units?_short he ih
  | hex ha hb hc hd _ ih => simp [units?, ha, hb, hc, hd, ih]

theorem name?_eq_some : name? s = some (us, t) ↔ ∃ ns, Name ns us ∧ s = ns ++ ':' :: t := by
  have hquote : isBlank '"' = false := by decide
  have hcolon : isBlank ':' = false := by decide
  constructor
  · intro h
    simp only [name?, Option.bind_eq_bind, Option.bind_eq_some_iff, Prod.exists, Option.some.injEq, Prod.mk.injEq] at h
    obtain ⟨s₁, hopen, us', s₂, hunits, s₃, hbehind, rfl, rfl⟩ := h
    obtain ⟨w, hw, rfl⟩ := (expect?_skipBlanks hquote).1 hopen
    obtain ⟨cs, rfl, hcs⟩ := units?_sound hunits
    obtain ⟨w', hw', rfl⟩ := (expect?_skipBlanks hcolon).1 hbehind
    exact ⟨_, .intro hw hcs hw', by simp⟩
  · rintro ⟨ns, @⟨w, cs, w', _, hw, hcs, hw'⟩, rfl⟩
    have hopen (t : List Char) : expect? ['"'] (skipBlanks (w ++ '"' :: t)) = some t :=
      (expect?_skipBlanks hquote).2 ⟨w, hw, rfl⟩
    have hbehind : expect? [':'] (skipBlanks (w' ++ ':' :: t)) = some t := (expect?_skipBlanks hcolon).2 ⟨w', hw', rfl⟩
    simp only [name?, List.append_assoc, List.cons_append, hopen, units?_text hcs, hbehind, Option.bind_eq_bind,
      Option.bind_some]

end strings

end KeyFob.Json
