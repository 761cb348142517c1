import KeyFob.Proofs.Json.Leaves

/-!
Reading JSON text is exact: `parse?` makes a tree of a text if and only if the text writes that tree. So a text writes one
tree at most, and a text that writes none is refused.
-/

namespace KeyFob.Json

variable {s t w cs : List Char} {c : Char} {v : Value} {vs : List Value} {ms : List (List Unit16 × Value)}
  {us : List Unit16} {depth : Nat}

theorem Blank.append {w' : List Char} (h : Blank w) (h' : Blank w') : Blank (w ++ w') := by
  intro c hc
  rcases List.mem_append.1 hc with hc | hc
  · exact h c hc
  · exact h' c hc

theorem Padded.behind (hw : Blank w) (h : Padded cs v) : Padded (w ++ cs) v := by
  obtain ⟨hw₁, hv, hw₂⟩ := h
  rw [← List.append_assoc]
  exact .intro (hw.append hw₁) hv hw₂

theorem Items.behind (hw : Blank w) (h : Items cs vs) : Items (w ++ cs) vs := by
  cases h with
  | last h => exact .last (h.behind hw)
  | cons h hrest =>
    rw [← List.append_assoc]
    exact .cons (h.behind hw) hrest

theorem Name.behind (hw : Blank w) (h : Name cs us) : Name (w ++ cs) us := by
  obtain ⟨hw₁, hus, hw₂⟩ := h
  rw [← List.append_assoc]
  exact .intro (hw.append hw₁) hus hw₂

theorem Members.behind (hw : Blank w) (h : Members cs ms) : Members (w ++ cs) ms := by
  cases h with
  | last hname h =>
    rw [← List.append_assoc]
    exact .last (hname.behind hw) h
  | cons hname h hrest =>
    rw [← List.append_assoc]
    exact .cons (hname.behind hw) h hrest

theorem skipBlanks_split (s : List Char) : ∃ w, Blank w ∧ s = w ++ skipBlanks s := (skipBlanks_eq_iff.1 rfl).1

theorem skipBlanks_skipBlanks (s : List Char) : skipBlanks (skipBlanks s) = skipBlanks s := by
  obtain ⟨-, hstops⟩ := skipBlanks_eq_iff.1 (rfl : skipBlanks s = skipBlanks s)
  exact skipBlanks_append blank_nil hstops

/-! Blanks in front of a value, an item or a member make no difference. -/

theorem value?_skipBlanks (depth : Nat) (s : List Char) : value? depth (skipBlanks s) = value? depth s := by
  cases depth with
  | zero => simp only [value?]
  | succ depth => rw [value?, value?, skipBlanks_skipBlanks]

theorem items?_skipBlanks (depth : Nat) (s : List Char) : items? depth (skipBlanks s) = items? depth s := by
  cases depth with
  | zero => simp only [items?]
  | succ depth => rw [items?, items?, value?_skipBlanks]

theorem members?_skipBlanks (depth : Nat) (s : List Char) : members? depth (skipBlanks s) = members? depth s := by
  cases depth with
  | zero => simp only [members?]
  | succ depth => rw [members?, members?, name?, name?, skipBlanks_skipBlanks]

section complete

theorem extendsNumber_of_isBlank (h : isBlank c = true) : extendsNumber c = false := by
  simp only [isBlank, Bool.or_eq_true, beq_iff_eq] at h
  rcases h with ((rfl | rfl) | rfl) | rfl <;> decide

theorem stops_of_blank (hw : Blank w) : Stops extendsNumber w :=
  fun c hc => extendsNumber_of_isBlank (hw c (List.mem_of_mem_head? hc))

theorem stops_padding (hw : Blank w) (hc : extendsNumber c = false) (t : List Char) : Stops extendsNumber (w ++ c :: t) := by
  rcases w with _ | ⟨b, w⟩
  · simpa using hc
  · simpa using extendsNumber_of_isBlank (hw b (List.mem_cons_self ..))

theorem items?_last {s' : List Char} (h : value? depth s = some (v, s')) (hs : skipBlanks s' = ']' :: t) :
    items? (depth + 1) s = some ([v], t) := by
  simp [items?, h, hs]

theorem items?_cons {s' u : List Char} (h : value? depth s = some (v, s')) (hs : skipBlanks s' = ',' :: u)
    (hrest : items? depth u = some (vs, t)) : items? (depth + 1) s = some (v :: vs, t) := by
  simp [items?, h, hs, hrest]

theorem members?_last {s₁ s₂ : List Char} (hname : name? s = some (us, s₁)) (h : value? depth s₁ = some (v, s₂))
    (hs : skipBlanks s₂ = '\x7d' :: t) : members? (depth + 1) s = some ([(us, v)], t) := by
  simp [members?, hname, h, hs]

theorem members?_cons {s₁ s₂ u : List Char} (hname : name? s = some (us, s₁)) (h : value? depth s₁ = some (v, s₂))
    (hs : skipBlanks s₂ = ',' :: u) (hrest : members? depth u = some (ms, t)) :
    members? (depth + 1) s = some ((us, v) :: ms, t) := by
  simp [members?, hname, h, hs, hrest]

/-- What starts as a number does is read as a number. -/
theorem value?_number {n : Number} (hc : opensNumber c = true) (hs : skipBlanks s = c :: cs)
    (h : number? (c :: cs) = some (n, t)) : value? (depth + 1) s = some (.number n, t) := by
  have hother {d : Char} {ds : List Char} (hd : opensNumber d = false) : c :: cs ≠ d :: ds :=
    fun heq => ne_of_opensNumber hc hd (List.cons.inj heq).1
  rw [value?, hs]
  split
  · next heq => exact absurd heq (hother (by decide))
  · next heq => exact absurd heq (hother (by decide))
  · next heq => exact absurd heq (hother (by decide))
  · next heq => exact absurd heq (hother (by decide))
  · next heq => exact absurd heq (hother (by decide))
  · next heq => exact absurd heq (hother (by decide))
  · rw [h]
    rfl

theorem isBlank_of_opensNumber (h : opensNumber c = true) : isBlank c = false := by
  rw [Bool.eq_false_iff]
  intro hblank
  simp only [isBlank, Bool.or_eq_true, beq_iff_eq] at hblank
  rcases hblank with ((rfl | rfl) | rfl) | rfl <;> cases h

theorem Spells.head (h : Spells cs v) : ∃ c ds, cs = c :: ds ∧ isBlank c = false ∧ c ≠ ']' := by
  cases h with
  | @number e n he h =>
    obtain ⟨c, ds, hcs, hc⟩ := head_text h e
    exact ⟨c, ds, hcs, isBlank_of_opensNumber hc, ne_of_opensNumber hc (by decide)⟩
  | _ => exact ⟨_, _, rfl, by decide, by decide⟩

theorem Items.head (h : Items cs vs) (t u : List Char) : skipBlanks (cs ++ t) ≠ ']' :: u := by
  have hpadded {cs : List Char} {v : Value} (h : Padded cs v) (t : List Char) : skipBlanks (cs ++ t) ≠ ']' :: u := by
    obtain @⟨w, cs, w', v, hw, h, hw'⟩ := h
    obtain ⟨c, ds, rfl, hc, hne⟩ := h.head
    have hs : skipBlanks (w ++ (c :: ds ++ w') ++ t) = c :: (ds ++ w' ++ t) := by
      simpa using skipBlanks_append (t := c :: (ds ++ w' ++ t)) hw (by simpa using hc)
    rw [hs]
    exact fun heq => hne (List.cons.inj heq).1
  cases h with
  | last h => exact hpadded h t
  | cons h _ =>
    rw [List.append_assoc]
    exact hpadded h _

theorem Members.head (h : Members cs ms) (t u : List Char) : skipBlanks (cs ++ t) ≠ '\x7d' :: u := by
  have hname {ns : List Char} {us : List Unit16} (h : Name ns us) (t : List Char) : skipBlanks (ns ++ t) ≠ '\x7d' :: u := by
    obtain @⟨w, cs, w', us, hw, h, hw'⟩ := h
    have hs : skipBlanks (w ++ '"' :: (cs ++ '"' :: w') ++ t) = '"' :: (cs ++ '"' :: w' ++ t) := by
      simpa using skipBlanks_append (t := '"' :: (cs ++ '"' :: w' ++ t)) hw (by simp; decide)
    rw [hs]
    nofun
  cases h with
  | last h _ | cons h _ _ =>
    rw [List.append_assoc]
    exact hname h _

theorem value?_array {s' : List Char} (hs : skipBlanks s = '[' :: s') (hne : ∀ u, skipBlanks s' ≠ ']' :: u)
    (h : items? depth s' = some (vs, t)) : value? (depth + 1) s = some (.array vs, t) := by
  have hitems : items? depth (skipBlanks s') = some (vs, t) := (items?_skipBlanks depth s').trans h
  simp [value?, hs, hitems]

theorem value?_object {s' : List Char} (hs : skipBlanks s = '\x7b' :: s') (hne : ∀ u, skipBlanks s' ≠ '\x7d' :: u)
    (h : members? depth s' = some (ms, t)) : value? (depth + 1) s = some (.object ms, t) := by
  have hmembers : members? depth (skipBlanks s') = some (ms, t) := (members?_skipBlanks depth s').trans h
  simp [value?, hs, hmembers]

/-- What this depth is enough to read. -/
structure Completes (depth : Nat) : Prop where
  value {w cs t : List Char} {v : Value} (hw : Blank w) (h : Spells cs v) (hdepth : cs.length ≤ depth)
    (ht : Stops extendsNumber t) : value? depth (w ++ (cs ++ t)) = some (v, t)
  items {cs : List Char} {vs : List Value} (h : Items cs vs) (hdepth : cs.length < depth) (t : List Char) :
    items? depth (cs ++ ']' :: t) = some (vs, t)
  members {cs : List Char} {ms : List (List Unit16 × Value)} (h : Members cs ms) (hdepth : cs.length < depth)
    (t : List Char) : members? depth (cs ++ '\x7d' :: t) = some (ms, t)

/-- Behind a value with blanks around it stands what ends it. -/
theorem Completes.padded (hc : Completes depth) (h : Padded cs v) (hdepth : cs.length ≤ depth) {c : Char}
    (hblank : isBlank c = false) (hend : extendsNumber c = false) (t : List Char) :
    ∃ s', value? depth (cs ++ c :: t) = some (v, s') ∧ skipBlanks s' = c :: t := by
  obtain @⟨w, cs, w', v, hw, h, hw'⟩ := h
  simp only [List.length_append] at hdepth
  refine ⟨w' ++ c :: t, ?_, skipBlanks_append hw' (by simpa using hblank)⟩
  simpa using hc.value hw h (by omega) (stops_padding hw' hend t)

theorem Completes.value_succ (hc : Completes depth) (h : Spells cs v) (hdepth : cs.length ≤ depth + 1)
    (ht : Stops extendsNumber t) (hs : skipBlanks s = cs ++ t) : value? (depth + 1) s = some (v, t) := by
  cases h with
  | null | ofTrue | ofFalse => simp [value?, hs, expect?]
  | @number e n he h =>
    obtain ⟨c, ds, hcs, hopens⟩ := head_text h e
    have hn := number?_text he h ht
    rw [hcs, List.cons_append] at hs hn
    exact value?_number hopens hs hn
  | string h => simp [value?, hs, units?_text h]
  | emptyArray h =>
    have hend : skipBlanks (_ ++ ']' :: t) = ']' :: t := skipBlanks_append h (by simp; decide)
    simp [value?, hs, hend]
  | @array cs vs h =>
    simp only [List.length_cons, List.length_append, List.length_nil] at hdepth
    rw [List.cons_append, List.append_assoc, List.singleton_append] at hs
    exact value?_array hs (h.head _) (hc.items h (by omega) t)
  | emptyObject h =>
    have hend : skipBlanks (_ ++ '\x7d' :: t) = '\x7d' :: t := skipBlanks_append h (by simp; decide)
    simp [value?, hs, hend]
  | @object cs ms h =>
    simp only [List.length_cons, List.length_append, List.length_nil] at hdepth
    rw [List.cons_append, List.append_assoc, List.singleton_append] at hs
    exact value?_object hs (h.head _) (hc.members h (by omega) t)

theorem completes (depth : Nat) : Completes depth := by
  induction depth with
  | zero =>
    refine ⟨fun hw h hdepth ht => ?_, fun h hdepth => absurd hdepth (Nat.not_lt_zero _),
      fun h hdepth => absurd hdepth (Nat.not_lt_zero _)⟩
    obtain ⟨c, ds, rfl, -, -⟩ := h.head
    cases hdepth
  | succ depth ih =>
    refine ⟨fun {w cs t v} hw h hdepth ht => ?_, fun {cs vs} h hdepth t => ?_, fun {cs ms} h hdepth t => ?_⟩
    · obtain ⟨c, ds, hcs, hc, -⟩ := h.head
      have hs : skipBlanks (w ++ (cs ++ t)) = cs ++ t := skipBlanks_append hw (by simpa [hcs] using hc)
      exact ih.value_succ h hdepth ht hs
    · cases h with
      | last h =>
        obtain ⟨s', hv, hs⟩ := ih.padded h (Nat.le_of_lt_succ hdepth) (c := ']') (by decide) (by decide) t
        exact items?_last hv hs
      | @cons cs ds v vs h hrest =>
        simp only [List.length_append, List.length_cons] at hdepth
        obtain ⟨s', hv, hs⟩ := ih.padded h (by omega) (c := ',') (by decide) (by decide) (ds ++ ']' :: t)
        rw [List.append_assoc, List.cons_append]
        exact items?_cons hv hs (ih.items hrest (by omega) t)
    · cases h with
      | @last ns cs us v hname h =>
        simp only [List.length_append, List.length_cons] at hdepth
        obtain ⟨s', hv, hs⟩ := ih.padded h (by omega) (c := '\x7d') (by decide) (by decide) t
        rw [List.append_assoc, List.cons_append]
        exact members?_last (name?_eq_some.2 ⟨ns, hname, rfl⟩) hv hs
      | @cons ns cs ds us v ms hname h hrest =>
        simp only [List.length_append, List.length_cons] at hdepth
        obtain ⟨s', hv, hs⟩ := ih.padded h (by omega) (c := ',') (by decide) (by decide) (ds ++ '\x7d' :: t)
        rw [List.append_assoc, List.cons_append, List.append_assoc, List.cons_append]
        exact members?_cons (name?_eq_some.2 ⟨ns, hname, rfl⟩) hv hs (ih.members hrest (by omega) t)

end complete

section sound

/-- What has been read at this depth was written. -/
structure Sound (depth : Nat) : Prop where
  value {s t : List Char} {v : Value} (h : value? depth s = some (v, t)) :
    ∃ w cs, Blank w ∧ Spells cs v ∧ s = w ++ (cs ++ t)
  items {s t : List Char} {vs : List Value} (h : items? depth s = some (vs, t)) : ∃ cs, Items cs vs ∧ s = cs ++ ']' :: t
  members {s t : List Char} {ms : List (List Unit16 × Value)} (h : members? depth s = some (ms, t)) :
    ∃ cs, Members cs ms ∧ s = cs ++ '\x7d' :: t

/-- A value, the blanks behind it, and what comes next. -/
theorem Sound.padded (hsound : Sound depth) {s' u : List Char} (h : value? depth s = some (v, s')) (hs : skipBlanks s' = u) :
    ∃ cs, Padded cs v ∧ s = cs ++ u := by
  obtain ⟨w, cs, hw, hv, rfl⟩ := hsound.value h
  obtain ⟨w', hw', hs'⟩ := skipBlanks_split s'
  exact ⟨w ++ (cs ++ w'), .intro hw hv hw', by rw [hs', hs]; simp⟩

/-- The rest of a word, which stands for one value. -/
theorem word_of_expect? {word u : List Char} {v' : Value} (h : (expect? word u).map (fun s => (v', s)) = some (v, t)) :
    v = v' ∧ u = word ++ t := by
  obtain ⟨s', hs', h⟩ := Option.map_eq_some_iff.1 h
  obtain ⟨rfl, rfl⟩ := Prod.mk.inj h
  exact ⟨rfl, expect?_eq_some.1 hs'⟩

theorem Sound.array (hsound : Sound depth) {u : List Char}
    (h : (match skipBlanks u with
      | ']' :: s => some (Value.array [], s)
      | s => (items? depth s).map fun (items, s) => (.array items, s)) = some (v, t)) :
    ∃ cs, Spells ('[' :: (cs ++ [']'])) v ∧ u = cs ++ ']' :: t := by
  obtain ⟨w, hw, hu⟩ := skipBlanks_split u
  split at h
  · next s' heq =>
    obtain ⟨rfl, rfl⟩ := Prod.mk.inj (Option.some.inj h)
    exact ⟨w, .emptyArray hw, by rw [hu, heq]⟩
  · obtain ⟨⟨items, s'⟩, hitems, h⟩ := Option.map_eq_some_iff.1 h
    obtain ⟨rfl, rfl⟩ := Prod.mk.inj h
    obtain ⟨cs, hcs, heq⟩ := hsound.items hitems
    exact ⟨w ++ cs, .array (hcs.behind hw), by rw [hu, heq, List.append_assoc]⟩

theorem Sound.object (hsound : Sound depth) {u : List Char}
    (h : (match skipBlanks u with
      | '\x7d' :: s => some (Value.object [], s)
      | s => (members? depth s).map fun (members, s) => (.object members, s)) = some (v, t)) :
    ∃ cs, Spells ('\x7b' :: (cs ++ ['\x7d'])) v ∧ u = cs ++ '\x7d' :: t := by
  obtain ⟨w, hw, hu⟩ := skipBlanks_split u
  split at h
  · next s' heq =>
    obtain ⟨rfl, rfl⟩ := Prod.mk.inj (Option.some.inj h)
    exact ⟨w, .emptyObject hw, by rw [hu, heq]⟩
  · obtain ⟨⟨members, s'⟩, hmembers, h⟩ := Option.map_eq_some_iff.1 h
    obtain ⟨rfl, rfl⟩ := Prod.mk.inj h
    obtain ⟨cs, hcs, heq⟩ := hsound.members hmembers
    exact ⟨w ++ cs, .object (hcs.behind hw), by rw [hu, heq, List.append_assoc]⟩

theorem Sound.value_succ (hsound : Sound depth) (h : value? (depth + 1) s = some (v, t)) :
    ∃ cs, Spells cs v ∧ skipBlanks s = cs ++ t := by
  rw [value?] at h
  split at h
  · next u hu =>
    obtain ⟨rfl, hword⟩ := word_of_expect? h
    exact ⟨_, .null, by rw [hu, hword]; rfl⟩
  · next u hu =>
    obtain ⟨rfl, hword⟩ := word_of_expect? h
    exact ⟨_, .ofTrue, by rw [hu, hword]; rfl⟩
  · next u hu =>
    obtain ⟨rfl, hword⟩ := word_of_expect? h
    exact ⟨_, .ofFalse, by rw [hu, hword]; rfl⟩
  · next u hu =>
    obtain ⟨⟨us, s'⟩, hunits, h⟩ := Option.map_eq_some_iff.1 h
    obtain ⟨rfl, rfl⟩ := Prod.mk.inj h
    obtain ⟨cs, rfl, hcs⟩ := units?_sound hunits
    exact ⟨_, .string hcs, by rw [hu]; simp⟩
  · next u hu =>
    obtain ⟨cs, hcs, rfl⟩ := hsound.array h
    exact ⟨_, hcs, by rw [hu]; simp⟩
  · next u hu =>
    obtain ⟨cs, hcs, rfl⟩ := hsound.object h
    exact ⟨_, hcs, by rw [hu]; simp⟩
  · obtain ⟨⟨n, s'⟩, hnumber, h⟩ := Option.map_eq_some_iff.1 h
    obtain ⟨rfl, rfl⟩ := Prod.mk.inj h
    obtain ⟨e, he, hn, hs⟩ := number?_sound hnumber
    exact ⟨_, .number he hn, hs⟩

theorem Sound.items_succ (hsound : Sound depth) (h : items? (depth + 1) s = some (vs, t)) :
    ∃ cs, Items cs vs ∧ s = cs ++ ']' :: t := by
  simp only [items?, Option.bind_eq_bind, Option.bind_eq_some_iff, Prod.exists] at h
  obtain ⟨v, s', hv, h⟩ := h
  split at h
  · next u hu =>
    obtain ⟨⟨vs', s''⟩, hrest, h⟩ := Option.map_eq_some_iff.1 h
    obtain ⟨rfl, rfl⟩ := Prod.mk.inj h
    obtain ⟨cs, hcs, rfl⟩ := hsound.padded hv hu
    obtain ⟨ds, hds, rfl⟩ := hsound.items hrest
    exact ⟨_, .cons hcs hds, by simp⟩
  · next u hu =>
    obtain ⟨rfl, rfl⟩ := Prod.mk.inj (Option.some.inj h)
    obtain ⟨cs, hcs, rfl⟩ := hsound.padded hv hu
    exact ⟨_, .last hcs, rfl⟩
  · cases h

theorem Sound.members_succ (hsound : Sound depth) (h : members? (depth + 1) s = some (ms, t)) :
    ∃ cs, Members cs ms ∧ s = cs ++ '\x7d' :: t := by
  simp only [members?, Option.bind_eq_bind, Option.bind_eq_some_iff, Prod.exists] at h
  obtain ⟨us, s₁, hname, v, s₂, hv, h⟩ := h
  obtain ⟨ns, hns, rfl⟩ := name?_eq_some.1 hname
  split at h
  · next u hu =>
    obtain ⟨⟨ms', s''⟩, hrest, h⟩ := Option.map_eq_some_iff.1 h
    obtain ⟨rfl, rfl⟩ := Prod.mk.inj h
    obtain ⟨cs, hcs, rfl⟩ := hsound.padded hv hu
    obtain ⟨ds, hds, rfl⟩ := hsound.members hrest
    exact ⟨_, .cons hns hcs hds, by simp⟩
  · next u hu =>
    obtain ⟨rfl, rfl⟩ := Prod.mk.inj (Option.some.inj h)
    obtain ⟨cs, hcs, rfl⟩ := hsound.padded hv hu
    exact ⟨_, .last hns hcs, by simp⟩
  · cases h

theorem sound (depth : Nat) : Sound depth := by
  induction depth with
  | zero => exact ⟨fun h => by simp [value?] at h, fun h => by simp [items?] at h, fun h => by simp [members?] at h⟩
  | succ depth ih =>
    refine ⟨fun {s t v} h => ?_, ih.items_succ, ih.members_succ⟩
    obtain ⟨cs, hcs, hs⟩ := ih.value_succ h
    obtain ⟨w, hw, hw'⟩ := skipBlanks_split s
    exact ⟨w, cs, hw, hcs, hw'.trans (by rw [hs])⟩

end sound

/-- A tree is made of a text if and only if the text writes it. -/
theorem parse?_eq_some {text : String} : parse? text = some v ↔ Writes text v := by
  rw [parse?, Writes]
  generalize text.toList = s
  constructor
  · intro h
    split at h
    · next v' t hv =>
      split at h
      · next ht =>
        obtain rfl := Option.some.inj h
        obtain ⟨cs, hcs, rfl⟩ := (sound _).padded hv ht
        simpa using hcs
      · cases h
    · cases h
  · rintro @⟨w, cs, w', v, hw, hv, hw'⟩
    have hread := (completes ((w ++ (cs ++ w')).length + 1)).value hw hv (by simp only [List.length_append]; omega)
      (stops_of_blank hw')
    have hend : skipBlanks w' = [] := by simpa using skipBlanks_append hw' (stops_nil _)
    simp only [hread, hend, if_true]

/-- A text writes one tree at most. -/
theorem Writes.unique {text : String} {v' : Value} (h : Writes text v) (h' : Writes text v') : v = v' :=
  Option.some.inj ((parse?_eq_some.2 h).symm.trans (parse?_eq_some.2 h'))

end KeyFob.Json
