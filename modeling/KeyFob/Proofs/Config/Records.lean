import KeyFob.Config.Document
import Mathlib.Data.List.Forall2
import Mathlib.Data.List.Nodup

/-!
Records in a document. `Shows` says which fields a record shows and that it writes each of them as it should. The members of
an object may stand in any order, with unknown ones in between; an array writes the first fields in their order.
Reading a record is exact for it.
-/

namespace KeyFob.Config

open Json (Value Unit16)

/-- A member of an object: the spelling of its name, and its value. -/
abbrev Member := List Unit16 × Value

def Named (m : Member) (name : String) : Prop := Json.text? m.1 = some name.toList

/-- All the fields of a record in the order of their declaration, and their names. -/
structure Declares {φ : Type} (order : List φ) (key : φ → String) : Prop where
  all (f : φ) : f ∈ order
  distinct : (order.map key).Nodup

/-- Members that show these fields, once each and in this order, with any unknown ones in between. -/
inductive Lists {φ : Type} (key : φ → String) (writes : φ → Value → Prop) : List φ → List Member → Prop
  | nil : Lists key writes [] []
  | known {f : φ} {m : Member} {shown : List φ} {members : List Member} (hname : Named m (key f)) (hvalue : writes f m.2)
    (hnew : f ∉ shown) (h : Lists key writes shown members) : Lists key writes (f :: shown) (m :: members)
  | unknown {m : Member} {name : String} {shown : List φ} {members : List Member} (hname : Named m name)
    (hother : ∀ f, key f ≠ name) (h : Lists key writes shown members) : Lists key writes shown (m :: members)

/-- A record that shows these fields. -/
inductive Shows {φ : Type} (order : List φ) (key : φ → String) (writes : φ → Value → Prop) : List φ → Value → Prop
  | object {shown : List φ} {members : List Member} (h : Lists key writes shown members) :
    Shows order key writes shown (.object members)
  | array {shown : List φ} {items : List Value} (hshown : shown <+: order) (h : List.Forall₂ writes shown items) :
    Shows order key writes shown (.array items)

/-- A record that writes every field, save those whose absence says as much. -/
def Record {φ : Type} (order : List φ) (key : φ → String) (writes : φ → Value → Prop) (absent : φ → Prop) (v : Value) : Prop :=
  ∃ shown, Shows order key writes shown v ∧ ∀ f, f ∉ shown → absent f

/-- What is found of a field: a value that writes it, or nothing where nothing need be. -/
def Given (writes : Value → Prop) (absent : Prop) : Option Value → Prop
  | some w => writes w
  | none => absent

variable {φ : Type} {order : List φ} {key : φ → String} {writes : φ → Value → Prop} {absent : φ → Prop} {v w : Value} {f : φ}
  {shown : List φ} {members : List Member} {items : List Value} {named : List (String × Value)} {name : String}

theorem Declares.injective (hd : Declares order key) {f g : φ} (h : key f = key g) : f = g :=
  List.inj_on_of_nodup_map hd.distinct (hd.all f) (hd.all g) h

section objects

def byName? (m : Member) : Option (String × Value) := (Json.text? m.1).map fun cs => (String.ofList cs, m.2)

theorem byName?_eq_some {m : Member} {e : String × Value} : byName? m = some e ↔ Named m e.1 ∧ m.2 = e.2 := by
  obtain ⟨name, w⟩ := e
  simp only [byName?, Named, Option.map_eq_some_iff, Prod.mk.injEq]
  constructor
  · rintro ⟨cs, hcs, rfl, rfl⟩
    simp [hcs]
  · rintro ⟨hcs, rfl⟩
    exact ⟨_, hcs, by simp⟩

def valuesOf (named : List (String × Value)) (name : String) : List Value := (named.filter (·.1 == name)).map Prod.snd

theorem valuesOf_cons_self (name : String) (w : Value) (named : List (String × Value)) :
    valuesOf ((name, w) :: named) name = w :: valuesOf named name := by
  simp [valuesOf]

theorem valuesOf_cons_of_ne {name' : String} (h : name' ≠ name) (w : Value) (named : List (String × Value)) :
    valuesOf ((name', w) :: named) name = valuesOf named name := by
  simp [valuesOf, h]

theorem lookup_eq_head? (named : List (String × Value)) (name : String) :
    named.lookup name = (valuesOf named name).head? := by
  induction named with
  | nil => rfl
  | cons e named ih =>
    obtain ⟨name', w⟩ := e
    by_cases h : name' = name
    · subst h
      simp [valuesOf_cons_self]
    · have hne : (name == name') = false := by simpa using Ne.symm h
      rw [valuesOf_cons_of_ne h, List.lookup_cons, hne, ← ih]

theorem record?_object {names : List String} : record? names (.object members) = some named ↔
    members.mapM byName? = some named ∧ ∀ name ∈ names, (valuesOf named name).length ≤ 1 := by
  have hread : (fun m : Member => match m with | (name, v) => (Json.text? name).map fun cs => (String.ofList cs, v)) =
      byName? := rfl
  simp only [record?, hread, Option.bind_eq_bind, Option.bind_eq_some_iff, Option.ite_none_right_eq_some,
    Option.some.injEq]
  constructor
  · rintro ⟨_, hnamed, honce, rfl⟩
    exact ⟨hnamed, by simpa [namesOnce, valuesOf] using honce⟩
  · rintro ⟨hnamed, honce⟩
    exact ⟨named, hnamed, by simpa [namesOnce, valuesOf] using honce, rfl⟩

theorem mapM_byName?_cons {m : Member} : (m :: members).mapM byName? = some named ↔
    ∃ name named', Named m name ∧ members.mapM byName? = some named' ∧ named = (name, m.2) :: named' := by
  simp only [List.mapM_cons, Option.bind_eq_bind, Option.bind_eq_some_iff, Option.pure_def, Option.some.injEq, Prod.exists,
    byName?_eq_some]
  constructor
  · rintro ⟨name, w, ⟨hname, rfl⟩, named', hnamed, rfl⟩
    exact ⟨name, named', hname, hnamed, rfl⟩
  · rintro ⟨name, named', hname, hnamed, rfl⟩
    exact ⟨name, m.2, ⟨hname, rfl⟩, named', hnamed, rfl⟩

/-- The named members of an object that shows these fields. -/
theorem Lists.entries (hd : Declares order key) (h : Lists key writes shown members) :
    ∃ named, members.mapM byName? = some named ∧ ∀ f, (f ∈ shown → ∃ w, valuesOf named (key f) = [w] ∧ writes f w) ∧
      (f ∉ shown → valuesOf named (key f) = []) := by
  induction h with
  | nil => exact ⟨[], rfl, fun f => ⟨nofun, fun _ => rfl⟩⟩
  | @known g m shown members hname hvalue hnew h ih =>
    obtain ⟨named, hnamed, hfields⟩ := ih
    refine ⟨(key g, m.2) :: named, mapM_byName?_cons.2 ⟨_, named, hname, hnamed, rfl⟩, fun f => ?_⟩
    by_cases hf : g = f
    · subst hf
      refine ⟨fun _ => ⟨m.2, ?_, hvalue⟩, fun hnot => absurd (List.mem_cons_self ..) hnot⟩
      rw [valuesOf_cons_self, (hfields g).2 hnew]
    · rw [valuesOf_cons_of_ne fun heq => hf (hd.injective heq), List.mem_cons, or_iff_right (Ne.symm hf)]
      exact hfields f
  | @unknown m name shown members hname hother h ih =>
    obtain ⟨named, hnamed, hfields⟩ := ih
    refine ⟨(name, m.2) :: named, mapM_byName?_cons.2 ⟨_, named, hname, hnamed, rfl⟩, fun f => ?_⟩
    rw [valuesOf_cons_of_ne (hother f).symm]
    exact hfields f

/-- An object whose members have these names shows the fields of which there is a value. -/
theorem lists_of_entries (hd : Declares order key) (hnamed : members.mapM byName? = some named)
    (hvalues : ∀ f, valuesOf named (key f) = [] ∨ ∃ w, valuesOf named (key f) = [w] ∧ writes f w) :
    ∃ shown, Lists key writes shown members ∧ ∀ f, f ∈ shown ↔ valuesOf named (key f) ≠ [] := by
  induction members generalizing named with
  | nil =>
    obtain rfl := Option.some.inj hnamed
    exact ⟨[], .nil, fun f => by simp [valuesOf]⟩
  | cons m members ih =>
    obtain ⟨name, named', hname, hnamed', rfl⟩ := mapM_byName?_cons.1 hnamed
    by_cases hknown : ∃ g, key g = name
    · obtain ⟨g, rfl⟩ := hknown
      -- the field is shown here, and so nowhere behind
      have hhere : valuesOf named' (key g) = [] ∧ writes g m.2 := by
        simpa [valuesOf_cons_self] using hvalues g
      have hother {f : φ} (hf : g ≠ f) : valuesOf ((key g, m.2) :: named') (key f) = valuesOf named' (key f) :=
        valuesOf_cons_of_ne (fun heq => hf (hd.injective heq)) _ _
      obtain ⟨shown, hlists, hshown⟩ := ih hnamed' fun f => by
        by_cases hf : g = f
        · exact .inl (hf ▸ hhere.1)
        · exact hother hf ▸ hvalues f
      refine ⟨g :: shown, .known hname hhere.2 (fun hmem => (hshown g).1 hmem hhere.1) hlists, fun f => ?_⟩
      by_cases hf : g = f
      · subst hf
        simp [valuesOf_cons_self]
      · rw [hother hf, List.mem_cons, or_iff_right (Ne.symm hf), hshown]
    · have hother (f : φ) : valuesOf ((name, m.2) :: named') (key f) = valuesOf named' (key f) :=
        valuesOf_cons_of_ne (fun heq => hknown ⟨f, heq.symm⟩) _ _
      simp only [hother] at hvalues ⊢
      obtain ⟨shown, hlists, hshown⟩ := ih hnamed' hvalues
      exact ⟨shown, .unknown hname (fun f heq => hknown ⟨f, heq⟩) hlists, hshown⟩

theorem record_object_iff (hd : Declares order key) :
    (∃ named, record? (order.map key) (.object members) = some named ∧
      ∀ f, Given (writes f) (absent f) (named.lookup (key f))) ↔
      ∃ shown, Lists key writes shown members ∧ ∀ f, f ∉ shown → absent f := by
  simp only [record?_object, lookup_eq_head?]
  constructor
  · rintro ⟨named, ⟨hnamed, honce⟩, hgiven⟩
    have hvalues : ∀ f, valuesOf named (key f) = [] ∨ ∃ w, valuesOf named (key f) = [w] ∧ writes f w := by
      intro f
      have hone := honce (key f) (List.mem_map_of_mem (hd.all f))
      have hf := hgiven f
      rcases hvalues : valuesOf named (key f) with _ | ⟨w, _ | ⟨w', rest⟩⟩
      · exact .inl rfl
      · rw [hvalues] at hf
        exact .inr ⟨w, rfl, hf⟩
      · rw [hvalues] at hone
        simp at hone
    obtain ⟨shown, hlists, hshown⟩ := lists_of_entries hd hnamed hvalues
    refine ⟨shown, hlists, fun f hf => ?_⟩
    have hnone := Classical.not_not.1 fun hne => hf ((hshown f).2 hne)
    simpa [hnone, Given] using hgiven f
  · rintro ⟨shown, hlists, habsent⟩
    obtain ⟨named, hnamed, hfields⟩ := hlists.entries hd
    refine ⟨named, ⟨hnamed, fun name hname => ?_⟩, fun f => ?_⟩
    · obtain ⟨f, -, rfl⟩ := List.mem_map.1 hname
      by_cases hf : f ∈ shown
      · obtain ⟨w, hw, -⟩ := (hfields f).1 hf
        simp [hw]
      · simp [(hfields f).2 hf]
    · by_cases hf : f ∈ shown
      · obtain ⟨w, hw, hwrites⟩ := (hfields f).1 hf
        simpa [hw, Given] using hwrites
      · simpa [(hfields f).2 hf, Given] using habsent f hf

end objects

section arrays

/-- The items of an array are found by the names of the fields in whose places they stand. -/
theorem lookup_zip (hd : (order.map key).Nodup) (hf : f ∈ order) :
    ((order.map key).zip items).lookup (key f) = some w ↔ ∃ i : Nat, order[i]? = some f ∧ items[i]? = some w := by
  induction order generalizing items with
  | nil => cases hf
  | cons g order ih =>
    rcases items with _ | ⟨x, items⟩
    · simp
    have hinj := List.inj_on_of_nodup_map hd (List.mem_cons_self ..) hf
    rw [List.map_cons, List.nodup_cons] at hd
    rw [List.map_cons, List.zip_cons_cons, List.lookup_cons]
    by_cases hg : key f = key g
    · obtain rfl := hinj hg.symm
      have hnot : ∀ i : Nat, order[i]? ≠ some g := fun i hi =>
        hd.1 (List.mem_map_of_mem (List.mem_of_getElem? hi))
      simp only [beq_self_eq_true, Option.some.injEq]
      refine ⟨fun hw => ⟨0, by simp [hw]⟩, fun ⟨i, hi, hw⟩ => ?_⟩
      rcases i with _ | i
      · simpa using hw
      · exact absurd (by simpa using hi) (hnot i)
    · have hne : (key f == key g) = false := by simpa using hg
      have hf' : f ∈ order := (List.mem_cons.1 hf).resolve_left fun heq => hg (congrArg key heq)
      rw [hne, ih hd.2 hf']
      refine ⟨fun ⟨i, hi, hw⟩ => ⟨i + 1, by simpa using hi, by simpa using hw⟩, fun ⟨i, hi, hw⟩ => ?_⟩
      rcases i with _ | i
      · exact absurd (congrArg key (by simpa using hi : g = f).symm) hg
      · exact ⟨i, by simpa using hi, by simpa using hw⟩

theorem record?_array {names : List String} : record? names (.array items) = some named ↔
    items.length ≤ names.length ∧ named = names.zip items := by
  rw [record?]
  split
  · next h => simp [h, eq_comm]
  · next h => simp [h]

theorem record_array_iff (hd : Declares order key) :
    (∃ named, record? (order.map key) (.array items) = some named ∧
      ∀ f, Given (writes f) (absent f) (named.lookup (key f))) ↔
      ∃ shown, shown <+: order ∧ List.Forall₂ writes shown items ∧ ∀ f, f ∉ shown → absent f := by
  simp only [record?_array, List.length_map]
  constructor
  · rintro ⟨_, ⟨hlength, rfl⟩, hgiven⟩
    have hshown : (order.take items.length).length = items.length := List.length_take_of_le hlength
    refine ⟨order.take items.length, List.take_prefix .., ?_, fun f hf => ?_⟩
    · refine List.forall₂_iff_get.2 ⟨hshown, fun i hi hi' => ?_⟩
      have hfield : order[i]? = some ((order.take items.length).get ⟨i, hi⟩) := by
        simp [List.getElem?_eq_getElem (Nat.lt_of_lt_of_le hi' hlength)]
      have hfound := (lookup_zip hd.distinct (hd.all _)).2 ⟨i, hfield, List.getElem?_eq_getElem hi'⟩
      have hf := hgiven ((order.take items.length).get ⟨i, hi⟩)
      rw [hfound] at hf
      exact hf
    · have hnone : ((order.map key).zip items).lookup (key f) = none := by
        refine Option.eq_none_iff_forall_ne_some.2 fun w hw => hf ?_
        obtain ⟨i, hi, hi'⟩ := (lookup_zip hd.distinct (hd.all f)).1 hw
        obtain ⟨hlt, -⟩ := List.getElem?_eq_some_iff.1 hi'
        exact List.mem_of_getElem? ((List.getElem?_take_of_lt hlt).trans hi)
      have hf' := hgiven f
      rw [hnone] at hf'
      exact hf'
  · rintro ⟨shown, hfront, hwrites, habsent⟩
    obtain ⟨hlength, hget⟩ := List.forall₂_iff_get.1 hwrites
    have hfield {i : Nat} (hi : i < shown.length) : order[i]? = some shown[i] := by
      rw [hfront.getElem hi]
      exact List.getElem?_eq_getElem _
    refine ⟨_, ⟨hlength ▸ hfront.length_le, rfl⟩, fun f => ?_⟩
    rcases hfound : ((order.map key).zip items).lookup (key f) with _ | w
    · refine habsent f fun hf => ?_
      obtain ⟨i, hi, rfl⟩ := List.mem_iff_getElem.1 hf
      have hi' : i < items.length := hlength ▸ hi
      cases hfound.symm.trans ((lookup_zip hd.distinct (hd.all _)).2 ⟨i, hfield hi, List.getElem?_eq_getElem hi'⟩)
    · obtain ⟨i, hi, hi'⟩ := (lookup_zip hd.distinct (hd.all f)).1 hfound
      obtain ⟨hlt, rfl⟩ := List.getElem?_eq_some_iff.1 hi'
      have hlt' : i < shown.length := hlength.symm ▸ hlt
      obtain rfl := Option.some.inj ((hfield hlt').symm.trans hi)
      exact hget i hlt' hlt

end arrays

/-- What is found of the fields of a record is what it shows of them. -/
theorem record_iff (hd : Declares order key) :
    (∃ named, record? (order.map key) v = some named ∧ ∀ f, Given (writes f) (absent f) (named.lookup (key f))) ↔
      Record order key writes absent v := by
  cases v with
  | object members =>
    rw [record_object_iff hd]
    refine ⟨fun ⟨shown, h, habsent⟩ => ⟨shown, .object h, habsent⟩, fun ⟨shown, h, habsent⟩ => ?_⟩
    cases h with
    | object h => exact ⟨shown, h, habsent⟩
  | array items =>
    rw [record_array_iff hd]
    refine ⟨fun ⟨shown, hshown, h, habsent⟩ => ⟨shown, .array hshown h, habsent⟩, fun ⟨shown, h, habsent⟩ => ?_⟩
    cases h with
    | array hshown h => exact ⟨shown, hshown, h, habsent⟩
  | _ => exact iff_of_false (fun ⟨_, h, _⟩ => by cases h) fun ⟨_, h, _⟩ => by cases h

section faults

/-- A record gives a field a value: by a member with its name, or by the item in its place. -/
inductive Gives (order : List φ) (key : φ → String) : Value → φ → Value → Prop
  | member {members : List Member} {m : Member} {f : φ} (hm : m ∈ members) (hname : Named m (key f)) :
    Gives order key (.object members) f m.2
  | item {items : List Value} {i : Nat} {f : φ} {w : Value} (hf : order[i]? = some f) (hw : items[i]? = some w) :
    Gives order key (.array items) f w

def Repeats (members : List Member) (name : String) : Prop :=
  ∃ m m', List.Sublist [m, m'] members ∧ Named m name ∧ Named m' name

theorem Named.unique {m : Member} {name' : String} (h : Named m name) (h' : Named m name') : name = name' :=
  String.toList_inj.1 (Option.some.inj (h.symm.trans h'))

theorem Lists.of_mem (hd : Declares order key) (h : Lists key writes shown members) {m : Member} (hm : m ∈ members)
    (hname : Named m (key f)) : f ∈ shown ∧ writes f m.2 := by
  induction h with
  | nil => cases hm
  | @known g m' shown members hname' hvalue hnew h ih =>
    rcases List.mem_cons.1 hm with rfl | hm
    · obtain rfl := hd.injective (hname.unique hname')
      exact ⟨List.mem_cons_self .., hvalue⟩
    · exact ⟨List.mem_cons_of_mem _ (ih hm).1, (ih hm).2⟩
  | @unknown m' name shown members hname' hother h ih =>
    rcases List.mem_cons.1 hm with rfl | hm
    · exact absurd (hname.unique hname') (hother f)
    · exact ih hm

theorem Lists.exists_mem (h : Lists key writes shown members) (hf : f ∈ shown) : ∃ m ∈ members, Named m (key f) := by
  induction h with
  | nil => cases hf
  | @known g m shown members hname hvalue hnew h ih =>
    rcases List.mem_cons.1 hf with rfl | hf
    · exact ⟨m, List.mem_cons_self .., hname⟩
    · obtain ⟨m', hm', hname'⟩ := ih hf
      exact ⟨m', List.mem_cons_of_mem _ hm', hname'⟩
  | @unknown m name shown members hname hother h ih =>
    obtain ⟨m', hm', hname'⟩ := ih hf
    exact ⟨m', List.mem_cons_of_mem _ hm', hname'⟩

theorem Lists.not_repeats (hd : Declares order key) (h : Lists key writes shown members) (f : φ) :
    ¬ Repeats members (key f) := by
  rintro ⟨m, m', hsub, hm, hm'⟩
  induction h with
  | nil => cases hsub
  | @known g m₀ shown members hname hvalue hnew h ih =>
    cases hsub with
    | cons _ hsub => exact ih hsub
    | cons_cons _ hsub =>
      obtain rfl := hd.injective (hm.unique hname)
      exact hnew (h.of_mem hd (hsub.subset (List.mem_singleton_self _)) hm').1
  | @unknown m₀ name shown members hname hother h ih =>
    cases hsub with
    | cons _ hsub => exact ih hsub
    | cons_cons _ hsub => exact hother f (hm.unique hname)

theorem Lists.exists_name (h : Lists key writes shown members) {m : Member} (hm : m ∈ members) : ∃ name, Named m name := by
  induction h with
  | nil => cases hm
  | known hname _ _ _ ih | unknown hname _ _ ih =>
    rcases List.mem_cons.1 hm with rfl | hm
    · exact ⟨_, hname⟩
    · exact ih hm

theorem Shows.of_gives (hd : Declares order key) (h : Shows order key writes shown v) (hg : Gives order key v f w) :
    f ∈ shown ∧ writes f w := by
  cases h with
  | object h =>
    cases hg with
    | member hm hname => exact h.of_mem hd hm hname
  | array hfront h =>
    cases hg with
    | @item _ i _ _ hf hw =>
      obtain ⟨hlength, hget⟩ := List.forall₂_iff_get.1 h
      obtain ⟨hlt, rfl⟩ := List.getElem?_eq_some_iff.1 hw
      have hlt' : i < shown.length := hlength.symm ▸ hlt
      obtain ⟨hlt'', rfl⟩ := List.getElem?_eq_some_iff.1 hf
      have hfield : order[i] = shown[i] := (hfront.getElem hlt').symm
      rw [hfield]
      exact ⟨List.getElem_mem _, hget i hlt' hlt⟩

theorem Shows.gives (h : Shows order key writes shown v) (hf : f ∈ shown) : ∃ w, Gives order key v f w := by
  cases h with
  | object h =>
    obtain ⟨m, hm, hname⟩ := h.exists_mem hf
    exact ⟨m.2, .member hm hname⟩
  | array hfront h =>
    obtain ⟨hlength, -⟩ := List.forall₂_iff_get.1 h
    obtain ⟨i, hi, rfl⟩ := List.mem_iff_getElem.1 hf
    have hi' : i < order.length := Nat.lt_of_lt_of_le hi hfront.length_le
    refine ⟨_, .item (i := i) ?_ (List.getElem?_eq_getElem (hlength ▸ hi))⟩
    rw [hfront.getElem hi]
    exact List.getElem?_eq_getElem hi'

theorem Record.of_gives (hd : Declares order key) (h : Record order key writes absent v) (hg : Gives order key v f w) :
    writes f w := by
  obtain ⟨shown, h, -⟩ := h
  exact (h.of_gives hd hg).2

theorem Record.absent_of_none (h : Record order key writes absent v) (hnone : ∀ w, ¬ Gives order key v f w) : absent f := by
  obtain ⟨shown, h, habsent⟩ := h
  refine habsent f fun hf => ?_
  obtain ⟨w, hw⟩ := h.gives hf
  exact hnone w hw

inductive Misnamed (key : φ → String) : Value → Prop
  | repeated {members : List Member} {f : φ} (h : Repeats members (key f)) : Misnamed key (.object members)
  | noText {members : List Member} {m : Member} (hm : m ∈ members) (h : ∀ name, ¬ Named m name) :
    Misnamed key (.object members)

theorem Record.not_misnamed (hd : Declares order key) (h : Record order key writes absent v) : ¬ Misnamed key v := by
  obtain ⟨shown, h, -⟩ := h
  intro hv
  cases h with
  | object h =>
    cases hv with
    | repeated hrepeats => exact h.not_repeats hd _ hrepeats
    | noText hm hnone =>
      obtain ⟨name, hname⟩ := h.exists_name hm
      exact hnone name hname
  | array => cases hv

end faults

end KeyFob.Config
