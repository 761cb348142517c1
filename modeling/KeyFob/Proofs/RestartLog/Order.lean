import KeyFob.Proofs.RestartLog.Ring

/-!
One restart log at a time, over a store whose writes may fail. The log moves on from a slot even if nothing could be put
there, and a new log starts where the position was last stored. Either can leave the ring begun in the middle of the
records; as long as none has, they are listed in the order in which they were made.
-/

namespace KeyFob.RestartLog

inductive Act
  | record (r : RestartRecord)
  | reload
deriving DecidableEq, Repr

abbrev Numbered := Nat × RestartRecord

/-- The records around the ring stand in the order in which they were made. -/
def InOrder (ring : List (Option Numbered)) : Prop := ring.reduceOption.Pairwise (·.1 < ·.1)

/-- Of the first slots of the ring one holds a record, and of the others too. -/
def Splits (ring : List (Option Numbered)) (k : Nat) : Prop :=
  (ring.take k).reduceOption ≠ [] ∧ (ring.drop k).reduceOption ≠ []

section

variable {entries : List (Option Numbered)} {p q : Numbered} {k : Nat}

/-- Two parts that are in order may change places only if one of them is empty. -/
theorem pairwise_swap {as bs : List Numbered} (h : (as ++ bs).Pairwise (·.1 < ·.1)) :
    (bs ++ as).Pairwise (·.1 < ·.1) ↔ as = [] ∨ bs = [] := by
  obtain ⟨has, hbs, hcross⟩ := List.pairwise_append.1 h
  constructor
  · intro hswap
    obtain ⟨-, -, hback⟩ := List.pairwise_append.1 hswap
    cases as with
    | nil => exact Or.inl rfl
    | cons a as =>
      cases bs with
      | nil => exact Or.inr rfl
      | cons b bs =>
        have hlt := hcross a List.mem_cons_self b List.mem_cons_self
        exact absurd hlt (Nat.lt_asymm (hback b List.mem_cons_self a List.mem_cons_self))
  · rintro (rfl | rfl)
    · rwa [List.append_nil]
    · exact has

/-- Begun a few slots later, a ring in order stays so unless it is split. -/
theorem InOrder.rotate (h : InOrder entries) (hk : k ≤ entries.length) : InOrder (entries.rotate k) ↔ ¬ Splits entries k := by
  unfold InOrder at h ⊢
  rw [← List.take_append_drop k entries, List.reduceOption_append] at h
  rw [List.rotate_eq_drop_append_take hk, List.reduceOption_append, pairwise_swap h, Splits, not_and_or, not_not, not_not]

/-- A newer record comes last. -/
theorem InOrder.concat (h : InOrder entries) (hp : ∀ q, some q ∈ entries → q.1 < p.1) : InOrder (entries.tail ++ [some p]) := by
  unfold InOrder at h ⊢
  rw [List.reduceOption_append]
  refine List.pairwise_append.2 ⟨h.sublist ?_, List.pairwise_singleton _ _, fun q hq p' hp' => ?_⟩
  · exact (List.tail_sublist entries).filterMap id
  · rw [List.mem_singleton.1 hp']
    exact hp q (List.mem_of_mem_tail (List.reduceOption_mem_iff.1 hq))

/-- Of a ring in order the last record is the newest. -/
theorem InOrder.le_last (h : InOrder entries) (hp : entries.getLast? = some (some p)) (hq : some q ∈ entries) : q.1 ≤ p.1 := by
  obtain ⟨older, rfl⟩ := List.getLast?_eq_some_iff.1 hp
  rw [InOrder, List.reduceOption_append] at h
  rcases List.mem_append.1 hq with hq | hq
  · exact Nat.le_of_lt ((List.pairwise_append.1 h).2.2 q (List.reduceOption_mem_iff.2 hq) p (List.mem_singleton.2 rfl))
  · cases List.mem_singleton.1 hq
    exact Nat.le_refl _

end

/-- A log in use and, for each slot, the last record that the store took into it. -/
structure Track (κ : Type) where
  shelf : Shelf κ
  log : RestartLog := {}
  made : Nat := 0
  lies : Nat → Option Numbered := fun _ => none

variable {κ : Type} [Storage κ]

namespace Track

def act (t : Track κ) : Act → Track κ
  | .record r =>
    let (log, shelf) := t.log.record r t.shelf
    { shelf, log, made := t.made + 1,
      lies := if t.log.taken r t.shelf then Function.update t.lies t.log.next (some (t.made, r)) else t.lies }
  | .reload =>
    let (log, shelf) := load {} t.shelf
    { t with shelf, log }

def ofActs (s : Shelf κ) (acts : List Act) : Track κ := acts.foldl act { shelf := s }

def ring (t : Track κ) : List (Option Numbered) := around t.lies t.log.next

/-- The ring is begun anew in the middle of the records: behind a slot that keeps its old one, or where a new log takes
it up. -/
def Disorders (t : Track κ) : Act → Prop
  | .record r => t.log.taken r t.shelf = false ∧ Splits t.ring 1
  | .reload => Splits t.ring (((load {} t.shelf).1.next + slots - t.log.next) % slots)

/-- The records are listed in the order in which they were made, and the newest was made last of all that are there. -/
structure Faithful (t : Track κ) : Prop where
  ordered : InOrder t.ring
  newest (p q : Numbered) (h : t.ring.getLast? = some (some p)) (hq : some q ∈ t.ring) : q.1 ≤ p.1

omit [Storage κ] in
theorem faithful_iff {t : Track κ} : t.Faithful ↔ InOrder t.ring := ⟨Faithful.ordered, fun h => ⟨h, fun _ _ => h.le_last⟩⟩

variable [Legible κ] {t : Track κ}

/-- The slots show what lies there, none of it newer than the last record made. -/
structure Sound (t : Track κ) : Prop where
  next_lt : t.log.next < slots
  shows_lies : Shows (Option.map Prod.snd ∘ t.lies) t.shelf
  older (n : Nat) (p : Numbered) (h : t.lies n = some p) : p.1 < t.made

theorem Sound.init {s : Shelf κ} (h : ∀ key, Honest.contents s.store space key = none) : Sound { shelf := s } where
  next_lt := Nat.zero_lt_succ 3
  shows_lies n _ := by
    rw [kept, Contents.read, h]
    rfl
  older _ _ h := nomatch h

theorem Sound.record (h : t.Sound) (r : RestartRecord) : (t.act (.record r)).Sound := by
  obtain ⟨hlog, hshows⟩ := record_shows h.next_lt r h.shows_lies
  refine ⟨?_, ?_, fun n p hp => ?_⟩
  · change (t.log.record r t.shelf).1.next < slots
    rw [hlog]
    exact RestartLog.next_lt _
  · change Shows (_ ∘ if t.log.taken r t.shelf then _ else _) (t.log.record r t.shelf).2
    split at hshows
    · next htaken =>
      rw [if_pos htaken, Function.comp_update]
      exact hshows
    · next htaken =>
      rw [if_neg htaken]
      exact hshows
  · change (if t.log.taken r t.shelf then Function.update t.lies t.log.next (some (t.made, r)) else t.lies) n = some p at hp
    change p.1 < t.made + 1
    split at hp
    · by_cases hn : n = t.log.next
      · rw [hn, Function.update_self] at hp
        cases hp
        exact Nat.lt_succ_self _
      · rw [Function.update_of_ne hn] at hp
        exact Nat.lt_succ_of_lt (h.older n p hp)
    · exact Nat.lt_succ_of_lt (h.older n p hp)

theorem Sound.reload (h : t.Sound) : (t.act .reload).Sound := by
  obtain ⟨hholds, hlog⟩ := load_legible t.shelf rfl
  refine ⟨?_, fun n hn => ?_, h.older⟩
  · change (load {} t.shelf).1.next < slots
    rw [hlog]
    exact position_lt _
  · change kept (Honest.contents (load {} t.shelf).2.store) n = _
    rw [hholds]
    exact h.shows_lies n hn

theorem Sound.act (h : t.Sound) (a : Act) : (t.act a).Sound := by
  cases a with
  | record r => exact h.record r
  | reload => exact h.reload

theorem sound_ofActs {s : Shelf κ} (h : ∀ key, Honest.contents s.store space key = none) (acts : List Act) :
    (ofActs s acts).Sound :=
  List.foldlRecOn acts act (Sound.init h) fun _ h a _ => h.act a

theorem Sound.ring_record (h : t.Sound) (r : RestartRecord) : (t.act (.record r)).ring =
    if t.log.taken r t.shelf then t.ring.tail ++ [some (t.made, r)] else t.ring.rotate 1 := by
  obtain ⟨hlog, -⟩ := record_shows h.next_lt r h.shows_lies
  change around (if t.log.taken r t.shelf then _ else _) (t.log.record r t.shelf).1.next = _
  rw [hlog, around_mod]
  split
  · exact around_update _ h.next_lt _
  · exact around_succ _ _

theorem Sound.ring_reload (h : t.Sound) : (t.act .reload).ring =
    t.ring.rotate (((load {} t.shelf).1.next + slots - t.log.next) % slots) := by
  obtain ⟨-, hlog⟩ := load_legible t.shelf rfl
  have hnext : (load {} t.shelf).1.next < slots := by
    rw [hlog]
    exact position_lt _
  have hlt := h.next_lt
  change around t.lies (load {} t.shelf).1.next = _
  have hlap : (t.log.next + ((load {} t.shelf).1.next + slots - t.log.next) % slots) % slots = (load {} t.shelf).1.next := by
    change (t.log.next + ((load {} t.shelf).1.next + 4 - t.log.next) % 4) % 4 = _
    change t.log.next < 4 at hlt
    change (load {} t.shelf).1.next < 4 at hnext
    omega
  rw [ring, ← around_add, ← around_mod _ (t.log.next + _), hlap]

/-- Nothing but a split puts a ring in order out of it. -/
theorem Sound.inOrder_act (h : t.Sound) (ht : InOrder t.ring) (a : Act) : InOrder (t.act a).ring ↔ ¬ t.Disorders a := by
  have hlength : t.ring.length = slots := length_around _ _
  cases a with
  | reload =>
    rw [h.ring_reload]
    refine ht.rotate ?_
    rw [hlength]
    exact Nat.le_of_lt (Nat.mod_lt _ (by decide))
  | record r =>
    rw [h.ring_record, Disorders]
    cases htaken : t.log.taken r t.shelf with
    | false =>
      have hone : 1 ≤ t.ring.length := by
        rw [hlength]
        decide
      rw [if_neg Bool.false_ne_true, ht.rotate hone, eq_self, true_and]
    | true =>
      refine iff_of_true (ht.concat fun q hq => ?_) nofun
      obtain ⟨m, -, hm⟩ := exists_of_mem_around hq
      exact h.older m q hm

/-- What a log reads is what lies around the ring. -/
theorem Sound.reads (h : t.Sound) : (t.log.all t.shelf).1 = t.ring.reduceOption.map Prod.snd ∧
    some (t.log.latest t.shelf).1 = t.ring.getLast?.map (Option.map Prod.snd) := by
  have hring : around (kept (Honest.contents t.shelf.store)) t.log.next = t.ring.map (Option.map Prod.snd) := by
    rw [around_congr h.shows_lies, ring, map_around]
  refine ⟨?_, ?_⟩
  · rw [(all_legible t.log t.shelf rfl).2, hring, List.reduceOption_map]
  · rw [← (latest_legible t.log t.shelf rfl).2, hring, List.getLast?_map]

/-- The log reads what lies around the ring; and it has done so in order at all times if and only if the ring was never
begun anew in the middle of the records. -/
theorem faithful_until_disordered (s : Shelf κ) (h : ∀ key, Honest.contents s.store space key = none) (acts : List Act) :
    let t := ofActs s acts
    (t.log.all t.shelf).1 = t.ring.reduceOption.map Prod.snd ∧
      some (t.log.latest t.shelf).1 = t.ring.getLast?.map (Option.map Prod.snd) ∧
      ((∀ before, before <+: acts → (ofActs s before).Faithful) ↔
        ∀ before a, before ++ [a] <+: acts → ¬ (ofActs s before).Disorders a) := by
  obtain ⟨hall, hlatest⟩ := (sound_ofActs h acts).reads
  refine ⟨hall, hlatest, fun hfaithful before a hbefore => ?_, fun hnever before => ?_⟩
  · have hact : (ofActs s (before ++ [a])).Faithful := hfaithful _ hbefore
    rw [ofActs, List.foldl_concat, faithful_iff] at hact
    have hordered := (hfaithful before ((List.prefix_append before [a]).trans hbefore)).ordered
    exact ((sound_ofActs h before).inOrder_act hordered a).1 hact
  · induction before using List.reverseRecOn with
    | nil => exact fun _ => faithful_iff.2 List.Pairwise.nil
    | append_singleton before a ih =>
      intro hbefore
      have hordered := (ih ((List.prefix_append before [a]).trans hbefore)).ordered
      rw [ofActs, List.foldl_concat, faithful_iff]
      exact ((sound_ofActs h before).inOrder_act hordered a).2 (hnever before a hbefore)

/-- The oldest of the four records that fill the ring stays where the fifth one was to go. -/
theorem oldest_named_newest :
    let s : Shelf WornStore := { store := { outages := List.replicate 8 none ++ [some .ioError] } }
    let t := ofActs s ([1, 2, 3, 4, 5].map fun uptime => .record ⟨uptime, .hardReset⟩)
    (∀ key, Honest.contents s.store space key = none) ∧
      (t.log.all t.shelf).1 = [⟨2, .hardReset⟩, ⟨3, .hardReset⟩, ⟨4, .hardReset⟩, ⟨1, .hardReset⟩] ∧
      (t.log.latest t.shelf).1 = some ⟨1, .hardReset⟩ ∧ ¬ t.Faithful := by
  refine ⟨fun _ => rfl, by decide +kernel, by decide +kernel, ?_⟩
  rw [faithful_iff, InOrder]
  decide +kernel

/-- A fob whose store could not keep the position behind the second record. -/
def lostPosition : Shelf WornStore := { store := { outages := [none, none, none, some .full] } }

def twoRecords : List Act := [.record ⟨1, .taskPanic⟩, .record ⟨2, .hardReset⟩]

theorem disordered_behind_a_lost_position : (∀ key, Honest.contents lostPosition.store space key = none) ∧
    (ofActs lostPosition twoRecords).Disorders .reload ∧
      ¬ ∀ before, before <+: twoRecords ++ [.reload] → (ofActs lostPosition before).Faithful := by
  have hempty : ∀ key, Honest.contents lostPosition.store space key = none := fun _ => rfl
  have hdisorders : (ofActs lostPosition twoRecords).Disorders .reload := by
    unfold Disorders Splits
    decide +kernel
  refine ⟨hempty, hdisorders, fun hfaithful => ?_⟩
  have hnever := (faithful_until_disordered lostPosition hempty (twoRecords ++ [.reload])).2.2.1 hfaithful
  exact hnever twoRecords .reload (List.prefix_refl _) hdisorders

end Track

end KeyFob.RestartLog
