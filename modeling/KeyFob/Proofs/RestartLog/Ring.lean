import Mathlib.Data.List.ReduceOption
import Mathlib.Data.List.Rotate
import KeyFob.Proofs.Packed
import KeyFob.Proofs.Storage.Reliable
import KeyFob.RestartLog

/-!
The ring of records as a store holds it. `kept` is the record in a slot and `around` what lies around the ring from a slot
on, so that reading lists `around`, and to record moves one slot on and puts the record last. `position` is the slot at
which a new log takes the ring up.
-/

namespace KeyFob

namespace RestartRecord

theorem reads (r : RestartRecord) : Packed.Reads reader r.encode r := by
  have hindex : r.reason.index < 2 ^ 32 := by cases r.reason <;> decide
  refine (Packed.reads_u64 r.uptimeMs).bind <| (Packed.reads_nat (by decide) hindex).last ?_
  rw [Restart.Reason.ofIndex?_index]
  exact .pure r

theorem decode?_encode (r : RestartRecord) : decode? r.encode = some r := by
  have h := r.reads []
  rw [List.append_nil] at h
  rw [decode?, h]
  rfl

theorem length_encode_le (r : RestartRecord) : r.encode.length ≤ RestartLog.recordSize := by
  have huptime := Packed.length_encodeNat_le 9 r.uptimeMs.toNat (Nat.lt_trans r.uptimeMs.toNat_lt (by decide))
  have hreason := Packed.length_encodeNat_le 0 r.reason.index (by cases r.reason <;> decide)
  have hsize : RestartLog.recordSize = 32 := rfl
  rw [encode, List.length_append]
  omega

end RestartRecord

namespace RestartLog

section around

variable {α β : Type} {f g : Nat → α}

def around (f : Nat → α) (n : Nat) : List α := (List.range slots).map fun i => f ((n + i) % slots)

@[simp] theorem length_around (f : Nat → α) (n : Nat) : (around f n).length = slots := by
  rw [around, List.length_map, List.length_range]

theorem around_congr (h : ∀ n < slots, f n = g n) (n : Nat) : around f n = around g n :=
  List.map_congr_left fun _ _ => h _ (Nat.mod_lt _ (by decide))

theorem exists_of_mem_around {n : Nat} {a : α} (h : a ∈ around f n) : ∃ m < slots, f m = a := by
  obtain ⟨i, -, rfl⟩ := List.mem_map.1 h
  exact ⟨_, Nat.mod_lt _ (by decide), rfl⟩

theorem map_around (h : α → β) (f : Nat → α) (n : Nat) : (around f n).map h = around (h ∘ f) n := by
  rw [around, List.map_map]
  rfl

theorem around_mod (f : Nat → α) (n : Nat) : around f (n % slots) = around f n := by
  refine List.map_congr_left fun i _ => ?_
  rw [Nat.mod_add_mod]

theorem around_succ (f : Nat → α) (n : Nat) : around f (n + 1) = (around f n).rotate 1 := by
  have hlap : (n + 1 + 3) % slots = n % slots := Nat.add_mod_right n slots
  change [f ((n + 1) % slots), f ((n + 1 + 1) % slots), f ((n + 1 + 2) % slots), f ((n + 1 + 3) % slots)] =
    [f ((n + 1) % slots), f ((n + 2) % slots), f ((n + 3) % slots), f (n % slots)]
  rw [hlap]

/-- From a slot further on, the ring is the same, begun later. -/
theorem around_add (f : Nat → α) (n k : Nat) : around f (n + k) = (around f n).rotate k := by
  induction k with
  | zero => exact (List.rotate_zero _).symm
  | succ k ih => rw [← Nat.add_assoc, around_succ, ih, List.rotate_rotate]

/-- What is put into the slot at which the ring begins lies last from the next slot on. -/
theorem around_update (f : Nat → α) {n : Nat} (hn : n < slots) (a : α) :
    around (Function.update f n a) (n + 1) = (around f n).tail ++ [a] := by
  have hslot : ∀ i, 0 < i → i < slots → Function.update f n a ((n + i) % slots) = f ((n + i) % slots) := by
    intro i hi hlt
    have hne : (n + i) % slots ≠ n := by
      change n < 4 at hn
      change i < 4 at hlt
      change (n + i) % 4 ≠ n
      omega
    exact Function.update_of_ne hne _ _
  have hself : Function.update f n a (n % slots) = a := by rw [Nat.mod_eq_of_lt hn, Function.update_self]
  rw [around_succ]
  change [Function.update f n a ((n + 1) % slots), Function.update f n a ((n + 2) % slots),
    Function.update f n a ((n + 3) % slots), Function.update f n a (n % slots)] =
    [f ((n + 1) % slots), f ((n + 2) % slots), f ((n + 3) % slots), a]
  rw [hslot 1 (by decide) (by decide), hslot 2 (by decide) (by decide), hslot 3 (by decide) (by decide), hself]

theorem getLast?_around (f : Nat → α) (n : Nat) : (around f n).getLast? = some (f ((n + slots - 1) % slots)) := rfl

end around

theorem slotKey_inj : ∀ n < slots, ∀ m < slots, slotKey n = slotKey m → n = m := by decide

theorem slotKey_ne_nextKey : ∀ n < slots, slotKey n ≠ nextKey := by decide

theorem next_lt (n : Nat) : (n + 1) % slots < slots := Nat.mod_lt _ (by decide)

theorem decodeNext?_encodeNext : ∀ n < slots, decodeNext? (encodeNext n) = some n := by decide

/-- The record that can be read in a slot. -/
def kept (C : Contents) (n : Nat) : Option RestartRecord :=
  match C.read space (slotKey n) recordSize with
  | .ok bytes => RestartRecord.decode? bytes
  | .error _ => none

/-- The slot at which a new log takes the ring up. -/
def position (C : Contents) : Nat :=
  match C.read space nextKey 4 with
  | .ok bytes => (decodeNext? bytes).getD 0
  | .error _ => 0

variable {C : Contents} {n m : Nat} {r : RestartRecord}

theorem position_lt (C : Contents) : position C < slots := by
  unfold position
  split
  · next bytes _ =>
    unfold decodeNext?
    split
    · exact Nat.mod_lt _ (by decide)
    · decide
  · decide

theorem kept_set_slot (C : Contents) (r : RestartRecord) (hn : n < slots) (hm : m < slots) :
    kept (C.set space (slotKey n) (some r.encode)) m = Function.update (kept C) n (some r) m := by
  by_cases h : m = n
  · subst h
    have hread := Contents.read_eq_ok_iff.2 ⟨C.set_self space (slotKey m) (some r.encode), r.length_encode_le⟩
    rw [Function.update_self, kept, hread]
    exact r.decode?_encode
  · have hkey : ¬ (space = space ∧ slotKey m = slotKey n) := fun hk => h (slotKey_inj m hm n hn hk.2)
    rw [Function.update_of_ne h, kept, Contents.read, C.set_of_ne _ hkey]
    rfl

theorem kept_set_next (C : Contents) (value : Option Bytes) (hn : n < slots) :
    kept (C.set space nextKey value) n = kept C n := by
  rw [kept, Contents.read, C.set_of_ne _ fun hk => slotKey_ne_nextKey n hn hk.2]
  rfl

theorem position_set_next (C : Contents) (hn : n < slots) :
    position (C.set space nextKey (some (encodeNext n))) = n := by
  have hread : (C.set space nextKey (some (encodeNext n))).read space nextKey 4 = .ok (encodeNext n) :=
    Contents.read_eq_ok_iff.2 ⟨C.set_self _ _ _, Nat.le_refl 4⟩
  rw [position, hread]
  change (decodeNext? (encodeNext n)).getD 0 = n
  rw [decodeNext?_encodeNext n hn]
  rfl

/-- What the store holds once a record was put into this slot and the position moved on. -/
def recorded (C : Contents) (n : Nat) (r : RestartRecord) : Contents :=
  (C.set space (slotKey n) (some r.encode)).set space nextKey (some (encodeNext ((n + 1) % slots)))

theorem position_recorded (C : Contents) (n : Nat) (r : RestartRecord) : position (recorded C n r) = (n + 1) % slots :=
  position_set_next _ (next_lt n)

theorem around_recorded (C : Contents) (hn : n < slots) (r : RestartRecord) :
    around (kept (recorded C n r)) ((n + 1) % slots) = (around (kept C) n).tail ++ [some r] := by
  have hkept : ∀ m < slots, kept (recorded C n r) m = Function.update (kept C) n (some r) m := fun m hm =>
    (kept_set_next _ _ hm).trans (kept_set_slot C r hn hm)
  rw [around_congr hkept, around_mod, around_update _ hn]

variable {κ : Type} [Storage κ]

def slotTold : Except StorageError Bytes → Nat
  | .ok bytes => (decodeNext? bytes).getD 0
  | .error _ => 0

theorem load_eq (s : Shelf κ) :
    load {} s = (⟨slotTold (OnShelf.read space nextKey 4 s).1⟩, (OnShelf.read space nextKey 4 s).2) := by
  have hload : Leads (· = s) (load {} : OnShelf κ _) fun l s' => (l, s') =
      (⟨slotTold (OnShelf.read space nextKey 4 s).1⟩, (OnShelf.read space nextKey 4 s).2) := by
    refine Leads.bind (Q := fun r s' => (r, s') = OnShelf.read space nextKey 4 s) (fun _ h => h ▸ rfl) fun r => ?_
    cases r with
    | error e => exact .pure fun s' h => by rw [← h]; rfl
    | ok bytes =>
      refine .pure fun s' h => ?_
      rw [← h, slotTold]
      dsimp only
      cases decodeNext? bytes <;> rfl
  exact hload s rfl

section Legible

variable [Legible κ]

theorem load_legible : Leads (Shelf.Holds C) (load {} : OnShelf κ _) fun l s => s.Holds C ∧ l = ⟨position C⟩ := by
  intro s hs
  obtain ⟨hholds, hread⟩ := OnShelf.read_legible space nextKey 4 s hs
  rw [load_eq, hread]
  exact ⟨hholds, rfl⟩

theorem readSlot_legible (n : Nat) :
    Leads (Shelf.Holds C) (readSlot n : OnShelf κ _) fun r s => s.Holds C ∧ r = kept C n := by
  refine (OnShelf.read_legible _ _ _).bind fun read => ?_
  cases hread : read with
  | error e => exact .pure fun s ⟨hs, he⟩ => ⟨hs, by rw [kept, ← he]⟩
  | ok bytes => exact .pure fun s ⟨hs, he⟩ => ⟨hs, by rw [kept, ← he]⟩

theorem readFrom_legible (slot count : Nat) :
    Leads (Shelf.Holds C) (readFrom slot count : OnShelf κ _) fun rs s => s.Holds C ∧
      rs = ((List.range count).map fun i => kept C ((slot + i) % slots)).reduceOption := by
  induction count generalizing slot with
  | zero => exact .pure fun s hs => ⟨hs, rfl⟩
  | succ count ih =>
    refine (readSlot_legible _).bind fun first => ?_
    rintro s ⟨hs, rfl⟩
    obtain ⟨hrest, heq⟩ := ih (slot + 1) s hs
    refine ⟨hrest, ?_⟩
    have hshift : ((List.range count).map Nat.succ).map (fun i => kept C ((slot + i) % slots)) =
        (List.range count).map fun i => kept C ((slot + 1 + i) % slots) := by
      rw [List.map_map]
      refine List.map_congr_left fun i _ => ?_
      rw [Function.comp_apply, Nat.succ_eq_add_one, Nat.add_right_comm, Nat.add_assoc]
    change (kept C (slot % slots)).toList ++ (readFrom (slot + 1) count s).1 = _
    rw [heq, List.range_succ_eq_map, List.map_cons, hshift, Nat.add_zero]
    cases kept C (slot % slots) with
    | none => rfl
    | some r => rfl

theorem all_legible (l : RestartLog) :
    Leads (Shelf.Holds C) (l.all : OnShelf κ _) fun rs s => s.Holds C ∧ rs = (around (kept C) l.next).reduceOption :=
  readFrom_legible l.next slots

theorem latest_legible (l : RestartLog) :
    Leads (Shelf.Holds C) (l.latest : OnShelf κ _) fun r s => s.Holds C ∧ (around (kept C) l.next).getLast? = some r :=
  (readSlot_legible _).mono fun _ _ ⟨hs, hr⟩ => ⟨hs, hr ▸ getLast?_around _ _⟩

end Legible

section Honest

variable [Honest κ]

/-- These records can be read in the slots. -/
def Shows (f : Nat → Option RestartRecord) (s : Shelf κ) : Prop := ∀ n < slots, kept (Honest.contents s.store) n = f n

def taken (l : RestartLog) (r : RestartRecord) (s : Shelf κ) : Bool :=
  (OnShelf.write space (slotKey l.next) r.encode s).1.isOk

theorem writeSlot_shows {l : RestartLog} {f : Nat → Option RestartRecord} {s : Shelf κ} (hl : l.next < slots)
    (r : RestartRecord) (hs : Shows f s) : Shows (if l.taken r s then Function.update f l.next (some r) else f)
      (OnShelf.write space (slotKey l.next) r.encode s).2 := by
  intro n hn
  have hwrite := OnShelf.write_leads space (slotKey l.next) r.encode s rfl
  unfold taken
  cases hwrote : (OnShelf.write space (slotKey l.next) r.encode s).1 with
  | error e =>
    rw [hwrote] at hwrite
    rw [hwrite]
    exact hs n hn
  | ok _ =>
    rw [hwrote] at hwrite
    rw [hwrite, kept_set_slot _ r hl hn]
    change _ = Function.update f l.next (some r) n
    by_cases h : n = l.next
    · rw [h, Function.update_self, Function.update_self]
    · rw [Function.update_of_ne h, Function.update_of_ne h, hs n hn]

theorem writeNext_shows {f : Nat → Option RestartRecord} (bytes : Bytes) :
    Leads (Shows f) (OnShelf.write space nextKey bytes : OnShelf κ _) fun _ => Shows f := by
  intro s hs n hn
  have hwrite := OnShelf.write_leads space nextKey bytes s rfl
  cases hwrote : (OnShelf.write space nextKey bytes s).1 with
  | error e =>
    rw [hwrote] at hwrite
    rw [hwrite]
    exact hs n hn
  | ok _ =>
    rw [hwrote] at hwrite
    rw [hwrite, kept_set_next _ _ hn]
    exact hs n hn

/-- The log moves on whether the record was taken or not. -/
theorem record_shows {l : RestartLog} {f : Nat → Option RestartRecord} {s : Shelf κ} (hl : l.next < slots)
    (r : RestartRecord) (hs : Shows f s) : (l.record r s).1 = ⟨(l.next + 1) % slots⟩ ∧
      Shows (if l.taken r s then Function.update f l.next (some r) else f) (l.record r s).2 := by
  generalize hg : (if l.taken r s then Function.update f l.next (some r) else f) = g
  have hslot : Leads (· = s) (OnShelf.write space (slotKey l.next) r.encode : OnShelf κ _) fun _ => Shows g := by
    rintro s rfl
    exact hg ▸ writeSlot_shows hl r hs
  have hrest : Leads (Shows g) (do
      let _ ← OnShelf.write space nextKey (encodeNext ((l.next + 1) % slots))
      return ⟨(l.next + 1) % slots⟩ : OnShelf κ RestartLog) fun l' s => l' = ⟨(l.next + 1) % slots⟩ ∧ Shows g s :=
    (writeNext_shows _).bind fun _ => .pure fun _ h => ⟨rfl, h⟩
  have hrecord : Leads (· = s) (l.record r : OnShelf κ _) fun l' s => l' = ⟨(l.next + 1) % slots⟩ ∧ Shows g s := by
    refine hslot.bind fun wrote => ?_
    cases wrote with
    | ok _ => exact hrest
    | error e => exact fun s h => hrest _ h
  exact hrecord s rfl

end Honest

section Reliable

variable [Reliable κ]

theorem record_reliable (l : RestartLog) (r : RestartRecord) : Leads (Shelf.Holds C) (l.record r : OnShelf κ _) fun l' s =>
    l' = ⟨(l.next + 1) % slots⟩ ∧ s.Holds (recorded C l.next r) := by
  refine (OnShelf.write_reliable _ _ _).bind fun wrote => ?_
  rintro s ⟨rfl, hs⟩
  exact ⟨rfl, (OnShelf.write_reliable _ _ _ s hs).2⟩

end Reliable

end RestartLog

end KeyFob
