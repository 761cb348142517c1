import KeyFob.Card.Response
import Mathlib.Data.List.Induction

/-!
A response under every history of edits. It never outgrows its buffer. Data goes in whole or not at all, and wherever it
goes in it leaves room for the status word behind it; a status word can be dropped only where others stand already.
-/

namespace KeyFob.Card

/-- The two bytes of a status word say the same word, the more significant byte first. -/
theorem StatusWord.toBytes_eq (sw : StatusWord) :
    ∃ hi lo, sw.toBytes = [hi, lo] ∧ 256 * hi.toNat + lo.toNat = sw.word.toNat := by
  refine ⟨_, _, rfl, ?_⟩
  have hlt := sw.word.toNat_lt
  have hshift : (sw.word >>> 8).toNat = sw.word.toNat / 256 := Nat.shiftRight_eq_div_pow sw.word.toNat 8
  simp only [UInt16.toNat_toUInt8, hshift]
  omega

namespace Response

inductive Edit
  | push (data : Bytes)
  | setStatus (sw : StatusWord)
  | reject (sw : StatusWord)
  | clear
deriving DecidableEq, Repr

def Edit.apply (r : Response) : Edit → Response
  | push data => r.push data
  | setStatus sw => r.setStatus sw
  | reject sw => r.reject sw
  | clear => r.clear

def after (edits : List Edit) : Response := edits.foldl Edit.apply empty

variable {r r' : Response} {data : Bytes} {edits : List Edit}

@[simp] theorem after_concat (edits : List Edit) (e : Edit) : after (edits ++ [e]) = e.apply (after edits) := by
  simp [after]

theorem push?_eq_some : r.push? data = some r' ↔ r.length + data.length + 2 ≤ 1024 ∧ r' = ⟨r.bytes ++ data⟩ := by
  rw [push?]
  split
  · next hroom => simp [length, show r.bytes.length + data.length + 2 ≤ 1024 from hroom, eq_comm]
  · next hroom => simp [length, show ¬ r.bytes.length + data.length + 2 ≤ 1024 from hroom]

theorem push?_eq_none : r.push? data = none ↔ 1024 < r.length + data.length + 2 := by
  rw [push?]
  split
  · next hroom => exact iff_of_false nofun (Nat.not_lt.2 hroom)
  · next hroom => exact iff_of_true rfl (Nat.not_le.1 hroom)

theorem push_of_none (h : r.push? data = none) : r.push data = r := by
  rw [push, h]
  rfl

theorem push_of_some (h : r.push? data = some r') : r.push data = r' := by
  rw [push, h]
  rfl

theorem bytes_setStatus (h : r.length ≤ 1022) (sw : StatusWord) : (r.setStatus sw).bytes = r.bytes ++ sw.toBytes := by
  have hfits : r.bytes.length + 2 ≤ capacity := Nat.add_le_add_right h 2
  rw [setStatus, if_pos hfits]

theorem setStatus_of_full (h : 1022 < r.length) (sw : StatusWord) : r.setStatus sw = r := by
  have hfull : ¬ r.bytes.length + 2 ≤ capacity := by
    simp only [length, capacity] at h ⊢
    omega
  rw [setStatus, if_neg hfull]

/-- A status word that stands last is read back. -/
theorem status?_of_bytes {bs : Bytes} {sw : StatusWord} (h : r.bytes = bs ++ sw.toBytes) : r.status? = some sw := by
  obtain ⟨hi, lo, hbytes, hword⟩ := sw.toBytes_eq
  have hback : StatusWord.ofBytes hi lo = sw := by
    rw [StatusWord.ofBytes, beWord, hword, UInt16.ofNat_toNat]
  rw [hbytes] at h
  simp [status?, h, hback]

/-- No edit lets a response outgrow its buffer. -/
theorem apply_fits (e : Edit) (h : r.length ≤ 1024) : (e.apply r).length ≤ 1024 := by
  cases e with
  | push data =>
    cases hp : r.push? data with
    | none => simpa only [Edit.apply, push_of_none hp] using h
    | some r' =>
      obtain ⟨hroom, rfl⟩ := push?_eq_some.1 hp
      simp only [Edit.apply, push_of_some hp, length, List.length_append] at hroom ⊢
      omega
  | setStatus sw =>
    by_cases hroom : r.length ≤ 1022
    · have hbytes := congrArg List.length (bytes_setStatus hroom sw)
      rw [List.length_append, sw.length_toBytes] at hbytes
      simp only [Edit.apply, length] at hroom ⊢
      omega
    · simpa only [Edit.apply, setStatus_of_full (Nat.not_le.1 hroom)] using h
  | reject sw =>
    have hlength : (r.reject sw).length = 2 := sw.length_toBytes
    rw [Edit.apply, hlength]
    decide
  | clear => exact Nat.zero_le _

theorem after_fits (edits : List Edit) : (after edits).length ≤ 1024 := by
  induction edits using List.reverseRecOn with
  | nil => exact Nat.zero_le _
  | append_singleton edits e ih =>
    rw [after_concat]
    exact apply_fits e ih

/-- The places at which a status word is due: nothing has been written yet, everything has been cleared, or data has just
gone in. -/
inductive Awaits : List Edit → Prop
  | new : Awaits []
  | clear (edits : List Edit) : Awaits (edits ++ [.clear])
  | push {edits : List Edit} {data : Bytes} (h : (after edits).push? data ≠ none) : Awaits (edits ++ [.push data])

theorem Awaits.room (h : Awaits edits) : (after edits).length ≤ 1022 := by
  cases h with
  | new => exact Nat.zero_le _
  | clear edits => simp [Edit.apply, Response.clear, empty, length]
  | @push edits data h =>
    obtain ⟨r', hr⟩ := Option.ne_none_iff_exists'.1 h
    obtain ⟨hroom, rfl⟩ := push?_eq_some.1 hr
    simp only [after_concat, Edit.apply, push_of_some hr]
    simp only [length, List.length_append] at hroom ⊢
    omega

/-- So many status words in a row as there is room for are kept, the first of them, and the others are dropped. -/
theorem bytes_of_row (sws : List StatusWord) (h : r.length ≤ 1024) :
    (sws.foldl setStatus r).bytes = r.bytes ++ (sws.take ((1024 - r.length) / 2)).flatMap StatusWord.toBytes := by
  induction sws generalizing r with
  | nil => simp
  | cons sw sws ih =>
    have hfits : (r.setStatus sw).length ≤ 1024 := apply_fits (.setStatus sw) h
    rw [List.foldl_cons, ih hfits]
    by_cases hroom : r.length ≤ 1022
    · have hbytes := bytes_setStatus hroom sw
      have hlength : (r.setStatus sw).length = r.length + 2 := by
        rw [length, hbytes, List.length_append, sw.length_toBytes, length]
      have hnext : (1024 - r.length) / 2 = (1024 - (r.length + 2)) / 2 + 1 := by omega
      rw [hbytes, hlength, hnext, List.take_succ_cons, List.flatMap_cons, List.append_assoc]
    · have hnone : (1024 - r.length) / 2 = 0 := by omega
      rw [setStatus_of_full (Nat.not_le.1 hroom), hnone, List.take_zero, List.take_zero]

structure Bounded (edits : List Edit) : Prop where
  fits : (after edits).length ≤ 1024
  refuses_iff (data : Bytes) : (after edits).push? data = none ↔ 1024 < (after edits).length + data.length + 2
  refuses (data : Bytes) (h : (after edits).push? data = none) : after (edits ++ [.push data]) = after edits
  appends (data : Bytes) (r : Response) (h : (after edits).push? data = some r) :
    after (edits ++ [.push data]) = r ∧ r.bytes = (after edits).bytes ++ data
  status_iff (sw : StatusWord) :
    (after (edits ++ [.setStatus sw])).bytes = (after edits).bytes ++ sw.toBytes ↔ (after edits).length ≤ 1022
  drops (sw : StatusWord) (h : 1022 < (after edits).length) : after (edits ++ [.setStatus sw]) = after edits
  row (sws : List StatusWord) : (after (edits ++ sws.map .setStatus)).bytes =
    (after edits).bytes ++ (sws.take ((1024 - (after edits).length) / 2)).flatMap StatusWord.toBytes
  awaited (h : Awaits edits) (sw : StatusWord) :
    (after edits).length ≤ 1022 ∧ (after (edits ++ [.setStatus sw])).status? = some sw
  rejects (sw : StatusWord) : (after (edits ++ [.reject sw])).bytes = sw.toBytes

/-- Whatever is done to a response, it fits its buffer, data goes in whole or not at all, and a status word that is due has
room. A status word is two bytes, the more significant one first. -/
theorem edits_leave_room_for_the_status :
    (∀ edits : List Edit, Bounded edits) ∧
      ∀ sw : StatusWord, ∃ hi lo, sw.toBytes = [hi, lo] ∧ 256 * hi.toNat + lo.toNat = sw.word.toNat := by
  refine ⟨fun edits => ?_, StatusWord.toBytes_eq⟩
  have happlied (e : Edit) : after (edits ++ [e]) = e.apply (after edits) := after_concat edits e
  refine ⟨after_fits edits, fun data => push?_eq_none, fun data h => ?_, fun data r h => ?_, fun sw => ?_, fun sw h => ?_,
    fun sws => ?_, fun h sw => ?_, fun sw => ?_⟩
  · rw [happlied]
    exact push_of_none h
  · rw [happlied]
    obtain ⟨-, rfl⟩ := push?_eq_some.1 h
    exact ⟨push_of_some h, rfl⟩
  · rw [happlied]
    refine ⟨fun h => Nat.le_of_not_lt fun hfull => ?_, fun h => bytes_setStatus h sw⟩
    rw [Edit.apply, setStatus_of_full hfull] at h
    -- the same bytes cannot be two more
    have hlength := congrArg List.length h
    rw [List.length_append, sw.length_toBytes] at hlength
    omega
  · rw [happlied]
    exact setStatus_of_full h sw
  · rw [after, List.foldl_append, List.foldl_map]
    exact bytes_of_row sws (after_fits edits)
  · refine ⟨h.room, ?_⟩
    rw [happlied]
    exact status?_of_bytes (bytes_setStatus h.room sw)
  · rw [happlied]
    rfl

end Response

end KeyFob.Card
