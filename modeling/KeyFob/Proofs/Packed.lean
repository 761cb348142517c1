import Mathlib.Algebra.Order.BigOperators.Group.List
import Mathlib.Tactic.Ring
import KeyFob.Packed

/-!
What is packed can be read back. `Reads r bs a` says that a reader takes just these bytes off the front, whatever comes
behind them, and makes the value of them. Readers that are put together with `>>=` read what is written one behind the
other.
-/

namespace KeyFob.Packed

def Reads {α : Type} (r : Reader α) (bs : Bytes) (a : α) : Prop := ∀ rest, r (bs ++ rest) = some (a, rest)

section

variable {α β : Type} {r : Reader α} {f : α → Reader β} {bs bs' : Bytes} {a : α} {b : β}

namespace Reads

theorem pure (a : α) : Reads (Pure.pure a) [] a := fun _ => rfl

theorem bind (hr : Reads r bs a) (hf : Reads (f a) bs' b) : Reads (r >>= f) (bs ++ bs') b := by
  intro rest
  change (r (bs ++ bs' ++ rest) >>= fun p => f p.1 p.2) = some (b, rest)
  rw [List.append_assoc, hr]
  exact hf rest

/-- A reader whose last step takes nothing more. -/
theorem last (hr : Reads r bs a) (hf : Reads (f a) [] b) : Reads (r >>= f) bs b := by
  rw [← List.append_nil bs]
  exact hr.bind hf

end Reads

end

theorem toNat_ofNat {n : Nat} (h : n < 256) : (UInt8.ofNat n).toNat = n := UInt8.toNat_ofNat_of_lt' h

/-- By the bytes that may still come: each of them takes seven bits, and the last one no more than its bound. -/
theorem decodeNat?_encodeNat {last : Nat} (hlast : last < 128) (count n : Nat) (h : n < (last + 1) * 128 ^ count)
    (rest : Bytes) : decodeNat? last (count + 1) (encodeNat n ++ rest) = some (n, rest) := by
  induction count generalizing n with
  | zero =>
    have hn : n ≤ last := by omega
    rw [encodeNat, if_pos (by omega), List.singleton_append, decodeNat?, toNat_ofNat (by omega), if_pos (by omega),
      if_neg (by omega)]
  | succ count ih =>
    by_cases hn : n < 128
    · rw [encodeNat, if_pos hn, List.singleton_append, decodeNat?, toNat_ofNat (by omega), if_pos hn, if_neg (by omega)]
    · have hrest : n / 128 < (last + 1) * 128 ^ count := by
        rw [Nat.div_lt_iff_lt_mul (by decide)]
        calc n < (last + 1) * 128 ^ (count + 1) := h
          _ = (last + 1) * 128 ^ count * 128 := by ring
      have hbyte : (UInt8.ofNat (n % 128 + 128)).toNat = n % 128 + 128 := toNat_ofNat (by omega)
      have hsum : n % 128 + 128 - 128 + 128 * (n / 128) = n := by omega
      rw [encodeNat, if_neg hn, List.cons_append, decodeNat?, hbyte, if_neg (by omega), ih _ hrest, Option.map_some]
      exact congrArg (fun m => some (m, rest)) hsum

theorem length_encodeNat_le (count n : Nat) (h : n < 128 ^ (count + 1)) : (encodeNat n).length ≤ count + 1 := by
  induction count generalizing n with
  | zero =>
    rw [encodeNat, if_pos (by omega)]
    rfl
  | succ count ih =>
    by_cases hn : n < 128
    · rw [encodeNat, if_pos hn]
      simp
    · have hrest : n / 128 < 128 ^ (count + 1) := by
        rw [Nat.div_lt_iff_lt_mul (by decide)]
        calc n < 128 ^ (count + 1 + 1) := h
          _ = 128 ^ (count + 1) * 128 := by ring
      rw [encodeNat, if_neg hn, List.length_cons]
      exact Nat.succ_le_succ (ih _ hrest)

/-- A number is read by the width of its type, unless that is a whole number of groups of seven. -/
theorem reads_nat {bits n : Nat} (hbits : bits % 7 ≠ 0) (h : n < 2 ^ bits) : Reads (nat bits) (encodeNat n) n := by
  intro rest
  have hcount : (bits + 6) / 7 = bits / 7 + 1 := by omega
  have hpos : 0 < 2 ^ (bits % 7) := Nat.two_pow_pos _
  have hlast : 2 ^ (bits % 7) - 1 < 128 := by
    have : 2 ^ (bits % 7) ≤ 2 ^ 6 := Nat.pow_le_pow_right (by decide) (by omega)
    omega
  have hsplit : 2 ^ bits = 2 ^ (bits % 7) * 128 ^ (bits / 7) := by
    rw [show (128 : Nat) = 2 ^ 7 from rfl, ← pow_mul, ← pow_add, Nat.mod_add_div]
  rw [nat, hcount, Nat.one_shiftLeft]
  refine decodeNat?_encodeNat hlast _ n ?_ rest
  rwa [Nat.sub_add_cancel hpos, ← hsplit]

theorem reads_u16 (w : UInt16) : Reads u16 (encodeNat w.toNat) w := by
  refine (reads_nat (by decide) w.toNat_lt).last ?_
  rw [UInt16.ofNat_toNat]
  exact .pure w

theorem reads_u32 (w : UInt32) : Reads u32 (encodeNat w.toNat) w := by
  refine (reads_nat (by decide) w.toNat_lt).last ?_
  rw [UInt32.ofNat_toNat]
  exact .pure w

theorem reads_u64 (w : UInt64) : Reads u64 (encodeNat w.toNat) w := by
  refine (reads_nat (by decide) w.toNat_lt).last ?_
  rw [UInt64.ofNat_toNat]
  exact .pure w

theorem reads_byte (b : UInt8) : Reads byte [b] b := fun _ => rfl

theorem reads_bool (b : Bool) : Reads bool [if b then 1 else 0] b := by
  intro rest
  cases b <;> rfl

theorem reads_take (bs : Bytes) : Reads (take bs.length) bs bs := by
  intro rest
  rw [take, if_pos (by simp), List.take_left, List.drop_left]

theorem length_bytes (s : String) : s.toByteArray.data.toList.length = s.utf8ByteSize := by
  rw [Array.length_toList]
  exact String.size_toByteArray

theorem reads_text {s : String} (h : s.utf8ByteSize < 2 ^ 64) : Reads text (encodeText s) s := by
  refine (reads_nat (by decide) h).bind ?_
  rw [← length_bytes]
  refine (reads_take _).last ?_
  have hbytes : String.fromUTF8? ⟨s.toByteArray.data.toList.toArray⟩ = some s := by
    rw [Array.toArray_toList, String.fromUTF8?, dif_pos s.isValidUTF8]
    rfl
  rw [hbytes]
  exact .pure s

theorem length_encodeText_le {s : String} {max : Nat} (hmax : max < 128) (h : s.utf8ByteSize ≤ max) :
    (encodeText s).length ≤ max + 1 := by
  have hsize := length_encodeNat_le 0 s.utf8ByteSize (by omega)
  rw [encodeText, List.length_append, length_bytes]
  omega

section

variable {α : Type} {item : Reader α} {encode : α → Bytes}

theorem reads_times (as : List α) (h : ∀ a ∈ as, Reads item (encode a) a) :
    Reads (times item as.length) (as.flatMap encode) as := by
  induction as with
  | nil => exact .pure []
  | cons a as ih =>
    refine (h a (by simp)).bind ?_
    exact (ih fun b hb => h b (by simp [hb])).last (.pure (a :: as))

theorem reads_list {max : Nat} (as : List α) (hmax : as.length ≤ max) (h64 : as.length < 2 ^ 64)
    (h : ∀ a ∈ as, Reads item (encode a) a) :
    Reads (list max item) (encodeNat as.length ++ as.flatMap encode) as := by
  refine (reads_nat (by decide) h64).bind ?_
  rw [if_pos hmax]
  exact reads_times as h

theorem length_flatMap_le {bound : Nat} (as : List α) (h : ∀ a ∈ as, (encode a).length ≤ bound) :
    (as.flatMap encode).length ≤ as.length * bound := by
  have hsum := List.sum_le_card_nsmul (as.map fun a => (encode a).length) bound fun n hn => by
    obtain ⟨a, ha, rfl⟩ := List.mem_map.1 hn
    exact h a ha
  rw [List.length_flatMap]
  simpa using hsum

end

end KeyFob.Packed
