/-!
Text that takes at most a fixed number of bytes, counted in UTF-8.
-/

namespace KeyFob

structure BoundedText (max : Nat) where
  text : String
  fits : text.utf8ByteSize ≤ max

namespace BoundedText

variable {max : Nat}

instance : DecidableEq (BoundedText max) := fun a b =>
  if h : a.text = b.text then isTrue (by cases a; cases b; simp_all)
  else isFalse (fun e => h (congrArg text e))

def ofString? (s : String) : Option (BoundedText max) :=
  if h : s.utf8ByteSize ≤ max then some ⟨s, h⟩ else none

def size (t : BoundedText max) : Nat := t.text.utf8ByteSize

def isEmpty (t : BoundedText max) : Bool := t.text.isEmpty

theorem ofString?_text (t : BoundedText max) : ofString? t.text = some t := by
  unfold ofString?
  rw [dif_pos t.fits]

theorem text_of_ofString? {s : String} {t : BoundedText max} (h : ofString? s = some t) : t.text = s := by
  unfold ofString? at h
  split at h
  · injection h with h
    rw [← h]
  · cases h

end BoundedText

end KeyFob
