/-!
Plain text: what is left of a text for a reader that is no terminal. Control characters are dropped, white space apart,
and so are escape sequences. An escape sequence may be cut short by white space, and a text may end inside one.
-/

namespace KeyFob.Text

inductive Sequence
  | escape
  /-- An escape sequence of several characters. -/
  | longEscape
  /-- A control sequence, up to its final letter. -/
  | control
  /-- A device control string before its final letter: nothing yet, parameters, or what stands after them. -/
  | device
  | deviceParameters
  | deviceRest
  /-- A string that ends at the byte 9C or at the next sequence. -/
  | body
  /-- A command to the operating system, which ends at a bell or at the next sequence. -/
  | command
deriving DecidableEq, Repr

inductive Scan
  | plain
  | inside (s : Sequence)
  /-- White space has cut a sequence short. The text is shown until a control character goes on with the sequence. -/
  | cut (s : Sequence)
deriving DecidableEq, Repr

def isSpacing (c : Char) : Bool := c == '\t' || c == '\n' || c == '\x0c' || c == '\r'

def isControl (c : Char) : Bool := c.toNat < 0x20 || c.toNat == 0x7F

def isShown (c : Char) : Bool := isSpacing c || !isControl c

def Sequence.showsSpacing : Sequence → Bool
  | escape | longEscape | control => true
  | device | deviceParameters | deviceRest | body | command => false

def Sequence.next? (s : Sequence) (c : Char) : Option Sequence :=
  let within (first last : Char) : Bool := first ≤ c && c ≤ last
  match s with
  | escape =>
    if within ' ' '/' then some longEscape
    else if c = '[' then some control
    else if c = ']' then some command
    else if c = 'P' then some device
    else if c = 'X' ∨ c = '^' ∨ c = '_' then some body
    else if within '0' '~' then none
    else some escape
  | longEscape => if within '0' '~' then none else some longEscape
  | control => if within '@' '~' then none else some control
  | device =>
    some <| if within ' ' '/' then deviceRest else if within '0' '?' then deviceParameters
      else if within '@' '~' then body else device
  | deviceParameters =>
    some <| if within ' ' '/' then deviceRest else if within '<' '~' then body else deviceParameters
  | deviceRest => some (if within '0' '~' then body else deviceRest)
  | body => if (String.singleton c).toUTF8.toList.contains 0x9C then none else some body
  | command => if c = '\x07' then none else some command

namespace Scan

def shows : Scan → Char → Bool
  | plain, c => isShown c
  | inside s, c => s.showsSpacing && isSpacing c
  | cut _, c => isShown c

/-- The escape character starts a sequence wherever it stands, and two control characters end any. -/
def next (scan : Scan) (c : Char) : Scan :=
  if c = '\x1b' then inside .escape
  else if c = '\x18' ∨ c = '\x1a' then plain
  else match scan with
    | plain => plain
    | inside s =>
      if s.showsSpacing && isSpacing c then cut s
      else match s.next? c with
        | some s => inside s
        | none => plain
    | cut s => if 0x80 ≤ c.toNat then plain else if isShown c then cut s else inside s

def shown : Scan → List Char → List Char
  | _, [] => []
  | scan, c :: cs => (if scan.shows c then [c] else []) ++ shown (scan.next c) cs

theorem next_plain {c : Char} (h : isShown c) : next plain c = plain := by
  have (d : Char) (hd : isShown d = false) : c ≠ d := by
    rintro rfl
    simp [hd] at h
  simp [next, this '\x1b' rfl]

theorem shown_plain {cs : List Char} (h : cs.all isShown) : shown plain cs = cs := by
  induction cs with
  | nil => rfl
  | cons c cs ih =>
    simp only [List.all_cons, Bool.and_eq_true] at h
    simp [shown, shows, next_plain h.1, h.1, ih h.2]

theorem isShown_of_shows {scan : Scan} {c : Char} (h : scan.shows c) : isShown c := by
  cases scan with
  | plain => exact h
  | inside s =>
    simp only [shows, Bool.and_eq_true] at h
    simp [isShown, h.2]
  | cut s => exact h

theorem isShown_of_mem {cs : List Char} {scan : Scan} {c : Char} (h : c ∈ shown scan cs) : isShown c := by
  induction cs generalizing scan with
  | nil => cases h
  | cons d cs ih =>
    simp only [shown, List.mem_append] at h
    rcases h with h | h
    · split at h
      · rw [List.mem_singleton] at h
        exact h ▸ isShown_of_shows ‹_›
      · cases h
    · exact ih h

end Scan

def plain (s : String) : String := String.ofList (Scan.plain.shown s.toList)

/-- Text without control characters is plain already. -/
theorem plain_of_shown {s : String} (h : s.toList.all isShown) : plain s = s := by
  rw [plain, Scan.shown_plain h, String.ofList_toList]

/-- Making text plain twice is making it plain once. -/
theorem plain_plain (s : String) : plain (plain s) = plain s := by
  apply plain_of_shown
  rw [plain, String.toList_ofList, List.all_eq_true]
  exact fun c h => Scan.isShown_of_mem h

end KeyFob.Text
