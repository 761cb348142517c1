/-!
JSON text as a tree that still holds its spelling: a number keeps its digits and a string its escapes. So a value can
be checked for syntax without being read as a number or as text, which is what skipping an unknown member needs.
-/

namespace KeyFob.Json

/-- One element of a string: a character as it stands, a short escape, or a four-digit escape of a code unit. -/
inductive Unit16
  | char (c : Char)
  | short (c : Char)
  | hex (unit : Nat)
deriving DecidableEq, Repr

structure Number where
  negative : Bool
  whole : List Char
  fraction : Option (List Char)
  exponent : Option (Option Char × List Char)
deriving DecidableEq, Repr

inductive Value
  | null
  | bool (b : Bool)
  | number (n : Number)
  | string (units : List Unit16)
  | array (items : List Value)
  | object (members : List (List Unit16 × Value))

/-- The character that a short escape stands for. -/
def shortEscape? : Char → Option Char
  | '"' => some '"'
  | '\\' => some '\\'
  | '/' => some '/'
  | 'b' => some (Char.ofNat 8)
  | 'f' => some (Char.ofNat 12)
  | 'n' => some '\n'
  | 'r' => some '\r'
  | 't' => some '\t'
  | _ => none

def isHighSurrogate (n : Nat) : Bool := 0xD800 ≤ n && n < 0xDC00

def isLowSurrogate (n : Nat) : Bool := 0xDC00 ≤ n && n < 0xE000

/-- The characters of a string. Two escapes may join to one character; half of such a pair alone is no text. -/
def text? : List Unit16 → Option (List Char)
  | [] => some []
  | .char c :: rest => (text? rest).map (c :: ·)
  | .short c :: rest => do (← shortEscape? c) :: (← text? rest)
  | .hex hi :: .hex lo :: rest =>
    if isHighSurrogate hi then
      if isLowSurrogate lo then
        (text? rest).map (Char.ofNat (0x10000 + (hi - 0xD800) * 0x400 + (lo - 0xDC00)) :: ·)
      else none
    else if isLowSurrogate hi then none
    else (text? (.hex lo :: rest)).map (Char.ofNat hi :: ·)
  | .hex unit :: rest =>
    if isHighSurrogate unit || isLowSurrogate unit then none else (text? rest).map (Char.ofNat unit :: ·)

def digitsValue (ds : List Char) : Nat := ds.foldl (fun n d => 10 * n + (d.toNat - 48)) 0

namespace Value

def text? : Value → Option String
  | string units => (Json.text? units).map String.ofList
  | _ => none

/-- A natural number below `bound`, written without sign, fraction or exponent. -/
def nat? (bound : Nat) : Value → Option Nat
  | number ⟨false, whole, none, none⟩ => if digitsValue whole < bound then some (digitsValue whole) else none
  | _ => none

def bool? : Value → Option Bool
  | bool b => some b
  | _ => none

def items? : Value → Option (List Value)
  | array items => some items
  | _ => none

end Value

end KeyFob.Json
