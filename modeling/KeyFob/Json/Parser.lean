import KeyFob.Json.Value

/-!
Reading JSON text. The grammar is the strict one: no leading zeros, no trailing commas, no control characters inside
strings, and nothing but blanks around the one value.
-/

namespace KeyFob.Json

def isBlank (c : Char) : Bool := c == ' ' || c == '\t' || c == '\n' || c == '\r'

def skipBlanks (s : List Char) : List Char := s.dropWhile isBlank

/-- The rest of the text behind a given beginning. -/
def expect? : List Char → List Char → Option (List Char)
  | [], s => some s
  | c :: cs, d :: s => if c = d then expect? cs s else none
  | _ :: _, [] => none

def hexValue? (c : Char) : Option Nat :=
  if '0' ≤ c ∧ c ≤ '9' then some (c.toNat - 48)
  else if 'a' ≤ c ∧ c ≤ 'f' then some (c.toNat - 87)
  else if 'A' ≤ c ∧ c ≤ 'F' then some (c.toNat - 55)
  else none

/-- Reads a string from behind its opening quote to behind its closing one. -/
def units? : List Char → Option (List Unit16 × List Char)
  | '"' :: s => some ([], s)
  | '\\' :: 'u' :: a :: b :: c :: d :: s => do
    let unit := (← hexValue? a) * 4096 + (← hexValue? b) * 256 + (← hexValue? c) * 16 + (← hexValue? d)
    let (rest, s) ← units? s
    some (.hex unit :: rest, s)
  | '\\' :: e :: s =>
    if (shortEscape? e).isSome then (units? s).map fun (rest, s) => (.short e :: rest, s) else none
  | c :: s => if c.toNat < 0x20 ∨ c = '\\' then none else (units? s).map fun (rest, s) => (.char c :: rest, s)
  | [] => none

def digits (s : List Char) : List Char × List Char := (s.takeWhile Char.isDigit, s.dropWhile Char.isDigit)

def someDigits? (s : List Char) : Option (List Char × List Char) :=
  match digits s with
  | ([], _) => none
  | r => some r

def whole? : List Char → Option (List Char × List Char)
  | '0' :: s => match s with
    | c :: _ => if c.isDigit then none else some (['0'], s)
    | [] => some (['0'], s)
  | s => someDigits? s

def fraction? : List Char → Option (Option (List Char) × List Char)
  | '.' :: s => (someDigits? s).map fun (ds, s) => (some ds, s)
  | s => some (none, s)

def exponent? : List Char → Option (Option (Option Char × List Char) × List Char)
  | c :: s =>
    if c = 'e' ∨ c = 'E' then
      match s with
      | sign :: t =>
        if sign = '+' ∨ sign = '-' then (someDigits? t).map fun (ds, u) => (some (some sign, ds), u)
        else (someDigits? s).map fun (ds, u) => (some (none, ds), u)
      | [] => none
    else some (none, c :: s)
  | [] => some (none, [])

def number? (s : List Char) : Option (Number × List Char) := do
  let (negative, s) := match s with
    | '-' :: s => (true, s)
    | s => (false, s)
  let (whole, s) ← whole? s
  let (fraction, s) ← fraction? s
  let (exponent, s) ← exponent? s
  some (⟨negative, whole, fraction, exponent⟩, s)

def name? (s : List Char) : Option (List Unit16 × List Char) := do
  let s ← expect? ['"'] (skipBlanks s)
  let (units, s) ← units? s
  let s ← expect? [':'] (skipBlanks s)
  some (units, s)

mutual

/-- Reads one value. Each call takes a character off the text, so `depth` need not exceed its length. -/
def value? : Nat → List Char → Option (Value × List Char)
  | 0, _ => none
  | depth + 1, s =>
    match skipBlanks s with
    | 'n' :: s => (expect? ['u', 'l', 'l'] s).map fun s => (.null, s)
    | 't' :: s => (expect? ['r', 'u', 'e'] s).map fun s => (.bool true, s)
    | 'f' :: s => (expect? ['a', 'l', 's', 'e'] s).map fun s => (.bool false, s)
    | '"' :: s => (units? s).map fun (units, s) => (.string units, s)
    | '[' :: s => match skipBlanks s with
      | ']' :: s => some (.array [], s)
      | s => (items? depth s).map fun (items, s) => (.array items, s)
    | '\x7b' :: s => match skipBlanks s with
      | '\x7d' :: s => some (.object [], s)
      | s => (members? depth s).map fun (members, s) => (.object members, s)
    | s => (number? s).map fun (n, s) => (.number n, s)

def items? : Nat → List Char → Option (List Value × List Char)
  | 0, _ => none
  | depth + 1, s => do
    let (item, s) ← value? depth s
    match skipBlanks s with
    | ',' :: s => (items? depth s).map fun (items, s) => (item :: items, s)
    | ']' :: s => some ([item], s)
    | _ => none

def members? : Nat → List Char → Option (List (List Unit16 × Value) × List Char)
  | 0, _ => none
  | depth + 1, s => do
    let (name, s) ← name? s
    let (value, s) ← value? depth s
    match skipBlanks s with
    | ',' :: s => (members? depth s).map fun (members, s) => ((name, value) :: members, s)
    | '\x7d' :: s => some ([(name, value)], s)
    | _ => none

end

def parse? (text : String) : Option Value :=
  let s := text.toList
  match value? (s.length + 1) s with
  | some (v, rest) => if skipBlanks rest = [] then some v else none
  | none => none

end KeyFob.Json
