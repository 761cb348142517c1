import KeyFob.Json.Parser

/-!
The grammar of JSON text, as a relation between a text and the tree that it writes. It says nothing about how a text is
read. A tree can be written in several ways, which differ in blanks and in the letter of an exponent.
-/

namespace KeyFob.Json

def Blank (w : List Char) : Prop := ∀ c ∈ w, isBlank c = true

/-- One digit at least, and nothing else. -/
structure Digits (ds : List Char) : Prop where
  nonempty : ds ≠ []
  digit (d : Char) (h : d ∈ ds) : d.isDigit = true

/-- Digits without a needless zero in front. -/
structure Whole (ds : List Char) : Prop extends Digits ds where
  unpadded : ds.head? = some '0' → ds = ['0']

def fractionText : Option (List Char) → List Char
  | none => []
  | some ds => '.' :: ds

def exponentText (e : Char) : Option (Option Char × List Char) → List Char
  | none => []
  | some (sign, ds) => e :: (sign.toList ++ ds)

def FractionOk (f : Option (List Char)) : Prop := ∀ ds, f = some ds → Digits ds

def ExponentOk (x : Option (Option Char × List Char)) : Prop :=
  ∀ sign ds, x = some (sign, ds) → (∀ c, sign = some c → c = '+' ∨ c = '-') ∧ Digits ds

def ExponentLetter (e : Char) : Prop := e = 'e' ∨ e = 'E'

namespace Number

def text (e : Char) (n : Number) : List Char :=
  (if n.negative then ['-'] else []) ++ (n.whole ++ (fractionText n.fraction ++ exponentText e n.exponent))

structure WellFormed (n : Number) : Prop where
  whole : Whole n.whole
  fraction : FractionOk n.fraction
  exponent : ExponentOk n.exponent

end Number

/-- A string without its quotes. Quotes, backslashes and control characters must be escaped. -/
inductive Units : List Char → List Unit16 → Prop
  | nil : Units [] []
  | char {c : Char} {cs : List Char} {us : List Unit16} (hcontrol : 0x20 ≤ c.toNat) (hquote : c ≠ '"')
    (hescape : c ≠ '\\') (hrest : Units cs us) : Units (c :: cs) (.char c :: us)
  | short {e : Char} {cs : List Char} {us : List Unit16} (he : (shortEscape? e).isSome = true) (hrest : Units cs us) :
    Units ('\\' :: e :: cs) (.short e :: us)
  | hex {a b c d : Char} {x y z t : Nat} {cs : List Char} {us : List Unit16} (ha : hexValue? a = some x)
    (hb : hexValue? b = some y) (hc : hexValue? c = some z) (hd : hexValue? d = some t) (hrest : Units cs us) :
    Units ('\\' :: 'u' :: a :: b :: c :: d :: cs) (.hex (x * 4096 + y * 256 + z * 16 + t) :: us)

/-- The name of a member, with blanks around it. -/
inductive Name : List Char → List Unit16 → Prop
  | intro {w cs w' : List Char} {us : List Unit16} (hw : Blank w) (h : Units cs us) (hw' : Blank w') :
    Name (w ++ '"' :: (cs ++ '"' :: w')) us

mutual

inductive Spells : List Char → Value → Prop
  | null : Spells ['n', 'u', 'l', 'l'] .null
  | ofTrue : Spells ['t', 'r', 'u', 'e'] (.bool true)
  | ofFalse : Spells ['f', 'a', 'l', 's', 'e'] (.bool false)
  | number {e : Char} {n : Number} (he : ExponentLetter e) (h : n.WellFormed) : Spells (n.text e) (.number n)
  | string {cs : List Char} {us : List Unit16} (h : Units cs us) : Spells ('"' :: (cs ++ ['"'])) (.string us)
  | emptyArray {w : List Char} (h : Blank w) : Spells ('[' :: (w ++ [']'])) (.array [])
  | array {cs : List Char} {items : List Value} (h : Items cs items) : Spells ('[' :: (cs ++ [']'])) (.array items)
  | emptyObject {w : List Char} (h : Blank w) : Spells ('\x7b' :: (w ++ ['\x7d'])) (.object [])
  | object {cs : List Char} {members : List (List Unit16 × Value)} (h : Members cs members) :
    Spells ('\x7b' :: (cs ++ ['\x7d'])) (.object members)

inductive Padded : List Char → Value → Prop
  | intro {w cs w' : List Char} {v : Value} (hw : Blank w) (h : Spells cs v) (hw' : Blank w') : Padded (w ++ (cs ++ w')) v

/-- One or more items with commas between them. -/
inductive Items : List Char → List Value → Prop
  | last {cs : List Char} {v : Value} (h : Padded cs v) : Items cs [v]
  | cons {cs ds : List Char} {v : Value} {vs : List Value} (h : Padded cs v) (hrest : Items ds vs) :
    Items (cs ++ ',' :: ds) (v :: vs)

inductive Members : List Char → List (List Unit16 × Value) → Prop
  | last {ns cs : List Char} {us : List Unit16} {v : Value} (hname : Name ns us) (h : Padded cs v) :
    Members (ns ++ ':' :: cs) [(us, v)]
  | cons {ns cs ds : List Char} {us : List Unit16} {v : Value} {ms : List (List Unit16 × Value)} (hname : Name ns us)
    (h : Padded cs v) (hrest : Members ds ms) : Members (ns ++ ':' :: (cs ++ ',' :: ds)) ((us, v) :: ms)

end

/-- A text that writes one value and nothing else. -/
def Writes (text : String) (v : Value) : Prop := Padded text.toList v

end KeyFob.Json
