/-!
Numbers of documents. Whole numbers that fit 64 bits are exact; all others become doubles by a
fixed procedure on the digits: at most nineteen or twenty leading digits are kept in a 64-bit word,
later ones only count towards the power of ten, and the word is then scaled by powers of ten one
double operation at a time. The result can therefore differ from the nearest double.
-/

namespace ModuleLoader.Json
set_option autoImplicit false

/-- A number as a document gives it. -/
inductive Number where
  | natural (value : Nat)
  | negative (value : Nat)
  | real (value : Float)

/-- The number as a double; `negative n` is `-n`. -/
def Number.toFloat : Number → Float
  | .natural value => Float.ofNat value
  | .negative value => -Float.ofNat value
  | .real value => value

/-- The value of a decimal digit. -/
def digitValue (c : Char) : Nat :=
  c.toNat - '0'.toNat

/-- One more than the greatest number of a 64-bit word. -/
def wordLimit : Nat := 18446744073709551616

/-- Powers of ten are counted below this limit, and down to its opposite: 31 bits and a sign. -/
def powerLimit : Nat := 2147483648

/-- Whether a 64-bit word has room for one more digit. -/
def hasRoom (word digit : Nat) : Bool :=
  word * 10 + digit < wordLimit

/-- Scales `value` by `10 ^ power`, in steps of at most 308. `none` if the magnitude overflows. -/
def scale (value : Float) (power : Int) : Nat → Option Float
  | 0 => some value
  | fuel + 1 =>
    if power.natAbs ≤ 308 then
      if 0 ≤ power then
        let scaled := value * Float.ofScientific 1 false power.natAbs
        if scaled.isInf then none else some scaled
      else some (value / Float.ofScientific 1 false power.natAbs)
    else if value == 0.0 then some value
    else if 0 ≤ power then none
    else scale (value / Float.ofScientific 1 false 308) (power + 308) fuel

/-- The double of a sign, a word and a power of ten. -/
def assemble (positive : Bool) (word : Nat) (power : Int) : Option Number :=
  (scale (Float.ofNat word) power 8).map fun value => .real (if positive then value else -value)

/-- Reads the digits of a power of ten; `none` in the first place once it exceeds 31 bits. -/
def readPower (power : Nat) : List Char → Option Nat × List Char
  | [] => (some power, [])
  | c :: rest =>
    if c.isDigit then
      if power * 10 + digitValue c < powerLimit then readPower (power * 10 + digitValue c) rest
      else (none, rest.dropWhile Char.isDigit)
    else (some power, c :: rest)

/-- The power that follows `e` or `E`, then the whole number. -/
def readExponent (positive : Bool) (word : Nat) (power : Int) (text : List Char) :
    Option (Number × List Char) :=
  let (upward, text) := match text with
    | '+' :: rest => (true, rest)
    | '-' :: rest => (false, rest)
    | _ => (true, text)
  match text with
  | [] => none
  | c :: _ =>
    if c.isDigit then
      match readPower 0 text with
      | (some shift, rest) =>
        let total := if upward then power + shift else power - shift
        let total := max (-(powerLimit : Int)) (min (powerLimit - 1) total)
        (assemble positive word total).map (·, rest)
      | (none, rest) =>
        if word ≠ 0 && upward then none
        else some (.real (if positive then 0.0 else -0.0), rest)
    else none

/-- Fraction digits that still fit the word; the rest of them is passed over. -/
def readFraction (word : Nat) (power : Int) : List Char → Nat × Int × List Char
  | [] => (word, power, [])
  | c :: rest =>
    if c.isDigit then
      if hasRoom word (digitValue c) then
        readFraction (word * 10 + digitValue c) (power - 1) rest
      else (word, power, rest.dropWhile Char.isDigit)
    else (word, power, c :: rest)

/-- An optional power of ten, then the whole number. -/
def readEnding (positive : Bool) (word : Nat) (power : Int) (text : List Char) :
    Option (Number × List Char) :=
  match text with
  | c :: rest =>
    if c = 'e' || c = 'E' then readExponent positive word power rest
    else (assemble positive word power).map (·, text)
  | [] => (assemble positive word power).map (·, text)

/-- The fraction that follows the point; it has at least one digit. -/
def readPoint (positive : Bool) (word : Nat) (power : Int) (text : List Char) :
    Option (Number × List Char) :=
  match text with
  | [] => none
  | c :: _ =>
    if c.isDigit then
      let (word, power, rest) := readFraction word power text
      readEnding positive word power rest
    else none

/-- A whole number in the word: exact if it ends here and its sign allows. -/
def readWhole (positive : Bool) (word : Nat) (text : List Char) : Option (Number × List Char) :=
  let exact : Number :=
    if positive then .natural word
    else if word = 0 || word * 2 > wordLimit then .real (-Float.ofNat word)
    else .negative word
  match text with
  | '.' :: rest => readPoint positive word 0 rest
  | c :: rest =>
    if c = 'e' || c = 'E' then readExponent positive word 0 rest else some (exact, text)
  | [] => some (exact, text)

/-- Whole digits beyond the word: each one only raises the power. -/
def readLong (positive : Bool) (word : Nat) (text : List Char) : Option (Number × List Char) :=
  let power := (text.takeWhile Char.isDigit).length
  match text.dropWhile Char.isDigit with
  | '.' :: rest => readPoint positive word power rest
  | rest => readEnding positive word power rest

/-- The whole digits after the first one. -/
def readDigits (positive : Bool) (word : Nat) : List Char → Option (Number × List Char)
  | [] => readWhole positive word []
  | c :: rest =>
    if c.isDigit then
      if hasRoom word (digitValue c) then readDigits positive (word * 10 + digitValue c) rest
      else readLong positive word (c :: rest)
    else readWhole positive word (c :: rest)

/-- A number without its sign. A leading zero stands alone. -/
def readUnsigned (positive : Bool) : List Char → Option (Number × List Char)
  | [] => none
  | c :: rest =>
    if c = '0' then
      match rest with
      | [] => readWhole positive 0 []
      | d :: _ => if d.isDigit then none else readWhole positive 0 rest
    else if c.isDigit then readDigits positive (digitValue c) rest
    else none

/-- A number at the start of the text. -/
def readNumber : List Char → Option (Number × List Char)
  | '-' :: rest => readUnsigned false rest
  | text => readUnsigned true text

end ModuleLoader.Json
