/-!
Reading a decimal text as the nearest double: an optional sign, digits with an optional point and
an optional power of ten, or one of the names of infinity and of "not a number" in any case.
-/

namespace ModuleLoader.Decimal
set_option autoImplicit false

/-- The double nearest to `digits · 10 ^ power`. Powers far outside the range are cut first. -/
def toDouble (digits : Nat) (power : Int) : Float :=
  if digits = 0 then 0.0
  else if power > 400 then Float.ofScientific 1 false 400
  else if power + (Nat.toDigits 10 digits).length < -400 then 0.0
  else Float.ofScientific digits (power < 0) power.natAbs

/-- The value of a run of digits appended to `start`. -/
def digitsValue (start : Nat) (digits : List Char) : Nat :=
  digits.foldl (fun value digit => value * 10 + (digit.toNat - '0'.toNat)) start

/-- A signed whole number that uses up the text. -/
def signedPower (text : List Char) : Option Int :=
  let (negative, digits) := match text with
    | '-' :: rest => (true, rest)
    | '+' :: rest => (false, rest)
    | _ => (false, text)
  if digits.isEmpty || !digits.all Char.isDigit then none
  else some (if negative then -(digitsValue 0 digits : Int) else digitsValue 0 digits)

/-- A number without its sign. -/
def unsigned (text : List Char) : Option Float :=
  let lower := String.ofList (text.map Char.toLower)
  if lower = "inf" || lower = "infinity" then some (Float.ofScientific 1 false 400)
  else if lower = "nan" then some (0.0 / 0.0)
  else
    let whole := text.takeWhile Char.isDigit
    let rest := text.dropWhile Char.isDigit
    let (fraction, rest) := match rest with
      | '.' :: rest => (rest.takeWhile Char.isDigit, rest.dropWhile Char.isDigit)
      | _ => ([], rest)
    if whole.isEmpty && fraction.isEmpty then none
    else
      let digits := digitsValue (digitsValue 0 whole) fraction
      match rest with
      | [] => some (toDouble digits (-fraction.length))
      | mark :: power =>
        if mark = 'e' || mark = 'E' then
          (signedPower power).map fun power => toDouble digits (power - fraction.length)
        else none

/-- Reads a decimal text as a double. -/
def read? (text : String) : Option Float :=
  match text.toList with
  | '-' :: rest => (unsigned rest).map Float.neg
  | '+' :: rest => unsigned rest
  | rest => unsigned rest

end ModuleLoader.Decimal
