import ModuleLoader.Decimal.Shortest
/-!
How a number is written: its shortest digits, placed positionally or with an exponent as a
`Style` record decides.
-/

namespace ModuleLoader.Decimal
set_option autoImplicit false

/-- The decisions of one way to write numbers. -/
structure Style where
  /-- Whole numbers end in `.0`. -/
  wholePoint : Bool
  /-- Least and greatest number of digits before the point written positionally, if limited. A
  negative count stands for zeros after the point. -/
  positional : Option (Int × Int)

/-- Plain text: always positional, and a whole number has no point. -/
def plain : Style := ⟨false, none⟩

/-- Inspection text: whole numbers keep `.0`; from `1e16` up and below `1e-4` with an exponent. -/
def inspect : Style := ⟨true, some (-3, 16)⟩

/-- The digits with the point in its place. -/
def positionalText (wholePoint : Bool) (value : Digits) : String :=
  let text := Nat.toDigits 10 value.digits
  let ending := if wholePoint then ".0" else ""
  if 0 ≤ value.exponent then
    String.ofList (text ++ List.replicate value.exponent.toNat '0') ++ ending
  else
    let places := (-value.exponent).toNat
    if text.length ≤ places then
      "0." ++ String.ofList (List.replicate (places - text.length) '0' ++ text)
    else
      String.ofList (text.take (text.length - places)) ++ "." ++
        String.ofList (text.drop (text.length - places))

/-- One digit, the others after a point, and the power of ten. -/
def exponentText (value : Digits) : String :=
  let text := Nat.toDigits 10 value.digits
  let power := value.exponent + text.length - 1
  let body := match text with
    | [] => ""
    | [digit] => digit.toString
    | digit :: rest => digit.toString ++ "." ++ String.ofList rest
  body ++ "e" ++ toString power

/-- Writes a number given by its bits. -/
def Style.write (style : Style) : Binary → String
  | .nan => "NaN"
  | .infinite negative => if negative then "-inf" else "inf"
  | .finite negative mantissa exponent =>
    let value := shortest mantissa exponent
    let position := value.exponent + (Nat.toDigits 10 value.digits).length
    let isPositional := match style.positional with
      | none => true
      | some (least, most) => mantissa = 0 || (least ≤ position && position ≤ most)
    (if negative then "-" else "") ++
      if isPositional then positionalText style.wholePoint value else exponentText value

/-- Writes a double. -/
def write (style : Style) (x : Float) : String :=
  style.write (Binary.ofBits x.toBits.toNat)

end ModuleLoader.Decimal
