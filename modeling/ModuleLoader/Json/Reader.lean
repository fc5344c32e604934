import ModuleLoader.Json.Document
/-!
Reading a document text.

`parse` reads strictly: one value between blanks, no trailing comma, no leading zero, no raw control
character, no half of a surrogate pair, no number whose magnitude overflows, and at most 127 nested
containers. `skipValue` passes over a value whose content does not matter; there depth, magnitude
and surrogates are not looked at.

Every step of a loop uses up a character, so the length of the text bounds the work.
-/

namespace ModuleLoader.Json
set_option autoImplicit false

/-- The deepest nesting of containers that is read. -/
def depthLimit : Nat := 127

/-- Whether `c` may stand between tokens. -/
def isBlank (c : Char) : Bool :=
  c = ' ' || c = '\n' || c = '\t' || c = '\r'

/-- The text from the next token on. -/
def skipBlanks (text : List Char) : List Char :=
  text.dropWhile isBlank

/-- The value of a hexadecimal digit. -/
def hexValue (c : Char) : Option Nat :=
  if c.isDigit then some (c.toNat - '0'.toNat)
  else if 'a' ≤ c && c ≤ 'f' then some (c.toNat - 'a'.toNat + 10)
  else if 'A' ≤ c && c ≤ 'F' then some (c.toNat - 'A'.toNat + 10)
  else none

/-- The value of four hexadecimal digits. -/
def hexWord (a b c d : Char) : Option Nat := do
  return (← hexValue a) * 4096 + (← hexValue b) * 256 + (← hexValue c) * 16 + (← hexValue d)

/-- The character a one-letter escape stands for. -/
def simpleEscape (c : Char) : Option Char :=
  if c = '"' then some '"'
  else if c = '\\' then some '\\'
  else if c = '/' then some '/'
  else if c = 'b' then some '\x08'
  else if c = 'f' then some '\x0c'
  else if c = 'n' then some '\n'
  else if c = 'r' then some '\r'
  else if c = 't' then some '\t'
  else none

/-- The characters of a string whose opening quote has been read, and the text after its closing
quote. -/
def readString : List Char → Option (List Char × List Char)
  | [] => none
  | '"' :: rest => some ([], rest)
  | '\\' :: 'u' :: a :: b :: c :: d :: rest =>
    match hexWord a b c d with
    | none => none
    | some high =>
      if 0xD800 ≤ high && high < 0xDC00 then
        match rest with
        | '\\' :: 'u' :: a :: b :: c :: d :: rest =>
          match hexWord a b c d with
          | none => none
          | some low =>
            if 0xDC00 ≤ low && low < 0xE000 then
              (readString rest).map fun (text, rest) =>
                (Char.ofNat (0x10000 + (high - 0xD800) * 1024 + (low - 0xDC00)) :: text, rest)
            else none
        | _ => none
      else if 0xDC00 ≤ high && high < 0xE000 then none
      else (readString rest).map fun (text, rest) => (Char.ofNat high :: text, rest)
  | '\\' :: c :: rest =>
    match simpleEscape c with
    | none => none
    | some c => (readString rest).map fun (text, rest) => (c :: text, rest)
  | c :: rest =>
    if c = '\\' || c.toNat < 0x20 then none
    else (readString rest).map fun (text, rest) => (c :: text, rest)

/-- The text after `word`, if it starts with it. -/
def dropWord : List Char → List Char → Option (List Char)
  | [], text => some text
  | _ :: _, [] => none
  | c :: word, d :: text => if c = d then dropWord word text else none

mutual

/-- A value at the start of the text; `depth` containers may still be opened inside it. -/
def readValue : Nat → Nat → List Char → Option (Json × List Char)
  | 0, _, _ => none
  | fuel + 1, depth, text =>
    match text with
    | 'n' :: rest => (dropWord ['u', 'l', 'l'] rest).map (.null, ·)
    | 't' :: rest => (dropWord ['r', 'u', 'e'] rest).map (.boolean true, ·)
    | 'f' :: rest => (dropWord ['a', 'l', 's', 'e'] rest).map (.boolean false, ·)
    | '"' :: rest => (readString rest).map fun (text, rest) => (.string (String.ofList text), rest)
    | '[' :: rest =>
      match depth with
      | 0 => none
      | depth + 1 =>
        match skipBlanks rest with
        | ']' :: rest => some (.array [], rest)
        | rest => (readItems fuel depth rest).map fun (items, rest) => (.array items, rest)
    | '\x7b' :: rest =>
      match depth with
      | 0 => none
      | depth + 1 =>
        match skipBlanks rest with
        | '\x7d' :: rest => some (.object [], rest)
        | rest => (readMembers fuel depth rest).map fun (members, rest) => (.object members, rest)
    | text => (readNumber text).map fun (value, rest) => (.number value, rest)

/-- The items of an array from the first one on, up to the closing bracket. -/
def readItems : Nat → Nat → List Char → Option (List Json × List Char)
  | 0, _, _ => none
  | fuel + 1, depth, text =>
    match readValue fuel depth text with
    | none => none
    | some (item, rest) =>
      match skipBlanks rest with
      | ']' :: rest => some ([item], rest)
      | ',' :: rest =>
        (readItems fuel depth (skipBlanks rest)).map fun (items, rest) => (item :: items, rest)
      | _ => none

/-- The members of an object from the first one on, up to the closing brace. -/
def readMembers : Nat → Nat → List Char → Option (List (String × Json) × List Char)
  | 0, _, _ => none
  | fuel + 1, depth, text =>
    match text with
    | '"' :: rest =>
      match readString rest with
      | none => none
      | some (name, rest) =>
        match skipBlanks rest with
        | ':' :: rest =>
          match readValue fuel depth (skipBlanks rest) with
          | none => none
          | some (value, rest) =>
            let member := (String.ofList name, value)
            match skipBlanks rest with
            | '\x7d' :: rest => some ([member], rest)
            | ',' :: rest =>
              (readMembers fuel depth (skipBlanks rest)).map fun (members, rest) =>
                (member :: members, rest)
            | _ => none
        | _ => none
    | _ => none

end

/-- Reads a whole text as one document. -/
def parseChars (text : List Char) : Option Json :=
  match readValue (2 * text.length + 2) depthLimit (skipBlanks text) with
  | none => none
  | some (value, rest) => if (skipBlanks rest).isEmpty then some value else none

/-- Reads a whole text as one document. -/
def parse (text : String) : Option Json :=
  parseChars text.toList

/-- Passes over a string whose opening quote has been read. -/
def skipString : List Char → Option (List Char)
  | [] => none
  | '"' :: rest => some rest
  | '\\' :: 'u' :: a :: b :: c :: d :: rest =>
    match hexWord a b c d with
    | none => none
    | some _ => skipString rest
  | '\\' :: c :: rest =>
    match simpleEscape c with
    | none => none
    | some _ => skipString rest
  | c :: rest => if c = '\\' || c.toNat < 0x20 then none else skipString rest

/-- Passes over a power of ten after its mark. -/
def skipPower (text : List Char) : Option (List Char) :=
  let digits := match text with
    | '+' :: rest => rest
    | '-' :: rest => rest
    | _ => text
  match digits with
  | c :: rest => if c.isDigit then some (rest.dropWhile Char.isDigit) else none
  | [] => none

/-- Passes over what may follow the whole digits of a number. -/
def skipFraction (text : List Char) : Option (List Char) :=
  let fraction := match text with
    | '.' :: c :: rest => if c.isDigit then some (rest.dropWhile Char.isDigit) else none
    | '.' :: [] => none
    | _ => some text
  match fraction with
  | none => none
  | some [] => some []
  | some (c :: rest) => if c = 'e' || c = 'E' then skipPower rest else some (c :: rest)

/-- Passes over a number. -/
def skipNumber (text : List Char) : Option (List Char) :=
  let digits := match text with
    | '-' :: rest => rest
    | _ => text
  match digits with
  | [] => none
  | c :: rest =>
    if c = '0' then
      match rest with
      | [] => some []
      | d :: _ => if d.isDigit then none else skipFraction rest
    else if c.isDigit then skipFraction (rest.dropWhile Char.isDigit)
    else none

mutual

/-- Passes over a value. -/
def skipValue : Nat → List Char → Option (List Char)
  | 0, _ => none
  | fuel + 1, text =>
    match text with
    | 'n' :: rest => dropWord ['u', 'l', 'l'] rest
    | 't' :: rest => dropWord ['r', 'u', 'e'] rest
    | 'f' :: rest => dropWord ['a', 'l', 's', 'e'] rest
    | '"' :: rest => skipString rest
    | '[' :: rest =>
      match skipBlanks rest with
      | ']' :: rest => some rest
      | rest => skipItems fuel rest
    | '\x7b' :: rest =>
      match skipBlanks rest with
      | '\x7d' :: rest => some rest
      | rest => skipMembers fuel rest
    | text => skipNumber text

/-- Passes over the items of an array and its closing bracket. -/
def skipItems : Nat → List Char → Option (List Char)
  | 0, _ => none
  | fuel + 1, text =>
    match skipValue fuel text with
    | none => none
    | some rest =>
      match skipBlanks rest with
      | ']' :: rest => some rest
      | ',' :: rest => skipItems fuel (skipBlanks rest)
      | _ => none

/-- Passes over the members of an object and its closing brace. -/
def skipMembers : Nat → List Char → Option (List Char)
  | 0, _ => none
  | fuel + 1, text =>
    match text with
    | '"' :: rest =>
      match skipString rest with
      | none => none
      | some rest =>
        match skipBlanks rest with
        | ':' :: rest =>
          match skipValue fuel (skipBlanks rest) with
          | none => none
          | some rest =>
            match skipBlanks rest with
            | '\x7d' :: rest => some rest
            | ',' :: rest => skipMembers fuel (skipBlanks rest)
            | _ => none
        | _ => none
    | _ => none

end

end ModuleLoader.Json
