import ModuleLoader.Text.Shown
/-!
Strings between double quotes. In an inspection text the hidden characters, the quote and the
backslash are escaped; in a document text only what the format demands.
-/

namespace ModuleLoader.Text
set_option autoImplicit false

/-- `count` hexadecimal digits of `value`, the highest first. -/
def hexDigits (value : Nat) : Nat → List Char
  | 0 => []
  | count + 1 => hexDigits (value / 16) count ++ [Nat.digitChar (value % 16)]

/-- How one character stands in an inspection text. -/
def inspectChar (c : Char) : List Char :=
  if c = '\x00' then ['\\', '0']
  else if c = '\t' then ['\\', 't']
  else if c = '\r' then ['\\', 'r']
  else if c = '\n' then ['\\', 'n']
  else if c = '"' then ['\\', '"']
  else if c = '\\' then ['\\', '\\']
  else if isShown c then [c]
  else ['\\', 'u', '\x7b'] ++ Nat.toDigits 16 c.toNat ++ ['\x7d']

/-- A string in an inspection text. -/
def inspectString (text : String) : String :=
  String.ofList (['"'] ++ text.toList.flatMap inspectChar ++ ['"'])

/-- How one character stands in a document string. -/
def documentChar (c : Char) : List Char :=
  if c = '"' then ['\\', '"']
  else if c = '\\' then ['\\', '\\']
  else if c = '\x08' then ['\\', 'b']
  else if c = '\x0c' then ['\\', 'f']
  else if c = '\n' then ['\\', 'n']
  else if c = '\r' then ['\\', 'r']
  else if c = '\t' then ['\\', 't']
  else if c.toNat < 0x20 then ['\\', 'u'] ++ hexDigits c.toNat 4
  else [c]

/-- A string of a document, between its quotes. -/
def documentString (text : List Char) : List Char :=
  ['"'] ++ text.flatMap documentChar ++ ['"']

end ModuleLoader.Text
