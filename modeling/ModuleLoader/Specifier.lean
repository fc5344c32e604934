/-!
Specifiers and the keys they name.

A relative specifier is joined onto the directory of the module that mentions it, one that starts
with `/` stands on its own, and any other names itself. Paths are collapsed segment by segment:
empty and `.` segments vanish, and `..` takes back the nearest ordinary segment before it.
-/

namespace ModuleLoader.Specifier
set_option autoImplicit false

/-- Why a specifier names no key. -/
inductive Fault where
  | empty
  | escapesRoot (path : List Char)
deriving DecidableEq, Repr

/-- The wording of a fault. -/
def Fault.message : Fault → String
  | .empty => "empty specifier"
  | .escapesRoot path => "'" ++ String.ofList path ++ "' escapes the module root"

/-- The parts of a path between separators. -/
def segments : List Char → List (List Char)
  | [] => [[]]
  | c :: rest =>
    if c = '/' then [] :: segments rest
    else match segments rest with
      | [] => [[c]]
      | first :: others => (c :: first) :: others

/-- A segment that says nothing. -/
def isVoid (segment : List Char) : Bool :=
  segment = [] || segment = ['.']

/-- A segment that leads one level up. -/
def isUp (segment : List Char) : Bool :=
  segment = ['.', '.']

/-- Walks down `path` from the place `above`, whose innermost segment comes first. `none` if a `..`
has nothing left to take back. -/
def collapse (above : List (List Char)) : List (List Char) → Option (List (List Char))
  | [] => some above
  | segment :: rest =>
    if isVoid segment then collapse above rest
    else if isUp segment then
      match above with
      | [] => none
      | _ :: outer => collapse outer rest
    else collapse (segment :: above) rest

/-- Segments with single separators between them. -/
def join : List (List Char) → List Char
  | [] => []
  | [segment] => segment
  | segment :: rest => segment ++ '/' :: join rest

/-- The collapsed form of a path, with a leading separator if `absolute`. -/
def normalize (path : List Char) (absolute : Bool) : Except Fault (List Char) :=
  match collapse [] (segments path) with
  | none => .error (.escapesRoot path)
  | some above =>
    let joined := join above.reverse
    .ok (if absolute then '/' :: joined else joined)

/-- Whether the path starts with a separator. -/
def isAbsolute : List Char → Bool
  | '/' :: _ => true
  | _ => false

/-- Whether a specifier is meant from the directory of the module that mentions it. -/
def isRelative : List Char → Bool
  | ['.'] => true
  | ['.', '.'] => true
  | '.' :: '/' :: _ => true
  | '.' :: '.' :: '/' :: _ => true
  | _ => false

/-- Whether a specifier names itself. -/
def isBare (specifier : List Char) : Bool :=
  !isRelative specifier && !isAbsolute specifier

/-- The part of a key before its last separator. -/
def directory (key : List Char) : List Char :=
  ((key.reverse.dropWhile (· ≠ '/')).drop 1).reverse

/-- The path a relative specifier stands for, before it is collapsed. -/
def joined (specifier referrer : List Char) : List Char :=
  match directory referrer with
  | [] => specifier
  | directory => directory ++ '/' :: specifier

/-- The key `specifier` names when the module keyed `referrer` mentions it. -/
def resolveChars (specifier referrer : List Char) : Except Fault (List Char) :=
  if specifier.isEmpty then .error .empty
  else if isAbsolute specifier then normalize specifier true
  else if isRelative specifier then normalize (joined specifier referrer) (isAbsolute referrer)
  else .ok specifier

/-- The key `specifier` names when the module keyed `referrer` mentions it. -/
def resolve (specifier referrer : String) : Except Fault String :=
  (resolveChars specifier.toList referrer.toList).map String.ofList

end ModuleLoader.Specifier
