import ModuleLoader.Session.Tasks
/-!
Evaluating source text in terms of a compartment: a small language of commands, whose words are
separated by single spaces.
-/

namespace ModuleLoader
set_option autoImplicit false

namespace Evaluation

/-- The words of a text between single spaces. -/
def words (text : String) : List String :=
  (split text.toList).map String.ofList
where
  split : List Char → List (List Char)
    | [] => [[]]
    | c :: rest =>
      if c = ' ' then [] :: split rest
      else match split rest with
        | [] => [[c]]
        | first :: others => (c :: first) :: others

/-- Carries out a command. Failures are thrown as values. -/
def command (compartment : Ref .compartment) : List String → Act (Except Value Value)
  | ["import", key, name] => do
    match ← Act.importNow Act.lookOutside ⟨compartment, key⟩ with
    | .error failure => return .error failure.thrown
    | .ok space =>
      match (← get).store.readExport space name with
      | .error failure => return .error failure.thrown
      | .ok value => return .ok value
  | ["import", key] => do
    match ← Act.importNow Act.lookOutside ⟨compartment, key⟩ with
    | .error failure => return .error failure.thrown
    | .ok space => return .ok (.exports space)
  | ["resolve", specifier, referrer] => do
    match ((← get).compartment compartment).resolve specifier referrer with
    | .error failure => return .error failure.thrown
    | .ok key => return .ok (.string key)
  | "eval" :: rest => command compartment rest
  | "throw" :: rest => return .error (.string (String.intercalate " " rest))
  | ["name"] => do return .ok (.string ((← get).compartment compartment).name)
  | text => return .error (.string ("SyntaxError: " ++ String.intercalate " " text))

end Evaluation

/-- Evaluates a text in terms of a compartment, if it has an evaluator. -/
def Act.evaluateText (compartment : Ref .compartment) (text : String) :
    Act (Except Failure Value) := do
  let registry := (← get).compartment compartment
  if registry.hasEvaluator then
    match ← Evaluation.command compartment (Evaluation.words text) with
    | .ok value => return .ok value
    | .error thrown => return .error (.evaluation thrown)
  else return .error (.noEvaluator registry.name)

end ModuleLoader
