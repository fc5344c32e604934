/-!
Finite graphs on numbers, and the components in which all vertices reach each other. One depth-first
search finds them. It keeps its path in frames, and every vertex on a stack until the component of the
vertex is complete.
-/

namespace ModuleLoader
set_option autoImplicit false

/-- A graph: the successors of each vertex, in order. -/
structure Graph where
  successors : Array (List Nat)

namespace Graph

/-- The number of vertices. -/
def order (graph : Graph) : Nat :=
  graph.successors.size

/-- The successors of a vertex. -/
def next (graph : Graph) (vertex : Nat) : List Nat :=
  (graph.successors[vertex]?).getD []

/-- How a search has to do with a vertex. -/
inductive Standing where
  | unmet
  /-- The vertex is on the stack. So many vertices were entered before it. -/
  | waiting (index : Nat)
  /-- The vertex is in a component that was found, or there is no such vertex. -/
  | grouped
deriving DecidableEq, Repr

/-- A vertex on the path of a search. -/
structure Frame where
  vertex : Nat
  /-- The least index of a waiting vertex that is known to be reached from this one. -/
  lowlink : Nat
  /-- The successors that were not looked at yet. -/
  rest : List Nat

/-- How far a search for components has come. -/
structure Search where
  standings : Array Standing
  /-- How many vertices were left before each one that was left. -/
  exits : Array Nat
  entered : Nat
  left : Nat
  /-- The vertices that wait for their components, the one entered last first. -/
  stack : List Nat
  /-- The way from the root to the innermost vertex, which comes first. -/
  path : List Frame
  /-- The components found, the last one first. -/
  found : List (List Nat)

/-- Inserts a vertex into a list ordered by a key, before those whose key is not less. -/
def insertBy (key : Nat → Nat) (vertex : Nat) : List Nat → List Nat
  | [] => [vertex]
  | first :: rest =>
    if key vertex ≤ key first then vertex :: first :: rest
    else first :: insertBy key vertex rest

/-- Orders vertices by a key. -/
def sortBy (key : Nat → Nat) (vertices : List Nat) : List Nat :=
  vertices.foldr (insertBy key) []

/-- Splits a stack below a vertex. -/
def popTo (vertex : Nat) : List Nat → List Nat × List Nat
  | [] => ([], [])
  | first :: rest =>
    if first = vertex then ([first], rest)
    else
      let (popped, below) := popTo vertex rest
      (first :: popped, below)

/-- Lowers the lowlink of the innermost vertex. -/
def lower (lowlink : Nat) : List Frame → List Frame
  | [] => []
  | frame :: path => { frame with lowlink := min frame.lowlink lowlink } :: path

namespace Search

/-- A search that has not entered anything. -/
def blank (graph : Graph) : Search where
  standings := Array.replicate graph.order .unmet
  exits := Array.replicate graph.order 0
  entered := 0
  left := 0
  stack := []
  path := []
  found := []

def standing (search : Search) (vertex : Nat) : Standing :=
  (search.standings[vertex]?).getD .grouped

/-- How many vertices were left before this one. -/
def exit (search : Search) (vertex : Nat) : Nat :=
  (search.exits[vertex]?).getD 0

/-- Enters a vertex at the end of a path. -/
def enter (graph : Graph) (search : Search) (vertex : Nat) (path : List Frame) : Search :=
  { search with
    standings := search.standings.setIfInBounds vertex (.waiting search.entered)
    entered := search.entered + 1
    stack := vertex :: search.stack
    path := ⟨vertex, search.entered, graph.next vertex⟩ :: path }

/-- Makes a component of the stack down to a vertex. Its members stand in the order in which they were
left. -/
def group (search : Search) (vertex : Nat) : Search :=
  let (members, stack) := popTo vertex search.stack
  { search with
    standings := members.foldl (fun standings member => standings.setIfInBounds member .grouped)
      search.standings
    stack
    found := sortBy search.exit members :: search.found }

/-- Leaves the innermost vertex. It closes a component if it reaches no waiting vertex that was entered
before it. -/
def leave (search : Search) (frame : Frame) (path : List Frame) : Search :=
  let search := { search with
    exits := search.exits.setIfInBounds frame.vertex search.left
    left := search.left + 1
    path := lower frame.lowlink path }
  if search.standing frame.vertex = .waiting frame.lowlink then search.group frame.vertex
  else search

/-- Looks at the next successor of the innermost vertex, or leaves the vertex. -/
def step (graph : Graph) (search : Search) : Search :=
  match search.path with
  | [] => search
  | ⟨vertex, lowlink, []⟩ :: path => search.leave ⟨vertex, lowlink, []⟩ path
  | ⟨vertex, lowlink, other :: rest⟩ :: path =>
    match search.standing other with
    | .unmet => search.enter graph other (⟨vertex, lowlink, rest⟩ :: path)
    | .waiting index => { search with path := ⟨vertex, min lowlink index, rest⟩ :: path }
    | .grouped => { search with path := ⟨vertex, lowlink, rest⟩ :: path }

/-- Goes on until the path is empty. -/
def run (graph : Graph) : Nat → Search → Search
  | 0, search => search
  | fuel + 1, search => if search.path.isEmpty then search else run graph fuel (search.step graph)

end Search

/-- The number of steps that a search has to do with the first vertices. -/
def extentUpTo (graph : Graph) : Nat → Nat
  | 0 => 0
  | vertex + 1 => graph.extentUpTo vertex + (graph.next vertex).length + 1

/-- The number of steps of a search that enters every vertex. -/
def extent (graph : Graph) : Nat :=
  graph.extentUpTo graph.order

/-- The search from a root. -/
def searchFrom (graph : Graph) (root : Nat) : Search :=
  if root < graph.order then .run graph graph.extent ((Search.blank graph).enter graph root [])
  else .blank graph

/-- The components of what can be reached from a vertex. A component comes after all it leads to, and
its members stand in the order in which the search leaves them. -/
def components (graph : Graph) (root : Nat) : List (List Nat) :=
  (graph.searchFrom root).found.reverse

end Graph

end ModuleLoader
