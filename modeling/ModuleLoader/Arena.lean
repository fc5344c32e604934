/-!
Things with identity live in arenas: an arena hands out references, and a reference names one cell
for ever. Two references are the same thing exactly when they are equal, whatever the cells hold.
-/

namespace ModuleLoader
set_option autoImplicit false

/-- The kinds of things that have an identity of their own. -/
inductive Noun where
  | object
  | slot
  | exports
  | record
  | compartment
  | bell
  | pool
  | call
  | load
  | ready
  | driver
  | verdict
  | task
deriving DecidableEq, Repr

/-- The identity of one thing of kind `k`. -/
structure Ref (k : Noun) where
  index : Nat
deriving DecidableEq, Repr, Inhabited

/-- The cells behind the references of kind `k`, oldest first. -/
structure Arena (k : Noun) (α : Type) where
  cells : Array α

namespace Arena

variable {k : Noun} {α : Type}

instance : Inhabited (Arena k α) := ⟨⟨#[]⟩⟩

/-- The arena in which nothing was created yet. -/
def empty : Arena k α := ⟨#[]⟩

/-- The number of things created so far. -/
def size (arena : Arena k α) : Nat :=
  arena.cells.size

/-- The reference the next creation hands out. -/
def next (arena : Arena k α) : Ref k :=
  ⟨arena.cells.size⟩

/-- Creates a cell; its reference is `arena.next`. -/
def push (arena : Arena k α) (value : α) : Arena k α :=
  ⟨arena.cells.push value⟩

/-- What the reference stands for, if it was handed out by this arena. -/
def get? (arena : Arena k α) (ref : Ref k) : Option α :=
  arena.cells[ref.index]?

/-- Replaces the contents of one cell. -/
def set (arena : Arena k α) (ref : Ref k) (value : α) : Arena k α :=
  ⟨arena.cells.setIfInBounds ref.index value⟩

/-- Changes the contents of one cell. -/
def modify (arena : Arena k α) (ref : Ref k) (f : α → α) : Arena k α :=
  ⟨arena.cells.modify ref.index f⟩

/-- Every reference handed out so far, oldest first. -/
def refs (arena : Arena k α) : List (Ref k) :=
  (List.range arena.size).map Ref.mk

theorem get?_push (arena : Arena k α) (value : α) (ref : Ref k) :
    (arena.push value).get? ref = if ref = arena.next then some value else arena.get? ref := by
  obtain ⟨index⟩ := ref
  simp [push, get?, next, Array.getElem?_push, Ref.mk.injEq]

theorem get?_modify (arena : Arena k α) (ref other : Ref k) (f : α → α) :
    (arena.modify ref f).get? other =
      if ref = other then (arena.get? other).map f else arena.get? other := by
  obtain ⟨index⟩ := ref
  obtain ⟨place⟩ := other
  simp [modify, get?, Array.getElem?_modify, Ref.mk.injEq]

theorem get?_set (arena : Arena k α) (ref other : Ref k) (value : α) :
    (arena.set ref value).get? other =
      if ref = other then (arena.get? other).map (fun _ => value) else arena.get? other := by
  obtain ⟨index⟩ := ref
  obtain ⟨place⟩ := other
  by_cases h : index = place
  · subst h
    by_cases hlt : index < arena.cells.size
    · simp [set, get?, hlt]
    · simp [set, get?, hlt]
  · simp [set, get?, h, Ref.mk.injEq]

@[simp] theorem size_push (arena : Arena k α) (value : α) :
    (arena.push value).size = arena.size + 1 := by
  simp [push, size]

@[simp] theorem size_modify (arena : Arena k α) (ref : Ref k) (f : α → α) :
    (arena.modify ref f).size = arena.size := by
  simp [modify, size]

end Arena

end ModuleLoader
