import ModuleLoader.Arena
/-!
Who is to be told when something can go on, and the numbered seats that shared work keeps for those
who wait for it.

A seat stays with its holder until the holder leaves; telling everybody empties the seats without
freeing them. A newcomer gets the seat that was freed last, or a new one behind all others.
-/

namespace ModuleLoader
set_option autoImplicit false

/-- Whom a signal reaches. -/
inductive Waker where
  /-- Nobody. -/
  | nobody
  /-- A task of the run queue. -/
  | task (ref : Ref .task)
  /-- A member of a pool. -/
  | member (pool : Ref .pool) (index : Nat)
  /-- Everybody seated at a bell. -/
  | bell (ref : Ref .bell)
deriving DecidableEq, Repr

/-- A seat: free, held by someone who was told already, or held by someone to be told. -/
inductive Seat where
  | free
  | idle
  | waiting (waker : Waker)
deriving DecidableEq, Repr

/-- The seats of one bell. -/
structure Seats where
  seats : List Seat
  /-- Free seats, the one freed last first. -/
  vacant : List Nat
  /-- Nobody is seated any more once the work is done. -/
  closed : Bool
deriving Repr

namespace Seats

instance : Inhabited Seats := ⟨⟨[], [], false⟩⟩

/-- Seats a waker, in the seat its holder has or else in a fresh one. -/
def sit (seats : Seats) (held : Option Nat) (waker : Waker) : Seats × Option Nat :=
  if seats.closed then (seats, held)
  else match held with
    | some seat => ({ seats with seats := seats.seats.set seat (.waiting waker) }, held)
    | none =>
      match seats.vacant with
      | seat :: vacant =>
        ({ seats with seats := seats.seats.set seat (.waiting waker), vacant }, some seat)
      | [] =>
        ({ seats with seats := seats.seats ++ [.waiting waker] }, some seats.seats.length)

/-- Frees a seat. -/
def leave (seats : Seats) (seat : Nat) : Seats :=
  if seats.closed then seats
  else { seats with seats := seats.seats.set seat .free, vacant := seat :: seats.vacant }

/-- The wakers in the order of their seats. -/
def wakers (seats : Seats) : List Waker :=
  seats.seats.filterMap fun
    | .waiting waker => some waker
    | _ => none

/-- The seats after everybody was told. -/
def told (seats : Seats) : Seats :=
  { seats with seats := seats.seats.map fun
      | .waiting _ => .idle
      | seat => seat }

/-- No seats any more. -/
def done : Seats := ⟨[], [], true⟩

end Seats

end ModuleLoader
