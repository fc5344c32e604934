import ModuleLoader.Signal.Seats
/-!
The signals of a run: bells with their seats, pools with their queues, and the run queue of tasks.

A pool holds work of one owner. A member that is told goes to the end of the pool's queue, if it is
not in it, and its owner is told through the waker that it left when it last looked; that waker
serves once.
-/

namespace ModuleLoader
set_option autoImplicit false

/-- The queue of one pool. -/
structure Pool where
  /-- Members that have not finished. -/
  live : List Nat
  /-- Members that were told, first come first. -/
  queue : List Nat
  /-- Members told since their turn began. -/
  stirred : List Nat
  /-- Whom to tell when the queue grows. -/
  owner : Option Waker
  closed : Bool

/-- All signals of a run. -/
structure Board where
  bells : Arena .bell Seats
  pools : Arena .pool Pool
  /-- Tasks to be run, first come first, none twice. -/
  tasks : List (Ref .task)

instance : Inhabited Pool := ⟨⟨[], [], [], none, false⟩⟩

instance : Inhabited Board := ⟨⟨.empty, .empty, []⟩⟩

namespace Pool

/-- Tells a member. Gives the waker of the owner if it has to be told in turn. -/
def tell (pool : Pool) (index : Nat) : Pool × Option Waker :=
  if pool.closed || !pool.live.contains index then (pool, none)
  else
    let pool := { pool with stirred := index :: pool.stirred }
    if pool.queue.contains index then (pool, none)
    else ({ pool with queue := pool.queue ++ [index], owner := none }, pool.owner)

/-- Adds a member, which is due at once. -/
def add (pool : Pool) (index : Nat) : Pool :=
  { pool with live := index :: pool.live, queue := pool.queue ++ [index] }

/-- Takes the next member out of the queue and starts its turn. -/
def turn (pool : Pool) : Option (Nat × Pool) :=
  match pool.queue with
  | [] => none
  | index :: queue =>
    some (index, { pool with queue, stirred := pool.stirred.filter (· ≠ index) })

/-- Removes a finished member. -/
def finish (pool : Pool) (index : Nat) : Pool :=
  { pool with
    live := pool.live.filter (· ≠ index)
    queue := pool.queue.filter (· ≠ index)
    stirred := pool.stirred.filter (· ≠ index) }

end Pool

namespace Board

/-- The seats of a bell. -/
def seats (board : Board) (bell : Ref .bell) : Seats :=
  (board.bells.get? bell).getD .done

/-- The queue of a pool. -/
def pool (board : Board) (ref : Ref .pool) : Pool :=
  (board.pools.get? ref).getD { (default : Pool) with closed := true }

/-- Puts a task into the run queue, if it is not in it. -/
def enqueue (board : Board) (task : Ref .task) : Board :=
  if board.tasks.contains task then board else { board with tasks := board.tasks ++ [task] }

/-- How many wakers are registered; each signal uses up at least one. -/
def registered (board : Board) : Nat :=
  board.bells.cells.foldl (fun total seats => total + seats.wakers.length) 0 +
    board.pools.cells.foldl (fun total pool => total + if pool.owner.isSome then 1 else 0) 0

/-- Tells wakers from first to last; whoever a waker reaches in turn comes before the next one. -/
def tellAll (board : Board) : Nat → List Waker → Board
  | 0, _ => board
  | _ + 1, [] => board
  | fuel + 1, .nobody :: rest => board.tellAll fuel rest
  | fuel + 1, .task task :: rest => (board.enqueue task).tellAll fuel rest
  | fuel + 1, .member ref index :: rest =>
    let (pool, owner) := (board.pool ref).tell index
    { board with pools := board.pools.set ref pool }.tellAll fuel (owner.toList ++ rest)
  | fuel + 1, .bell bell :: rest =>
    let seats := board.seats bell
    { board with bells := board.bells.set bell seats.told }.tellAll fuel (seats.wakers ++ rest)

/-- Tells wakers. -/
def tell (board : Board) (wakers : List Waker) : Board :=
  match wakers with
  | [] => board
  | [.nobody] => board
  | [.task task] => board.enqueue task
  | _ => board.tellAll (wakers.length + board.registered + 1) wakers

end Board

end ModuleLoader
