import OsLabs.Lib.Fifo
import OsLabs.Lib.Linked

/-!
# The queue on a linked list

`queue_t` and the functions of `lab2.1/queue.c`, one thread.  A pointer is an
address or NULL; a block that `malloc` hands out has indeterminate contents.
An assertion that fails, a pointer to a block that is not allocated and an
allocation that fails end the process, each with its own fault.  `int` and
`long` are taken without overflow.
-/

set_option autoImplicit false

namespace OsLabs.Sync

open OsLabs.Linked

abbrev Addr := Nat

/-- `qnode_t`. -/
structure QNode where
  val : Int
  next : Option Addr
  deriving DecidableEq

/-- `queue_t` and the heap its nodes live in. -/
structure Queue where
  heap : Addr → Option QNode
  first : Option Addr
  last : Option Addr
  count : Int
  maxCount : Int
  addAttempts : Int
  getAttempts : Int
  addCount : Int
  getCount : Int

inductive Fault where
  | assertion
  | invalidPointer
  | doubleFree
  | outOfMemory
  | fuelExhausted
  deriving DecidableEq

/-- What `malloc` finds: a block with whatever it contains, or nothing. -/
abbrev Block := Option (Addr × QNode)

def queueInit (maxCount : Int) : Queue where
  heap := fun _ => none
  first := none
  last := none
  count := 0
  maxCount := maxCount
  addAttempts := 0
  getAttempts := 0
  addCount := 0
  getCount := 0

namespace Queue

def load (q : Queue) (pointer : Option Addr) : Except Fault QNode :=
  match pointer.bind q.heap with
  | some node => .ok node
  | none => .error .invalidPointer

def modify (q : Queue) (pointer : Option Addr) (change : QNode → QNode) : Except Fault Queue :=
  match pointer with
  | some addr =>
      match q.heap addr with
      | some node => .ok { q with heap := Function.update q.heap addr (some (change node)) }
      | none => .error .invalidPointer
  | none => .error .invalidPointer

/-- `malloc` never hands out a block that is in use. -/
def malloc (q : Queue) (block : Block) : Except Fault (Addr × Queue) :=
  match block.filter fun found => (q.heap found.1).isNone with
  | some (addr, content) =>
      .ok (addr, { q with heap := Function.update q.heap addr (some content) })
  | none => .error .outOfMemory

def free (q : Queue) (pointer : Option Addr) : Except Fault Queue :=
  match pointer with
  | some addr =>
      match q.heap addr with
      | some _ => .ok { q with heap := Function.update q.heap addr none }
      | none => .error .doubleFree
  | none => .ok q

/-- `if (!q->first) q->first = q->last = new; else ..`. -/
def link (q : Queue) (new : Addr) : Except Fault Queue :=
  if q.first.isNone then .ok { q with first := some new, last := some new }
  else do
    let q ← q.modify q.last fun node => { node with next := some new }
    let node ← q.load q.last
    .ok { q with last := node.next }

/-- `queue_add` from its `malloc` on. -/
def enqueue (q : Queue) (val : Int) (block : Block) : Except Fault Queue := do
  let (new, q) ← q.malloc block
  let q ← q.modify (some new) fun node => { node with val := val }
  let q ← q.modify (some new) fun node => { node with next := none }
  let q ← q.link new
  .ok { q with count := q.count + 1, addCount := q.addCount + 1 }

/-- `queue_get` from the load of `q->first` on. -/
def dequeue (q : Queue) : Except Fault (Int × Queue) := do
  let tmp := q.first
  let node ← q.load tmp
  let val := node.val
  let front ← q.load q.first
  let q ← { q with first := front.next }.free tmp
  .ok (val, { q with count := q.count - 1, getCount := q.getCount + 1 })

end Queue

def queueAdd (q : Queue) (val : Int) (block : Block) : Except Fault (Int × Queue) :=
  let q := { q with addAttempts := q.addAttempts + 1 }
  if q.count ≤ q.maxCount then
    if q.count = q.maxCount then .ok (0, q)
    else do
      let q ← q.enqueue val block
      .ok (1, q)
  else .error .assertion

/-- The result, what `*val` holds afterwards, and the queue. -/
def queueGet (q : Queue) (val : Int) : Except Fault (Int × Int × Queue) :=
  let q := { q with getAttempts := q.getAttempts + 1 }
  if 0 ≤ q.count then
    if q.count = 0 then .ok (0, val, q)
    else do
      let (val, q) ← q.dequeue
      .ok (1, val, q)
  else .error .assertion

/-- The numbers of the line that `queue_print_stats` prints. -/
def queuePrintStats (q : Queue) : List Int :=
  [q.count, q.addAttempts, q.getAttempts, q.addAttempts - q.getAttempts,
    q.addCount, q.getCount, q.addCount - q.getCount]

/-! ## Calls -/

/-- A call, with the value to add or what `*val` holds before. -/
inductive Call where
  | add (val : Int)
  | get (val : Int)
  | printStats
  deriving DecidableEq

inductive Ret where
  | added (ok : Int)
  | got (ok : Int) (val : Int)
  | printed (line : List Int)
  deriving DecidableEq

def Call.run (block : Block) (q : Queue) : Call → Except Fault (Ret × Queue)
  | .add val => do
      let (ok, q) ← queueAdd q val block
      .ok (.added ok, q)
  | .get val => do
      let (ok, val, q) ← queueGet q val
      .ok (.got ok val, q)
  | .printStats => .ok (.printed (queuePrintStats q), q)

/-- Calls one after the other, each with what its `malloc` finds. -/
def runCalls (q : Queue) : List (Call × Block) → Except Fault (List Ret × Queue)
  | [] => .ok ([], q)
  | (call, block) :: rest => do
      let (ret, q) ← call.run block q
      let (rets, q) ← runCalls q rest
      .ok (ret :: rets, q)

/-- The loop of `queue_destroy`, with the addresses it frees. -/
def freeNodes : Nat → Queue → Option Addr → Except Fault (List Addr × Queue)
  | 0, _, _ => .error .fuelExhausted
  | _ + 1, q, none => .ok ([], q)
  | fuel + 1, q, some current => do
      let node ← q.load (some current)
      let q ← q.free (some current)
      let (freed, q) ← freeNodes fuel q node.next
      .ok (current :: freed, q)

def queueDestroy (fuel : Nat) (q : Queue) : Except Fault (List Addr × Queue) :=
  freeNodes fuel q q.first

end OsLabs.Sync
