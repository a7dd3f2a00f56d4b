import OsLabs.Lib.FixedString
import OsLabs.Lib.Linked
import OsLabs.Lib.Transition

/-!
# Walkers on the list of strings

`list.c` and the threads of `list-threads.c`: three that compare the lengths of
neighbours, some that swap neighbours, and one that prints the counters.  A
step is one statement of one thread, one byte where it is a string function.
A pointer that leads nowhere, and a string without its NUL, end the process.
`int` is taken without overflow.
-/

set_option autoImplicit false

namespace OsLabs.SwapList

open OsLabs.FixedString OsLabs.Transition

abbrev Addr := Nat

def maxLen : Nat := 100

abbrev Value := Chars maxLen

/-- `node_t`; the mutex is in the state of the threads. -/
structure Node where
  value : Value
  next : Option Addr

/-- `list_t` and the nodes. -/
structure Storage where
  heap : Addr → Option Node
  first : Option Addr

/-- A string shorter than `MAX_LEN`. -/
structure Str where
  bytes : List UInt8
  short : bytes.length < maxLen
  noNul : 0 ∉ bytes

def Str.value (str : Str) : Value := ofBytes str.bytes

def listInit : Storage := ⟨fun _ => none, none⟩

/-- `new` is the block that `malloc` gives. -/
def listInsert (list : Storage) (str : Str) (new : Addr) : Storage :=
  if list.first.isNone then
    ⟨Function.update list.heap new (some ⟨str.value, none⟩), some new⟩
  else ⟨Function.update list.heap new (some ⟨str.value, list.first⟩), some new⟩

/-- The strings that main inserts, the last one first, in blocks of their own. -/
structure Inserts where
  strs : List (Addr × Str)
  blocks : (strs.map Prod.fst).Nodup

def insertAll : List (Addr × Str) → Storage
  | [] => listInit
  | (new, str) :: earlier => listInsert (insertAll earlier) str new

def Inserts.list (inserts : Inserts) : Storage := insertAll inserts.strs

/-! ## Threads -/

/-- The spinlocks of `stat_t`, in the order in which `print_stat` takes them,
each with the counter it guards. -/
inductive Sync where
  | inc
  | dec
  | eq
  | swap
  deriving DecidableEq

inductive Lock where
  | node (addr : Addr)
  | stat (sync : Sync)
  deriving DecidableEq

inductive Routine where
  | incThread
  | decThread
  | eqThread
  | swapThread
  | printStat
  deriving DecidableEq

/-- The pairs of lengths that a walker counts. -/
def Routine.counts : Routine → Nat → Nat → Bool
  | .incThread, length, nextLength => length < nextLength
  | .decThread, length, nextLength => length > nextLength
  | .eqThread, length, nextLength => length = nextLength
  | .swapThread, _, _ | .printStat, _, _ => false

/-- The counter of the rounds of a walker. -/
def Routine.iters : Routine → Option Sync
  | .incThread => some .inc
  | .decThread => some .dec
  | .eqThread => some .eq
  | .swapThread | .printStat => none

/-- The statements around `stat.counter++`. -/
inductive Stage where
  | lock
  | load
  | store (value : Int)
  | unlock
  deriving DecidableEq

/-- Where a thread is, with its variables.  `counting` comes back to the pair
of nodes at `inside`, or to the head of the list. -/
inductive Pc where
  | lockFirst
  | readFirst
  | unlockFirst (current : Option Addr)
  | test (current : Option Addr)
  | lockCurrent (current : Addr)
  | lockNext (current : Addr)
  | strlenCurrent (current : Addr) (length : Nat)
  | strlenNext (current : Addr) (length nextLength : Nat)
  | compare (current : Addr) (length nextLength : Nat)
  | rand (current : Addr)
  | copyTmp (current : Addr) (tmp : Value) (copy : Copy)
  | copyCurrent (current : Addr) (tmp : Value) (copy : Copy)
  | copyNext (current : Addr) (tmp : Value) (copy : Copy)
  | counting (sync : Sync) (inside : Option Addr) (stage : Stage)
  | unlockCurrent (current : Addr)
  | unlockNext (current : Addr)
  | advance (current : Addr)
  | sleep
  | printLock (sync : Sync)
  | print
  | printUnlock (sync : Sync)

/-- The process.  `count` is the local variable of each thread; `swaps` records
the calls of `list_swap` that are over. -/
structure State (n : Nat) where
  list : Storage
  owner : Lock → Option (Fin n)
  stat : Sync → Int
  pc : Fin n → Pc
  count : Fin n → Nat
  crashed : Bool
  swaps : Nat

/-- What `rand() % 2` gives, and what `tmp` holds before it is written. -/
structure Action (n : Nat) where
  thread : Fin n
  coin : Bool
  tmp : Value

variable {n : Nat}

namespace State

def goto (s : State n) (thread : Fin n) (pc : Pc) : State n :=
  { s with pc := Function.update s.pc thread pc }

def crash (s : State n) : State n := { s with crashed := true }

def setValue (s : State n) (addr : Addr) (node : Node) (value : Value) : State n :=
  { s with list.heap := Function.update s.list.heap addr (some { node with value := value }) }

/-- The thread goes on when it gets the lock. -/
def acquire (s : State n) (thread : Fin n) (lock : Lock) (pc : Pc) : Option (State n) :=
  match s.owner lock with
  | none => some { s.goto thread pc with owner := Function.update s.owner lock (some thread) }
  | some _ => none

def release (s : State n) (thread : Fin n) (lock : Lock) (pc : Pc) : Option (State n) :=
  some { s.goto thread pc with owner := Function.update s.owner lock none }

/-- The node behind a pointer. -/
def load (s : State n) (pointer : Option Addr) (rest : Addr → Node → Option (State n)) :
    Option (State n) :=
  match pointer with
  | none => some s.crash
  | some addr =>
      match s.list.heap addr with
      | none => some s.crash
      | some node => rest addr node

/-- A node and its successor. -/
def loadPair (s : State n) (current : Addr) (rest : Node → Addr → Node → Option (State n)) :
    Option (State n) :=
  s.load (some current) fun _ node => s.load node.next fun next nextNode => rest node next nextNode

end State

/-- One byte of `strlen`. -/
def strlenByte (s : State n) (thread : Fin n) (value : Value) (length : Nat) (more done : Pc) :
    Option (State n) :=
  if inside : length < maxLen then
    some (s.goto thread (if value ⟨length, inside⟩ = 0 then done else more))
  else some s.crash

/-- Where a walker goes from the end of the list. -/
def Routine.again (routine : Routine) : Pc :=
  match routine.iters with
  | some sync => .counting sync none .lock
  | none => .lockFirst

/-- The order of the locks of `print_stat`. -/
def Sync.next : Sync → Option Sync
  | .inc => some .dec
  | .dec => some .eq
  | .eq => some .swap
  | .swap => none

def countingStep (s : State n) (thread : Fin n) (sync : Sync) (inside : Option Addr) :
    Stage → Option (State n)
  | .lock => s.acquire thread (.stat sync) (.counting sync inside .load)
  | .load => some (s.goto thread (.counting sync inside (.store (s.stat sync))))
  | .store value =>
      some { s.goto thread (.counting sync inside .unlock) with
        stat := Function.update s.stat sync (value + 1) }
  | .unlock =>
      s.release thread (.stat sync)
        (match inside with
          | some current => .unlockCurrent current
          | none => .lockFirst)

def step (routine : Fin n → Routine) (s : State n) (action : Action n) : Option (State n) :=
  let thread := action.thread
  if s.crashed then none
  else
    match s.pc thread with
    | .lockFirst => s.load s.list.first fun first _ => s.acquire thread (.node first) .readFirst
    | .readFirst => some (s.goto thread (.unlockFirst s.list.first))
    | .unlockFirst current =>
        s.load s.list.first fun first _ =>
          (s.release thread (.node first) (.test current)).map fun s =>
            { s with count := Function.update s.count thread 0 }
    | .test none => some (s.goto thread (routine thread).again)
    | .test (some current) =>
        s.load (some current) fun _ node =>
          some (s.goto thread
            (if node.next.isSome then .lockCurrent current else (routine thread).again))
    | .lockCurrent current =>
        s.load (some current) fun _ _ => s.acquire thread (.node current) (.lockNext current)
    | .lockNext current =>
        s.loadPair current fun _ next _ =>
          s.acquire thread (.node next)
            (if routine thread = .swapThread then .rand current else .strlenCurrent current 0)
    | .strlenCurrent current length =>
        s.load (some current) fun _ node =>
          strlenByte s thread node.value length (.strlenCurrent current (length + 1))
            (.strlenNext current length 0)
    | .strlenNext current length nextLength =>
        s.loadPair current fun _ _ nextNode =>
          strlenByte s thread nextNode.value nextLength (.strlenNext current length (nextLength + 1))
            (.compare current length nextLength)
    | .compare current length nextLength =>
        let found := (routine thread).counts length nextLength
        some { s.goto thread (.unlockCurrent current) with
          count := Function.update s.count thread (s.count thread + found.toNat) }
    | .rand current =>
        if action.coin then
          s.load (some current) fun _ node =>
            if node.next = some current then
              some { s.goto thread (.counting .swap (some current) .lock) with swaps := s.swaps + 1 }
            else some (s.goto thread (.copyTmp current action.tmp .start))
        else some (s.goto thread (.unlockCurrent current))
    | .copyTmp current tmp copy =>
        if more : copy.done < maxLen then
          s.load (some current) fun _ node =>
            let (tmp, copy) := copyByte node.value tmp ⟨copy.done, more⟩ copy.ended
            some (s.goto thread (.copyTmp current tmp copy))
        else some (s.goto thread (.copyCurrent current tmp .start))
    | .copyCurrent current tmp copy =>
        if more : copy.done < maxLen then
          s.loadPair current fun node _ nextNode =>
            let (value, copy) := copyByte nextNode.value node.value ⟨copy.done, more⟩ copy.ended
            some ((s.setValue current node value).goto thread (.copyCurrent current tmp copy))
        else some (s.goto thread (.copyNext current tmp .start))
    | .copyNext current tmp copy =>
        if more : copy.done < maxLen then
          s.loadPair current fun _ next nextNode =>
            let (value, copy) := copyByte tmp nextNode.value ⟨copy.done, more⟩ copy.ended
            some ((s.setValue next nextNode value).goto thread (.copyNext current tmp copy))
        else
          some { s.goto thread (.counting .swap (some current) .lock) with swaps := s.swaps + 1 }
    | .counting sync inside stage => countingStep s thread sync inside stage
    | .unlockCurrent current =>
        s.load (some current) fun _ _ => s.release thread (.node current) (.unlockNext current)
    | .unlockNext current =>
        s.loadPair current fun _ next _ => s.release thread (.node next) (.advance current)
    | .advance current => s.load (some current) fun _ node => some (s.goto thread (.test node.next))
    | .sleep => some (s.goto thread (.printLock .inc))
    | .printLock sync =>
        s.acquire thread (.stat sync)
          (match sync.next with
            | some next => .printLock next
            | none => .print)
    | .print => some (s.goto thread (.printUnlock .inc))
    | .printUnlock sync =>
        s.release thread (.stat sync)
          (match sync.next with
            | some next => .printUnlock next
            | none => .sleep)

/-- After the inserts and `stat_init`, every thread at the start of its routine. -/
def State.start (inserts : Inserts) (routine : Fin n → Routine) : State n where
  list := inserts.list
  owner := fun _ => none
  stat := fun _ => 0
  pc := fun thread => if routine thread = .printStat then .sleep else .lockFirst
  count := fun _ => 0
  crashed := false
  swaps := 0

def walkers (inserts : Inserts) (routine : Fin n → Routine) : System (State n) (Action n) :=
  ⟨State.start inserts routine, step routine⟩

end OsLabs.SwapList
