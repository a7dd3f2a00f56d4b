import Mathlib.Logic.Function.Basic
import OsLabs.Lib.Rotation
import OsLabs.Lib.Transition

/-!
# User threads

`uthread.c` of `part3`: threads that hand over to each other with
`swapcontext`, in the order of a table.  What a thread does between two calls
of the library is its own: a program says what a context does next, and each
thread keeps a record of what it has done.
-/

set_option autoImplicit false

namespace OsLabs.Uthread

open OsLabs.Rotation OsLabs.Transition

abbrev Addr := Nat

def maxThreads : Nat := 16

/-! ## Programs -/

/-- What a context does next.  An action of the thread's own has an input from
outside, `uthread_create` gives the handle or fails. -/
inductive Op (Ctx Routine Arg Event Input : Type) where
  | act (event : Event) (next : Input → Ctx)
  | create (startRoutine : Routine) (arg : Arg) (next : Option Addr → Ctx)
  | schedule (next : Ctx)
  | ret

/-- `enter` is the context in which a call of a start routine begins. -/
structure Program (Ctx Routine Arg Event Input : Type) where
  enter : Routine → Arg → Ctx
  op : Ctx → Op Ctx Routine Arg Event Input

inductive Did (Event Input : Type) where
  | acted (event : Event) (input : Input)
  | created (thr : Option Addr)
  | scheduled
  deriving DecidableEq

section Alone

variable {Ctx Routine Arg Event Input : Type} [DecidableEq Event]

def Op.follow : Op Ctx Routine Arg Event Input → Did Event Input → Option Ctx
  | .act event next, .acted done input => if event = done then some (next input) else none
  | .create _ _ next, .created thr => some (next thr)
  | .schedule next, .scheduled => some next
  | _, _ => none

/-- Where a thread gets to that does this with no other threads around. -/
def Program.alone (program : Program Ctx Routine Arg Event Input) (ctx : Ctx) :
    List (Did Event Input) → Option Ctx
  | [] => some ctx
  | did :: rest =>
      match (program.op ctx).follow did with
      | some next => program.alone next rest
      | none => none

theorem alone_snoc {program : Program Ctx Routine Arg Event Input} {ctx last next : Ctx}
    {history : List (Did Event Input)} {did : Did Event Input}
    (before : program.alone ctx history = some last)
    (follows : (program.op last).follow did = some next) :
    program.alone ctx (history ++ [did]) = some next := by
  induction history generalizing ctx with
  | nil =>
      cases before
      simp [Program.alone, follows]
  | cons first rest ih =>
      simp only [List.cons_append, Program.alone] at before ⊢
      cases found : (program.op ctx).follow first with
      | none =>
          rw [found] at before
          cases before
      | some between =>
          simp only [found] at before
          exact ih before

end Alone

/-! ## The scheduler -/

/-- `ucontext_t`: the entry made by `makecontext`, or what `swapcontext` saved. -/
inductive Context (Ctx : Type) where
  | uthreadStart (thread : Addr)
  | saved (ctx : Ctx)

/-- `uthread_struct`, with its start routine and argument once they are set. -/
structure UThread (Ctx Routine Arg : Type) where
  start : Option (Routine × Arg)
  context : Context Ctx

/-- `sched`, the structures of the threads and the running context.  An address
stands for the region of a thread and the structure in it.  The last three
fields are a record of the run: where each thread started, what it has done,
and the turns that `schedule` gave. -/
structure State (Ctx Routine Arg Event Input : Type) where
  heap : Addr → Option (UThread Ctx Routine Arg)
  allocated : List Addr
  threads : Nat → Option Addr
  threadCount : Nat
  curThread : Nat
  running : Ctx
  exited : Bool
  started : Nat → Ctx
  history : Nat → List (Did Event Input)
  turns : List Turn

/-- The input of an action, what `mmap` returns, and whether `getcontext` or
`swapcontext` fails. -/
structure Answer (Input : Type) where
  input : Input
  region : Option Addr
  err : Bool

section Step

variable {Ctx Routine Arg Event Input : Type}

namespace State

variable (s : State Ctx Routine Arg Event Input)

def record (did : Did Event Input) : State Ctx Routine Arg Event Input :=
  { s with history := Function.update s.history s.curThread (s.history s.curThread ++ [did]) }

/-- The handle, or nothing where -1 is returned.  `mmap` gives no region that is
in use. -/
def uthreadCreate (program : Program Ctx Routine Arg Event Input) (startRoutine : Routine)
    (arg : Arg) (region : Option Addr) (err : Bool) :
    Option Addr × State Ctx Routine Arg Event Input :=
  match region.filter fun found => found ∉ s.allocated with
  | none => (none, s)
  | some thread =>
      let s := { s with allocated := thread :: s.allocated }
      if err then (none, s)
      else
        let made := { start := some (startRoutine, arg), context := .uthreadStart thread }
        let s := { s with heap := Function.update s.heap thread (some made) }
        if s.threadCount ≥ maxThreads - 1 then (none, s)
        else
          (some thread,
            { s with
              threads := Function.update s.threads s.threadCount (some thread)
              threadCount := s.threadCount + 1
              started := Function.update s.started s.threadCount (program.enter startRoutine arg) })

end State

/-- `uthread_start` calls the start routine that its structure holds. -/
def resume (program : Program Ctx Routine Arg Event Input)
    (heap : Addr → Option (UThread Ctx Routine Arg)) : Context Ctx → Option Ctx
  | .saved ctx => some ctx
  | .uthreadStart thread => do
      let thr ← heap thread
      let (startRoutine, arg) ← thr.start
      some (program.enter startRoutine arg)

/-- `schedule`, which returns to `after`; it is left when `swapcontext` has
loaded the next context. -/
def State.schedule (s : State Ctx Routine Arg Event Input)
    (program : Program Ctx Routine Arg Event Input) (after : Ctx) (err : Bool) :
    Option (State Ctx Routine Arg Event Input) := do
  let s := s.record .scheduled
  let current ← s.threads s.curThread
  let s := { s with curThread := (s.curThread + 1) % s.threadCount }
  let next ← s.threads s.curThread
  if err then some { s with exited := true }
  else do
    let thr ← s.heap current
    let heap := Function.update s.heap current (some { thr with context := .saved after })
    let nextThr ← heap next
    let running ← resume program heap nextThr.context
    some { s with
      heap := heap
      running := running
      turns := s.turns ++ [⟨s.curThread, s.threadCount⟩] }

/-- A context that returns has no `uc_link`: the process ends. -/
def step (program : Program Ctx Routine Arg Event Input) (s : State Ctx Routine Arg Event Input)
    (answer : Answer Input) : Option (State Ctx Routine Arg Event Input) :=
  if s.exited then none
  else
    match program.op s.running with
    | .act event next =>
        some { s.record (.acted event answer.input) with running := next answer.input }
    | .create startRoutine arg next =>
        let (thr, after) := s.uthreadCreate program startRoutine arg answer.region answer.err
        some { after.record (.created thr) with running := next thr }
    | .schedule after => s.schedule program after answer.err
    | .ret => some { s with exited := true }

/-- After `scheduler_init`: the main thread is the first of the table. -/
def schedulerInit (mainThread : Addr) (main : Ctx) : State Ctx Routine Arg Event Input where
  heap := Function.update (fun _ => none) mainThread (some ⟨none, .saved main⟩)
  allocated := [mainThread]
  threads := Function.update (fun _ => none) 0 (some mainThread)
  threadCount := 1
  curThread := 0
  running := main
  exited := false
  started := fun _ => main
  history := fun _ => []
  turns := [⟨0, 1⟩]

def uthreads (program : Program Ctx Routine Arg Event Input) (mainThread : Addr) (main : Ctx) :
    System (State Ctx Routine Arg Event Input) (Answer Input) :=
  ⟨schedulerInit mainThread main, step program⟩

end Step

end OsLabs.Uthread
