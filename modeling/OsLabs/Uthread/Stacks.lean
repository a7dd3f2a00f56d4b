import OsLabs.Uthread.Scheduler

/-!
# Stacks and structures of the user threads

`uthread_create` maps one region for a thread, puts its structure at the end of
it and gives the rest to the stack, but takes the size of a pointer off for the
structure.  A thread may write every byte of the stack it was given.  Addresses
are integers, and the size of the structure is a parameter.
-/

set_option autoImplicit false

namespace OsLabs.Uthread

open OsLabs.Transition

abbrev Byte := UInt8

def stackSize : Int := 2048

/-- `sizeof(uthread_t)`, which is a pointer. -/
def uthreadTSize : Int := 8

structure Region where
  base : Int
  size : Int

namespace Region

def Has (region : Region) (addr : Int) : Prop :=
  region.base ≤ addr ∧ addr < region.base + region.size

instance (region : Region) (addr : Int) : Decidable (region.Has addr) :=
  inferInstanceAs (Decidable (_ ∧ _))

def Apart (first second : Region) : Prop :=
  first.base + first.size ≤ second.base ∨ second.base + second.size ≤ first.base

instance (first second : Region) : Decidable (first.Apart second) :=
  inferInstanceAs (Decidable (_ ∨ _))

structure Within (inner outer : Region) : Prop where
  low : outer.base ≤ inner.base
  high : inner.base + inner.size ≤ outer.base + outer.size

theorem Apart.symm {first second : Region} (apart : first.Apart second) : second.Apart first :=
  Or.symm apart

theorem Apart.not_has {first second : Region} (apart : first.Apart second) {addr : Int}
    (has : first.Has addr) : ¬ second.Has addr := by
  unfold Apart Has at *
  omega

theorem Apart.within {first second inner other : Region} (apart : first.Apart second)
    (inFirst : inner.Within first) (inSecond : other.Within second) : inner.Apart other := by
  obtain ⟨_, _⟩ := inFirst
  obtain ⟨_, _⟩ := inSecond
  unfold Apart at *
  omega

end Region

/-- Where the structure of a thread is, and the stack that its context was
given; the main thread runs on the stack of the process. -/
structure Placed where
  struct : Region
  stack : Option Region

def placed (structSize : Nat) (region : Int) : Placed where
  struct := ⟨region + stackSize - structSize, structSize⟩
  stack := some ⟨region, stackSize - uthreadTSize⟩

/-- Memory, with a record of what the library stored last at each address. -/
structure Layout where
  bytes : Int → Byte
  stored : Int → Byte
  allocated : List Region
  threads : List Placed
  curThread : Nat
  exited : Bool

/-- What `mmap` returns, whether `getcontext` or `swapcontext` fails, and the
bytes of the structure or of the context that they leave. -/
inductive LayoutAction where
  | create (region : Option Int) (err : Bool) (contents : Int → Byte)
  | schedule (err : Bool) (contents : Int → Byte)
  | write (addr : Int) (byte : Byte)

namespace Layout

/-- The library writes a structure. -/
def store (s : Layout) (region : Region) (contents : Int → Byte) : Layout :=
  { s with
    bytes := fun addr => if region.Has addr then contents addr else s.bytes addr
    stored := fun addr => if region.Has addr then contents addr else s.stored addr }

/-- `mmap` gives no memory that is in use. -/
def uthreadCreate (structSize : Nat) (s : Layout) (region : Option Int) (err : Bool)
    (contents : Int → Byte) : Layout :=
  match region.filter fun base => ∀ block ∈ s.allocated, (Region.mk base stackSize).Apart block with
  | none => s
  | some base =>
      let s := { s with allocated := ⟨base, stackSize⟩ :: s.allocated }
      if err then s
      else
        let thread := placed structSize base
        let s := s.store thread.struct contents
        if s.threads.length ≥ maxThreads - 1 then s
        else { s with threads := s.threads ++ [thread] }

/-- `swapcontext` saves the context of the current thread in its structure. -/
def schedule (s : Layout) (err : Bool) (contents : Int → Byte) : Option Layout := do
  let current ← s.threads[s.curThread]?
  if err then some { s with exited := true }
  else some { s.store current.struct contents with
    curThread := (s.curThread + 1) % s.threads.length }

/-- A write of the running thread to its stack. -/
def write (s : Layout) (addr : Int) (byte : Byte) : Option Layout := do
  let current ← s.threads[s.curThread]?
  let stack ← current.stack
  if stack.Has addr then some { s with bytes := Function.update s.bytes addr byte } else none

def step (structSize : Nat) (s : Layout) (action : LayoutAction) : Option Layout :=
  if s.exited then none
  else
    match action with
    | .create region err contents => some (s.uthreadCreate structSize region err contents)
    | .schedule err contents => s.schedule err contents
    | .write addr byte => s.write addr byte

/-- After `scheduler_init`: the structure of the main thread is a block of its own. -/
def start (structSize : Nat) (mainThread : Int) (contents : Int → Byte) : Layout where
  bytes := contents
  stored := contents
  allocated := [⟨mainThread, structSize⟩]
  threads := [⟨⟨mainThread, structSize⟩, none⟩]
  curThread := 0
  exited := false

end Layout

def layouts (structSize : Nat) (mainThread : Int) (contents : Int → Byte) :
    System Layout LayoutAction :=
  ⟨Layout.start structSize mainThread contents, Layout.step structSize⟩

/-- Every structure is as the library left it. -/
def Intact (s : Layout) : Prop :=
  ∀ thread ∈ s.threads, ∀ addr, thread.struct.Has addr → s.bytes addr = s.stored addr

/-! ## Structures that fit behind the stack -/

/-- Threads in blocks of their own, every stack apart from every structure. -/
structure Separate (s : Layout) : Prop where
  intact : Intact s
  blocks : ∀ thread ∈ s.threads, ∃ block ∈ s.allocated, thread.struct.Within block ∧
    ∀ stack ∈ thread.stack, stack.Within block
  apart : ∀ thread ∈ s.threads, ∀ stack ∈ thread.stack, ∀ other ∈ s.threads,
    stack.Apart other.struct

theorem Intact.store {s : Layout} (intact : Intact s) (region : Region) (contents : Int → Byte) :
    Intact (s.store region contents) := by
  intro thread member addr has
  have same := intact thread member addr has
  simp only [Layout.store]
  split
  · rfl
  · exact same

theorem placed_within {structSize : Nat} (fits : (structSize : Int) ≤ uthreadTSize)
    (region : Int) : (placed structSize region).struct.Within ⟨region, stackSize⟩ ∧
      ∀ stack ∈ (placed structSize region).stack, stack.Within ⟨region, stackSize⟩ := by
  have size : stackSize = 2048 ∧ uthreadTSize = 8 := ⟨rfl, rfl⟩
  refine ⟨⟨?_, ?_⟩, ?_⟩
  · simp only [placed]
    omega
  · simp only [placed]
    omega
  · rintro stack ⟨⟩
    constructor
    · exact Int.le_refl _
    · dsimp only
      omega

theorem placed_apart {structSize : Nat} (fits : (structSize : Int) ≤ uthreadTSize) (region : Int) :
    ∀ stack ∈ (placed structSize region).stack, stack.Apart (placed structSize region).struct := by
  rintro stack ⟨⟩
  refine Or.inl ?_
  simp only [placed]
  omega

/-! ## Steps -/

theorem schedule_separate {s next : Layout} {err : Bool} {contents : Int → Byte}
    (separate : Separate s) (scheduled : s.schedule err contents = some next) :
    Separate next := by
  simp only [Layout.schedule] at scheduled
  obtain ⟨current, _, scheduled⟩ := Option.bind_eq_some_iff.mp scheduled
  by_cases failed : err
  · rw [if_pos failed] at scheduled
    cases scheduled
    exact ⟨separate.intact, separate.blocks, separate.apart⟩
  · rw [if_neg failed] at scheduled
    cases scheduled
    exact ⟨separate.intact.store current.struct contents, separate.blocks, separate.apart⟩

/-- The stack that is written to is apart from every structure. -/
theorem write_separate {s next : Layout} {addr : Int} {byte : Byte}
    (separate : Separate s) (written : s.write addr byte = some next) : Separate next := by
  simp only [Layout.write] at written
  obtain ⟨current, isCurrent, written⟩ := Option.bind_eq_some_iff.mp written
  obtain ⟨stack, isStack, written⟩ := Option.bind_eq_some_iff.mp written
  by_cases inside : stack.Has addr
  · rw [if_pos inside] at written
    cases written
    refine ⟨?_, separate.blocks, separate.apart⟩
    intro thread member other has
    have elsewhere : other ≠ addr := by
      intro same
      subst same
      have apart := separate.apart current (List.mem_of_getElem? isCurrent) stack isStack thread member
      exact apart.not_has inside has
    show Function.update s.bytes addr byte other = s.stored other
    rw [Function.update_of_ne elsewhere]
    exact separate.intact thread member other has
  · rw [if_neg inside] at written
    cases written

/-- A new thread is in a block that no other thread is in. -/
theorem Separate.register {s : Layout} {structSize : Nat} {base : Int} {contents : Int → Byte}
    (fits : (structSize : Int) ≤ uthreadTSize) (separate : Separate s)
    (fresh : ∀ block ∈ s.allocated, (Region.mk base stackSize).Apart block) :
    let stored := { s with allocated := ⟨base, stackSize⟩ :: s.allocated }.store
      (placed structSize base).struct contents
    Separate { stored with threads := s.threads ++ [placed structSize base] } := by
  obtain ⟨structWithin, stackWithin⟩ := placed_within fits base
  refine ⟨?_, ?_, ?_⟩
  · intro thread member addr has
    rcases List.mem_append.mp member with old | new
    · exact separate.intact.store (placed structSize base).struct contents thread old addr has
    · rw [List.mem_singleton.mp new] at has
      simp only [Layout.store, if_pos has]
  · intro thread member
    rcases List.mem_append.mp member with old | new
    · obtain ⟨block, allocated, within⟩ := separate.blocks thread old
      exact ⟨block, List.mem_cons_of_mem _ allocated, within⟩
    · rw [List.mem_singleton.mp new]
      exact ⟨⟨base, stackSize⟩, List.mem_cons_self, structWithin, stackWithin⟩
  · intro thread member stack isStack other otherMember
    rcases List.mem_append.mp member with old | new
    · obtain ⟨block, allocated, _, ownWithin⟩ := separate.blocks thread old
      rcases List.mem_append.mp otherMember with otherOld | otherNew
      · exact separate.apart thread old stack isStack other otherOld
      · rw [List.mem_singleton.mp otherNew]
        exact (fresh block allocated).symm.within (ownWithin stack isStack) structWithin
    · rw [List.mem_singleton.mp new] at isStack
      rcases List.mem_append.mp otherMember with otherOld | otherNew
      · obtain ⟨block, allocated, otherWithin, _⟩ := separate.blocks other otherOld
        exact (fresh block allocated).within (stackWithin stack isStack) otherWithin
      · rw [List.mem_singleton.mp otherNew]
        exact placed_apart fits base stack isStack

theorem create_separate {s : Layout} {structSize : Nat} (fits : (structSize : Int) ≤ uthreadTSize)
    (separate : Separate s) (region : Option Int) (err : Bool) (contents : Int → Byte) :
    Separate (s.uthreadCreate structSize region err contents) := by
  have grown : ∀ block, ∀ thread ∈ s.threads, ∃ other ∈ block :: s.allocated,
      thread.struct.Within other ∧ ∀ stack ∈ thread.stack, stack.Within other := by
    intro block thread member
    obtain ⟨other, allocated, within⟩ := separate.blocks thread member
    exact ⟨other, List.mem_cons_of_mem _ allocated, within⟩
  unfold Layout.uthreadCreate
  split
  · exact separate
  · rename_i base found
    have kept := Option.mem_filter_iff.mp (Option.mem_def.mpr found)
    have fresh : ∀ block ∈ s.allocated, (Region.mk base stackSize).Apart block := by
      simpa using kept.2
    by_cases failed : err
    · simp only [if_pos failed]
      exact ⟨separate.intact, grown _, separate.apart⟩
    · simp only [if_neg failed]
      split
      · exact ⟨separate.intact.store _ contents, grown _, separate.apart⟩
      · exact separate.register fits fresh

theorem separate_step {s next : Layout} {structSize : Nat} {action : LayoutAction}
    (fits : (structSize : Int) ≤ uthreadTSize) (separate : Separate s)
    (stepped : s.step structSize action = some next) : Separate next := by
  unfold Layout.step at stepped
  split at stepped
  · cases stepped
  cases action with
  | create region err contents =>
      cases stepped
      exact create_separate fits separate region err contents
  | schedule err contents => exact schedule_separate separate stepped
  | write addr byte => exact write_separate separate stepped

theorem start_separate (structSize : Nat) (mainThread : Int) (contents : Int → Byte) :
    Separate (Layout.start structSize mainThread contents) := by
  refine ⟨fun _ _ _ _ => rfl, ?_, ?_⟩
  · intro thread member
    rw [List.mem_singleton.mp member]
    refine ⟨⟨mainThread, structSize⟩, List.mem_singleton.mpr rfl, ⟨Int.le_refl _, Int.le_refl _⟩, ?_⟩
    rintro stack ⟨⟩
  · intro thread member stack isStack
    rw [List.mem_singleton.mp member] at isStack
    cases isStack

/-! ## Structures that reach into the stack -/

/-- The page after the structure of the main thread. -/
def freePage (structSize : Nat) (mainThread : Int) : Int :=
  ((mainThread + structSize) / 4096 + 1) * 4096

/-- Main creates a thread and hands over to it, and the thread writes to the
last byte of its stack. -/
def fillStack (structSize : Nat) (mainThread : Int) : List LayoutAction :=
  [.create (some (freePage structSize mainThread)) false (fun _ => 0),
    .schedule false (fun _ => 0),
    .write (freePage structSize mainThread + stackSize - uthreadTSize - 1) 1]

theorem fillStack_breaks {structSize : Nat} (large : uthreadTSize < structSize) (mainThread : Int)
    (contents : Int → Byte) : ∃ final,
      (layouts structSize mainThread contents).run (Layout.start structSize mainThread contents)
        (fillStack structSize mainThread) = some final ∧ ¬ Intact final := by
  have sizes : stackSize = 2048 ∧ uthreadTSize = 8 := ⟨rfl, rfl⟩
  unfold fillStack
  generalize isPage : freePage structSize mainThread = page
  have fresh : (Region.mk page stackSize).Apart ⟨mainThread, structSize⟩ := by
    unfold Region.Apart
    unfold freePage at isPage
    dsimp only
    omega
  have inStack : (Region.mk page (stackSize - uthreadTSize)).Has
      (page + stackSize - uthreadTSize - 1) := by
    unfold Region.Has
    dsimp only
    omega
  have inStruct : (placed structSize page).struct.Has (page + stackSize - uthreadTSize - 1) := by
    unfold Region.Has placed
    dsimp only
    omega
  generalize page + stackSize - uthreadTSize - 1 = top at inStack inStruct
  obtain ⟨created, isCreated, threads, current, running, wiped⟩ : ∃ created : Layout,
      (Layout.start structSize mainThread contents).step structSize
          (.create (some page) false fun _ => 0) = some created ∧
        created.threads = [⟨⟨mainThread, structSize⟩, none⟩, placed structSize page] ∧
        created.curThread = 0 ∧ created.exited = false ∧ created.stored top = 0 := by
    refine ⟨_, rfl, ?_⟩
    have isFree : (some page).filter (fun base =>
        ∀ block ∈ (Layout.start structSize mainThread contents).allocated,
          (Region.mk base stackSize).Apart block) = some page := by
      simp [Layout.start, fresh]
    simp only [Layout.uthreadCreate, isFree]
    refine ⟨rfl, rfl, rfl, ?_⟩
    exact if_pos inStruct
  obtain ⟨handed, isHanded, sameThreads, next, live, zero⟩ : ∃ handed : Layout,
      created.step structSize (.schedule false fun _ => 0) = some handed ∧
        handed.threads = created.threads ∧ handed.curThread = 1 ∧ handed.exited = false ∧
        handed.stored top = 0 := by
    simp only [Layout.step, Layout.schedule, running, current, threads]
    refine ⟨_, rfl, threads, rfl, running, ?_⟩
    simp only [Layout.store, wiped, ite_self]
  have isWritten : handed.step structSize (.write top 1) =
      some { handed with bytes := Function.update handed.bytes top 1 } := by
    simp only [Layout.step, Layout.write, live, next, sameThreads, threads]
    exact if_pos inStack
  refine ⟨{ handed with bytes := Function.update handed.bytes top 1 }, ?_, ?_⟩
  · simp only [System.run, layouts, isCreated, isHanded, isWritten]
  · intro intact
    have member : placed structSize page ∈ handed.threads := by
      simp [sameThreads, threads]
    have same : Function.update handed.bytes top 1 top = handed.stored top :=
      intact (placed structSize page) member top inStruct
    rw [Function.update_self, zero] at same
    cases same

/-- The structures are left alone in every run exactly when a structure is no
larger than the pointer whose size is taken off for it. -/
theorem structures_intact_iff (structSize : Nat) (mainThread : Int) (contents : Int → Byte) :
    (∀ actions, (layouts structSize mainThread contents).Always Intact
        (Layout.start structSize mainThread contents) actions) ↔
      (structSize : Int) ≤ uthreadTSize := by
  constructor
  · intro holds
    by_contra large
    obtain ⟨final, ran, broken⟩ := fillStack_breaks (Int.lt_of_not_ge large) mainThread contents
    have atEnd := (holds (fillStack structSize mainThread ++ [])).along _ [] ran
    exact broken atEnd
  · intro fits actions
    exact System.always_of_invariant Separate (start_separate structSize mainThread contents)
      (fun _ _ _ separate stepped => separate_step fits separate stepped)
      (fun _ separate => separate.intact) actions

/-- With structures of 984 bytes, a thread that fills its stack writes over its
own structure. -/
theorem stack_over_structure : ∃ final,
    (layouts 984 0 fun _ => 0).run (Layout.start 984 0 fun _ => 0) (fillStack 984 0) = some final ∧
      ¬ Intact final := by
  have large : uthreadTSize < (984 : Nat) := by decide
  exact fillStack_breaks large 0 fun _ => 0

end OsLabs.Uthread
