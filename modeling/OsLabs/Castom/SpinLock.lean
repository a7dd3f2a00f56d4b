import OsLabs.Castom.LostWakeup

/-!
# The spin lock

`spin_lock` and `spin_unlock` of `mysync.c`, one atomic operation a step, and
threads that call them in any order and increment a shared counter after each
`spin_lock`.  There is no owner on record: `spin_unlock` clears the flag
whoever calls it, so the lock excludes only as long as nobody clears the flag
of somebody else.  The threads of `thread_func` never do.
-/

set_option autoImplicit false

namespace OsLabs.Castom.Spin

open OsLabs.Counting OsLabs.Exclusive OsLabs.Transition

/-- Where a thread is.  `holds` records that it has set the flag and not cleared
it since; the program does not look at it. -/
inductive Pc where
  | ready (holds : Bool)
  | testAndSet (holds : Bool)
  | schedYield (holds : Bool)
  | load
  | store (value : Int)
  | clear (holds : Bool)
  deriving DecidableEq

namespace Pc

def owns : Pc → Bool
  | .ready holds | .testAndSet holds | .schedYield holds | .clear holds => holds
  | .load | .store _ => true

/-- The owner has incremented the counter. -/
def stored : Pc → Bool
  | .ready holds | .testAndSet holds | .schedYield holds | .clear holds => holds
  | .load | .store _ => false

/-- What the thread has loaded and is about to store, one more. -/
def loaded : Pc → Option Int
  | .store value => some value
  | _ => none

end Pc

/-- `spin_t`, the counter and the threads, each with the calls it has still to
make.  `completed` counts the critical sections that have been left. -/
structure State (n : Nat) where
  lock : Bool
  sharedCounter : Int
  pc : Fin n → Pc
  todo : Fin n → List Call
  completed : Nat

variable {n : Nat}

def State.goto (s : State n) (thread : Fin n) (pc : Pc) : State n :=
  { s with pc := Function.update s.pc thread pc }

def entry (holds : Bool) : Call → Pc
  | .lock => .testAndSet holds
  | .unlock => .clear holds

def step (s : State n) (thread : Fin n) : Option (State n) :=
  match s.pc thread with
  | .ready holds =>
      match s.todo thread with
      | [] => none
      | call :: rest =>
          some { s.goto thread (entry holds call) with todo := Function.update s.todo thread rest }
  | .testAndSet holds =>
      if s.lock then some (s.goto thread (.schedYield holds))
      else some { s.goto thread .load with lock := true }
  | .schedYield holds => some (s.goto thread (.testAndSet holds))
  | .load => some (s.goto thread (.store s.sharedCounter))
  | .store value => some { s.goto thread (.ready true) with sharedCounter := value + 1 }
  | .clear holds =>
      some { s.goto thread (.ready false) with
        lock := false, completed := s.completed + holds.toNat }

/-- After `spin_init`, with what each thread is going to call. -/
def State.start (script : Fin n → List Call) : State n where
  lock := false
  sharedCounter := 0
  pc := fun _ => .ready false
  todo := script
  completed := 0

def spinThreads (script : Fin n → List Call) : System (State n) (Fin n) :=
  ⟨State.start script, step⟩

/-! ## What a step can do -/

inductive Move (s : State n) (thread : Fin n) : State n → Prop where
  | calls {holds : Bool} {call : Call} {rest : List Call}
      (here : s.pc thread = .ready holds) (isNext : s.todo thread = call :: rest) :
      Move s thread
        { s.goto thread (entry holds call) with todo := Function.update s.todo thread rest }
  | busy {holds : Bool} (here : s.pc thread = .testAndSet holds) (taken : s.lock = true) :
      Move s thread (s.goto thread (.schedYield holds))
  | takes {holds : Bool} (here : s.pc thread = .testAndSet holds) (free : s.lock = false) :
      Move s thread { s.goto thread .load with lock := true }
  | yields {holds : Bool} (here : s.pc thread = .schedYield holds) :
      Move s thread (s.goto thread (.testAndSet holds))
  | loads (here : s.pc thread = .load) :
      Move s thread (s.goto thread (.store s.sharedCounter))
  | stores {value : Int} (here : s.pc thread = .store value) :
      Move s thread { s.goto thread (.ready true) with sharedCounter := value + 1 }
  | clears {holds : Bool} (here : s.pc thread = .clear holds) :
      Move s thread
        { s.goto thread (.ready false) with
          lock := false, completed := s.completed + holds.toNat }

theorem step_move {s next : State n} {thread : Fin n} (stepped : step s thread = some next) :
    Move s thread next := by
  unfold step at stepped
  split at stepped
  · rename_i here
    split at stepped
    · cases stepped
    · rename_i isNext
      cases stepped
      exact .calls here isNext
  · rename_i here
    split at stepped
    · rename_i taken
      cases stepped
      exact .busy here taken
    · rename_i free
      cases stepped
      exact .takes here (by simpa using free)
  · rename_i here
    cases stepped
    exact .yields here
  · rename_i here
    cases stepped
    exact .loads here
  · rename_i here
    cases stepped
    exact .stores here
  · rename_i here
    cases stepped
    exact .clears here

/-! ## The holder -/

structure Held (s : State n) (holder : Option (Fin n)) : Prop where
  guarded : Guarded Pc.owns Pc.stored Pc.loaded s.pc holder s.completed s.sharedCounter
  lock : s.lock = holder.isSome

/-- `spin_unlock` is called by the owner, or while nobody owns the lock. -/
def ClearsOwn (s : State n) (thread : Fin n) : Prop :=
  s.pc thread = .clear false → ∀ other, (s.pc other).owns = false

/-- The flag tells whether the lock is owned, it has one owner at a time, and
no increment is lost. -/
structure Excluded (s : State n) : Prop where
  flag : s.lock = true ↔ ∃ thread, (s.pc thread).owns = true
  one : ∀ first second, (s.pc first).owns = true → (s.pc second).owns = true → first = second
  counter : s.sharedCounter = s.completed + count Pc.stored s.pc

theorem stored_owns (pc : Pc) (stored : pc.stored = true) : pc.owns = true := by
  cases pc <;> simp_all [Pc.stored, Pc.owns]

theorem loaded_owns (pc : Pc) (value : Int) (loaded : pc.loaded = some value) :
    pc.owns = true := by
  cases pc with
  | store => rfl
  | _ => cases loaded

section Held

variable {s next : State n} {holder : Option (Fin n)} {thread : Fin n} {pc : Pc}

theorem Held.excluded (held : Held s holder) : Excluded s where
  flag := by
    rw [held.lock, Option.isSome_iff_exists]
    exact exists_congr fun thread => (held.guarded.owner thread).symm
  one _ _ := held.guarded.owner.unique
  counter := held.guarded.counter_eq_count stored_owns

/-- A step that changes nothing but the place of a thread. -/
theorem Held.moves (held : Held s holder) (sameOwns : pc.owns = (s.pc thread).owns)
    (sameStored : pc.stored = (s.pc thread).stored) (notLoads : pc.loaded = none) :
    Held (s.goto thread pc) holder :=
  ⟨held.guarded.moves sameOwns sameStored notLoads, held.lock⟩

/-- The holder goes on. -/
theorem Held.holds (held : Held s (some thread)) (owns : pc.owns = true)
    (isNext : next.pc = Function.update s.pc thread pc) (sameLock : next.lock = s.lock)
    (counter : next.sharedCounter = next.completed + (pc.stored.toNat : Nat))
    (loaded : ∀ value, pc.loaded = some value → value = next.sharedCounter) :
    Held next (some thread) := by
  refine ⟨?_, sameLock.trans held.lock⟩
  rw [isNext]
  exact held.guarded.holds loaded_owns owns counter loaded

end Held

theorem move_held {s next : State n} {thread : Fin n} {holder : Option (Fin n)}
    (held : Held s holder) (guarded : ClearsOwn s thread) (move : Move s thread next) :
    ∃ holder, Held next holder := by
  cases move with
  | @calls holds call rest here isNext =>
      have moved : Held (s.goto thread (entry holds call)) holder := by
        cases call with
        | lock | unlock => exact held.moves (by rw [here]; rfl) (by rw [here]; rfl) rfl
      exact ⟨holder, moved.guarded, moved.lock⟩
  | busy here taken | yields here =>
      exact ⟨holder, held.moves (by rw [here]; rfl) (by rw [here]; rfl) rfl⟩
  | takes here free =>
      have isNone : holder = none := by
        have isFree := held.lock
        rw [free] at isFree
        simpa using isFree.symm
      subst isNone
      exact ⟨_, held.guarded.takes rfl rfl rfl, rfl⟩
  | loads here =>
      obtain ⟨rfl, counted⟩ := held.guarded.at_holder here rfl
      refine ⟨_, held.holds rfl rfl rfl counted fun value isLoaded => ?_⟩
      exact (Option.some.inj isLoaded).symm
  | stores here =>
      obtain ⟨rfl, counted⟩ := held.guarded.at_holder here rfl
      have isCounter := held.guarded.loaded thread _ (by rw [here]; rfl)
      refine ⟨_, held.holds rfl rfl rfl ?_ (by simp [Pc.loaded])⟩
      simp only [Pc.stored, Bool.toNat_false, Bool.toNat_true, State.goto] at counted ⊢
      omega
  | @clears holds here =>
      cases holds with
      | true =>
          obtain ⟨rfl, -⟩ := held.guarded.at_holder here rfl
          exact ⟨none, held.guarded.gives rfl (by rw [here]; rfl) rfl, rfl⟩
      | false =>
          -- the flag was clear already
          obtain ⟨rfl, -⟩ := held.guarded.counter_eq_of_nobody (guarded here)
          have moved : Held (s.goto thread (.ready false)) none :=
            held.moves (by rw [here]; rfl) (by rw [here]; rfl) rfl
          exact ⟨none, moved.guarded, rfl⟩

theorem start_held (script : Fin n → List Call) : Held (State.start script) none :=
  ⟨Guarded.start rfl rfl, rfl⟩

/-- Clearing the flag of somebody else leaves an owner without a flag. -/
theorem excluded_clears {s next : State n} {thread : Fin n}
    (stepped : step s thread = some next) (excluded : Excluded next) : ClearsOwn s thread := by
  intro here other
  have isNext : next =
      { s.goto thread (.ready false) with lock := false, completed := s.completed } := by
    simpa [step, here] using stepped.symm
  rw [Bool.eq_false_iff]
  intro owns
  have elsewhere : other ≠ thread := by
    intro same
    rw [same, here] at owns
    cases owns
  have taken : next.lock = true := by
    refine excluded.flag.mpr ⟨other, ?_⟩
    simpa [isNext, State.goto, Function.update_of_ne elsewhere] using owns
  rw [isNext] at taken
  cases taken

/-- The lock excludes along a run, whatever the threads call, exactly when no
`spin_unlock` clears the flag of another thread. -/
theorem spin_excludes_iff (script : Fin n → List Call) (threads : List (Fin n)) :
    (spinThreads script).Always Excluded (State.start script) threads ↔
      (spinThreads script).Meets ClearsOwn (State.start script) threads := by
  refine System.always_iff_meets ClearsOwn (fun s => ∃ holder, Held s holder) Excluded ?_ ?_ ?_ _
    threads ⟨none, start_held script⟩
  · rintro s ⟨holder, held⟩
    exact held.excluded
  · rintro s thread next ⟨holder, held⟩ guarded stepped
    exact move_held held guarded (step_move stepped)
  · intro s thread next _ stepped excluded
    exact excluded_clears stepped excluded

end OsLabs.Castom.Spin
