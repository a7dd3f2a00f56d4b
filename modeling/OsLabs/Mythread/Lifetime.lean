import Mathlib.Data.Fin.VecNotation
import Mathlib.Logic.Function.Basic
import OsLabs.Lib.Transition

/-!
# Threads made with clone

`my.c` of `part2`: `thread_function` and `mythread_join`, statement by
statement.  The structure of a thread lies in the mapping that is its stack, so
every statement of the child is an access to this mapping.  The futex word is
never anything but 0: the joiner's `FUTEX_WAIT` expects 1 and never sleeps, the
child's expects 0 and always does, and the joiner's `FUTEX_WAKE` has a count of
0, so that at most 0 waiters are woken.
`lifetime_iff` says which orders of the statements are safe nevertheless.
-/

set_option autoImplicit false

namespace OsLabs.Mythread

open OsLabs.Transition

/-- Where a child is in `thread_function`. -/
inductive Child where
  | notCreated
  | routine
  | setFinished
  | wake
  | testJoined
  | wait
  | asleep
  | returning
  | done
  deriving DecidableEq

/-- Where the thread that joins it is in `mythread_join`. -/
inductive Joiner where
  | testFinished
  | wait
  | asleep
  | setJoined
  | storeRetval
  | resetFutex
  | wake
  | unmap
  | returned
  deriving DecidableEq

variable {Value : Type}

/-- `thread_struct` and its mapping, the two control points, and what the
joiner's `*retval` was set to. -/
structure Thread (Value : Type) where
  child : Child
  joiner : Joiner
  retval : Value
  isFinished : Bool
  isJoined : Bool
  futex : Nat
  mapped : Bool
  stored : Option Value

/-- Before `mythread_create`. -/
def Thread.none (null : Value) : Thread Value where
  child := .notCreated
  joiner := .testFinished
  retval := null
  isFinished := false
  isJoined := false
  futex := 0
  mapped := false
  stored := Option.none

namespace Thread

/-- `mythread_create`, up to the start of the child by `clone`. -/
def mythreadCreate (t : Thread Value) (null : Value) : Thread Value :=
  { t with
    child := .routine
    retval := null
    isFinished := false
    isJoined := false
    futex := 0
    mapped := true }

/-- `FUTEX_WAKE`: at most so many of those asleep on the word. -/
def futexWake : Nat → Thread Value → Thread Value
  | 0, t => t
  | count + 1, t =>
      if t.joiner = .asleep then futexWake count { t with joiner := .testFinished }
      else if t.child = .asleep then futexWake count { t with child := .testJoined }
      else t

/-- One statement of `thread_function`; the start routine returns `value`. -/
def threadFunction (value : Value) (t : Thread Value) : Option (Thread Value) :=
  match t.child with
  | .notCreated | .asleep | .done => Option.none
  | .routine => some { t with retval := value, child := .setFinished }
  | .setFinished => some { t with isFinished := true, child := .wake }
  | .wake => some { t.futexWake 1 with child := .testJoined }
  | .testJoined => some { t with child := if t.isJoined then .returning else .wait }
  | .wait => some { t with child := if t.futex = 0 then .asleep else .testJoined }
  | .returning => some { t with child := .done }

/-- One statement of `mythread_join`.  What follows `munmap` touches nothing
shared. -/
def mythreadJoin (wantsRetval : Bool) (t : Thread Value) : Option (Thread Value) :=
  match t.joiner with
  | .testFinished => some { t with joiner := if t.isFinished then .setJoined else .wait }
  | .wait => some { t with joiner := if t.futex = 1 then .asleep else .testFinished }
  | .setJoined => some { t with isJoined := true, joiner := .storeRetval }
  | .storeRetval =>
      some { t with stored := if wantsRetval then some t.retval else t.stored, joiner := .resetFutex }
  | .resetFutex => some { t with futex := 0, joiner := .wake }
  | .wake => some { t.futexWake 0 with joiner := .unmap }
  | .unmap => some { t with mapped := false, joiner := .returned }
  | .asleep | .returned => Option.none

end Thread

/-- The threads of a process; an access to a mapping that is gone ends it. -/
structure State (n : Nat) (Value : Type) where
  thread : Fin n → Thread Value
  crashed : Bool

inductive Action (n : Nat) where
  | create (tid : Fin n)
  | child (tid : Fin n)
  | join (tid : Fin n)
  deriving DecidableEq

/-- What the start routines return, and which joins pass a `retval`. -/
structure Setup (n : Nat) (Value : Type) where
  null : Value
  routine : Fin n → Value
  wantsRetval : Fin n → Bool

variable {n : Nat}

namespace State

def start (setup : Setup n Value) : State n Value := ⟨fun _ => Thread.none setup.null, false⟩

/-- A statement that has accessed the structure of a thread. -/
def accesses (s : State n Value) (tid : Fin n) (after : Thread Value) : State n Value :=
  if (s.thread tid).mapped then { s with thread := Function.update s.thread tid after }
  else { s with crashed := true }

def step (setup : Setup n Value) (s : State n Value) (action : Action n) :
    Option (State n Value) :=
  if s.crashed then Option.none
  else
    match action with
    | .create tid =>
        if (s.thread tid).child = .notCreated then
          some { s with thread :=
            Function.update s.thread tid ((s.thread tid).mythreadCreate setup.null) }
        else Option.none
    | .child tid => ((s.thread tid).threadFunction (setup.routine tid)).map (s.accesses tid)
    | .join tid =>
        if (s.thread tid).child = .notCreated then Option.none
        else ((s.thread tid).mythreadJoin (setup.wantsRetval tid)).map (s.accesses tid)

end State

def mythreads (setup : Setup n Value) : System (State n Value) (Action n) :=
  ⟨State.start setup, State.step setup⟩

/-- What a join promises. -/
structure Lifetime (setup : Setup n Value) (s : State n Value) : Prop where
  quiet : ∀ tid, (s.thread tid).joiner = .returned → ∀ actions later,
    (mythreads setup).run s actions = some later → later.step setup (.child tid) = none
  value : ∀ tid value, (s.thread tid).stored = some value → value = setup.routine tid
  delivered : ∀ tid, (s.thread tid).joiner = .returned → setup.wantsRetval tid = true →
    (s.thread tid).stored = some (setup.routine tid)
  awake : ∀ tid, (s.thread tid).joiner = .returned → (s.thread tid).child ≠ .asleep

/-- A join unmaps the stack of a child that has returned. -/
def UnmapsReturned (s : State n Value) (action : Action n) : Prop :=
  ∀ tid, action = .join tid → (s.thread tid).joiner = .unmap → (s.thread tid).child = .done

/-! ## One thread -/

/-- `retval` holds the result of the start routine. -/
def Child.hasResult : Child → Bool
  | .notCreated | .routine => false
  | _ => true

/-- `is_finished` may be set. -/
def Child.isOver : Child → Bool
  | .notCreated | .routine | .setFinished => false
  | _ => true

/-- The joiner has seen `is_finished`. -/
def Joiner.hasSeen : Joiner → Bool
  | .testFinished | .wait | .asleep => false
  | _ => true

/-- The joiner is past the store to `*retval`. -/
def Joiner.hasStored : Joiner → Bool
  | .resetFutex | .wake | .unmap | .returned => true
  | _ => false

structure Thread.Sound (value : Value) (wantsRetval : Bool) (t : Thread Value) : Prop where
  idle : t.child = .notCreated → t.joiner = .testFinished ∧ t.isFinished = false
  result : t.child.hasResult = true → t.retval = value
  finished : t.isFinished = true → t.child.isOver = true
  seen : t.joiner.hasSeen = true → t.isFinished = true
  stored : ∀ other, t.stored = some other → other = value
  delivered : t.joiner.hasStored = true → wantsRetval = true → t.stored = some value
  mapped : t.child ≠ .notCreated → t.joiner ≠ .returned → t.mapped = true
  ended : t.joiner = .returned → t.child = .done

section Sound

variable {value : Value} {wantsRetval : Bool} {t next : Thread Value}

theorem Thread.Sound.creates (sound : t.Sound value wantsRetval) (fresh : t.child = .notCreated)
    (null : Value) : (t.mythreadCreate null).Sound value wantsRetval := by
  obtain ⟨testing, _⟩ := sound.idle fresh
  exact {
    idle := fun again => by cases again
    result := fun again => by cases again
    finished := fun again => by cases again
    seen := fun again => by
      rw [Thread.mythreadCreate, testing] at again
      cases again
    stored := sound.stored
    delivered := sound.delivered
    mapped := fun _ _ => rfl
    ended := fun again => by
      rw [Thread.mythreadCreate, testing] at again
      cases again }

/-- The child goes on to another place, at most. -/
theorem Thread.Sound.child (sound : t.Sound value wantsRetval) (place : Child)
    (created : t.child ≠ .notCreated) (running : t.joiner ≠ .returned)
    (hasResult : t.child.hasResult = true) (isOver : t.child.isOver = true → place.isOver = true)
    (some_ : place ≠ .notCreated) :
    ({ t with child := place } : Thread Value).Sound value wantsRetval where
  idle none_ := absurd none_ some_
  result _ := sound.result hasResult
  finished isFinished := isOver (sound.finished isFinished)
  seen := sound.seen
  stored := sound.stored
  delivered := sound.delivered
  mapped _ := sound.mapped created
  ended returned := absurd returned running

/-- The joiner goes on to another place, at most. -/
theorem Thread.Sound.joiner (sound : t.Sound value wantsRetval) (place : Joiner)
    (created : t.child ≠ .notCreated) (running : t.joiner ≠ .returned)
    (seen : place.hasSeen = true → t.isFinished = true)
    (delivered : place.hasStored = true → wantsRetval = true → t.stored = some value)
    (some_ : place ≠ .returned) :
    ({ t with joiner := place } : Thread Value).Sound value wantsRetval where
  idle none_ := absurd none_ created
  result := sound.result
  finished := sound.finished
  seen := seen
  stored := sound.stored
  delivered := delivered
  mapped _ _ := sound.mapped created running
  ended returned := absurd returned some_

/-- `is_joined` and the futex decide where a thread goes, not what it may do. -/
theorem Thread.Sound.flags (sound : t.Sound value wantsRetval) (isJoined : Bool) (futex : Nat) :
    ({ t with isJoined := isJoined, futex := futex } : Thread Value).Sound value wantsRetval where
  idle := sound.idle
  result := sound.result
  finished := sound.finished
  seen := sound.seen
  stored := sound.stored
  delivered := sound.delivered
  mapped := sound.mapped
  ended := sound.ended

theorem futexWake_child (place : t.child = .wake) :
    t.futexWake 1 = if t.joiner = .asleep then { t with joiner := .testFinished } else t := by
  simp [Thread.futexWake, place]

theorem Thread.Sound.threadFunction (sound : t.Sound value wantsRetval)
    (stepped : t.threadFunction value = some next) :
    next.Sound value wantsRetval ∧ t.mapped = true := by
  have created : t.child ≠ .notCreated := by
    intro none_
    rw [Thread.threadFunction, none_] at stepped
    cases stepped
  have running : t.joiner ≠ .returned := by
    intro returned
    rw [Thread.threadFunction, sound.ended returned] at stepped
    cases stepped
  refine ⟨?_, sound.mapped created running⟩
  unfold Thread.threadFunction at stepped
  split at stepped
  · cases stepped
  · cases stepped
  · cases stepped
  · rename_i place
    cases stepped
    have unfinished : t.isFinished = false := by
      rw [Bool.eq_false_iff]
      intro isFinished
      have isOver := sound.finished isFinished
      rw [place] at isOver
      cases isOver
    exact {
      idle := fun none_ => by cases none_
      result := fun _ => rfl
      finished := fun isFinished => by
        rw [unfinished] at isFinished
        cases isFinished
      seen := sound.seen
      stored := sound.stored
      delivered := sound.delivered
      mapped := fun _ => sound.mapped created
      ended := fun returned => absurd returned running }
  · rename_i place
    cases stepped
    exact {
      idle := fun none_ => by cases none_
      result := fun _ => sound.result (by rw [place]; rfl)
      finished := fun _ => rfl
      seen := fun _ => rfl
      stored := sound.stored
      delivered := sound.delivered
      mapped := fun _ => sound.mapped created
      ended := fun returned => absurd returned running }
  · rename_i place
    cases stepped
    have woken : (t.futexWake 1).Sound value wantsRetval ∧ (t.futexWake 1).child = .wake ∧
        (t.futexWake 1).joiner ≠ .returned := by
      rw [futexWake_child place]
      split
      · exact ⟨sound.joiner .testFinished created running nofun nofun nofun, place, nofun⟩
      · exact ⟨sound, place, running⟩
    obtain ⟨wokenSound, wokenPlace, wokenRunning⟩ := woken
    exact wokenSound.child .testJoined (by rw [wokenPlace]; nofun) wokenRunning
      (by rw [wokenPlace]; rfl) (fun _ => rfl) nofun
  · rename_i place
    cases stepped
    refine sound.child _ created running (by rw [place]; rfl) ?_ ?_ <;> split <;> simp [Child.isOver]
  · rename_i place
    cases stepped
    refine sound.child _ created running (by rw [place]; rfl) ?_ ?_ <;> split <;> simp [Child.isOver]
  · rename_i place
    cases stepped
    exact sound.child .done created running (by rw [place]; rfl) (fun _ => rfl) nofun

theorem Thread.Sound.mythreadJoin (sound : t.Sound value wantsRetval)
    (created : t.child ≠ .notCreated) (guarded : t.joiner = .unmap → t.child = .done)
    (stepped : t.mythreadJoin wantsRetval = some next) :
    next.Sound value wantsRetval ∧ t.mapped = true := by
  have running : t.joiner ≠ .returned := by
    intro returned
    rw [Thread.mythreadJoin, returned] at stepped
    cases stepped
  refine ⟨?_, sound.mapped created running⟩
  have isFinished : t.joiner.hasSeen = true → t.isFinished = true := sound.seen
  unfold Thread.mythreadJoin at stepped
  split at stepped
  · rename_i place
    cases stepped
    refine sound.joiner _ created running ?_ ?_ ?_
    · split
      · intro _
        assumption
      · exact nofun
    · split <;> exact nofun
    · split <;> exact nofun
  · cases stepped
    refine sound.joiner _ created running ?_ ?_ ?_ <;> split <;> exact nofun
  · rename_i place
    cases stepped
    have seen := isFinished (by rw [place]; rfl)
    exact (sound.flags true t.futex).joiner .storeRetval created running (fun _ => seen) nofun nofun
  · rename_i place
    cases stepped
    have seen := isFinished (by rw [place]; rfl)
    have isResult : t.retval = value := by
      apply sound.result
      have isOver := sound.finished seen
      cases child : t.child <;> rw [child] at isOver <;> first | rfl | cases isOver
    exact {
      idle := fun none_ => absurd none_ created
      result := sound.result
      finished := sound.finished
      seen := fun _ => seen
      stored := fun other => by
        dsimp only
        split
        · intro isOther
          rw [isResult, Option.some.injEq] at isOther
          exact isOther.symm
        · exact sound.stored other
      delivered := fun _ wants => by
        dsimp only
        rw [if_pos wants, isResult]
      mapped := fun _ _ => sound.mapped created running
      ended := nofun }
  · rename_i place
    cases stepped
    have seen := isFinished (by rw [place]; rfl)
    have delivered := sound.delivered (by rw [place]; rfl)
    exact (sound.flags t.isJoined 0).joiner .wake created running (fun _ => seen)
      (fun _ => delivered) nofun
  · rename_i place
    cases stepped
    have seen := isFinished (by rw [place]; rfl)
    have delivered := sound.delivered (by rw [place]; rfl)
    exact sound.joiner .unmap created running (fun _ => seen) (fun _ => delivered) nofun
  · rename_i place
    cases stepped
    have seen := isFinished (by rw [place]; rfl)
    have delivered := sound.delivered (by rw [place]; rfl)
    exact {
      idle := fun none_ => absurd none_ created
      result := sound.result
      finished := sound.finished
      seen := fun _ => seen
      stored := sound.stored
      delivered := fun _ => delivered
      mapped := fun _ notReturned => absurd rfl notReturned
      ended := fun _ => guarded place }
  · cases stepped
  · cases stepped

end Sound

/-! ## Runs -/

structure Intact (setup : Setup n Value) (s : State n Value) : Prop where
  running : s.crashed = false
  sound : ∀ tid, (s.thread tid).Sound (setup.routine tid) (setup.wantsRetval tid)

section Runs

variable {setup : Setup n Value} {s next : State n Value}

theorem Intact.accesses (intact : Intact setup s) {tid : Fin n} {after : Thread Value}
    (sound : after.Sound (setup.routine tid) (setup.wantsRetval tid))
    (mapped : (s.thread tid).mapped = true) : Intact setup (s.accesses tid after) := by
  rw [State.accesses, if_pos mapped]
  refine ⟨intact.running, ?_⟩
  intro other
  by_cases here : other = tid
  · subst here
    simpa using sound
  · simpa [Function.update_of_ne here] using intact.sound other

theorem intact_step {action : Action n} (intact : Intact setup s)
    (guarded : UnmapsReturned s action) (stepped : s.step setup action = some next) :
    Intact setup next := by
  simp only [State.step, intact.running, Bool.false_eq_true, if_false] at stepped
  cases action with
  | create tid =>
      dsimp only at stepped
      split at stepped
      · rename_i fresh
        cases stepped
        refine ⟨rfl, ?_⟩
        intro other
        by_cases here : other = tid
        · subst here
          simpa using (intact.sound other).creates fresh setup.null
        · simpa [Function.update_of_ne here] using intact.sound other
      · cases stepped
  | child tid =>
      obtain ⟨after, moved, rfl⟩ := Option.map_eq_some_iff.mp stepped
      obtain ⟨sound, mapped⟩ := (intact.sound tid).threadFunction moved
      exact intact.accesses sound mapped
  | join tid =>
      dsimp only at stepped
      split at stepped
      · cases stepped
      · rename_i created
        obtain ⟨after, moved, rfl⟩ := Option.map_eq_some_iff.mp stepped
        obtain ⟨sound, mapped⟩ := (intact.sound tid).mythreadJoin created (guarded tid rfl) moved
        exact intact.accesses sound mapped

theorem mythreadJoin_child {wantsRetval : Bool} {t after : Thread Value}
    (moved : t.mythreadJoin wantsRetval = some after) : after.child = t.child := by
  unfold Thread.mythreadJoin at moved
  split at moved <;> cases moved <;> rfl

/-- A child that has returned stays where it is. -/
theorem done_stays {action : Action n} {tid : Fin n} (done : (s.thread tid).child = .done)
    (stepped : s.step setup action = some next) : (next.thread tid).child = .done := by
  have accessed : ∀ other after, (other = tid → after.child = .done) →
      ((s.accesses other after).thread tid).child = .done := by
    intro other after same
    unfold State.accesses
    split
    · by_cases here : tid = other
      · subst here
        simpa using same rfl
      · simpa [Function.update_of_ne here] using done
    · exact done
  unfold State.step at stepped
  split at stepped
  · cases stepped
  cases action with
  | create other =>
      dsimp only at stepped
      split at stepped
      · rename_i fresh
        cases stepped
        have different : tid ≠ other := by
          intro same
          subst same
          rw [done] at fresh
          cases fresh
        simpa [Function.update_of_ne different] using done
      · cases stepped
  | child other =>
      obtain ⟨after, moved, rfl⟩ := Option.map_eq_some_iff.mp stepped
      apply accessed
      intro same
      subst same
      rw [Thread.threadFunction, done] at moved
      cases moved
  | join other =>
      dsimp only at stepped
      split at stepped
      · cases stepped
      · obtain ⟨after, moved, rfl⟩ := Option.map_eq_some_iff.mp stepped
        apply accessed
        intro same
        subst same
        rw [mythreadJoin_child moved, done]

theorem Intact.lifetime (intact : Intact setup s) : Lifetime setup s where
  quiet tid returned actions later ran := by
    have done := System.run_invariant (S := mythreads setup)
      (fun reached => (reached.thread tid).child = .done)
      (fun _ _ _ done stepped => done_stays done stepped) s later actions
      ((intact.sound tid).ended returned) ran
    simp [State.step, Thread.threadFunction, done]
  value tid := (intact.sound tid).stored
  delivered tid returned := (intact.sound tid).delivered (by rw [returned]; rfl)
  awake tid returned asleep := by
    rw [(intact.sound tid).ended returned] at asleep
    cases asleep

/-- A child that has not returned when its stack goes is asleep for ever, or
goes on. -/
theorem unmaps_returned {action : Action n} (intact : Intact setup s)
    (stepped : s.step setup action = some next) (lifetime : Lifetime setup next) :
    UnmapsReturned s action := by
  rintro tid rfl place
  simp only [State.step, intact.running, Bool.false_eq_true, if_false] at stepped
  split at stepped
  · cases stepped
  rename_i created
  have mapped := (intact.sound tid).mapped created (by rw [place]; nofun)
  simp only [Thread.mythreadJoin, place, Option.map_some, State.accesses, mapped, if_true,
    Option.some.injEq] at stepped
  subst stepped
  have returned := lifetime.quiet tid (by simp) [] _ rfl
  have awake := lifetime.awake tid (by simp)
  simp only [Function.update_self] at awake
  simp only [State.step, intact.running, Bool.false_eq_true, if_false, Function.update_self,
    Option.map_eq_none_iff, Thread.threadFunction] at returned
  cases child : (s.thread tid).child with
  | done => rfl
  | notCreated => exact absurd child created
  | asleep => exact absurd child awake
  | routine | setFinished | wake | testJoined | wait | returning =>
      rw [child] at returned
      cases returned

theorem start_intact (setup : Setup n Value) : Intact setup (State.start setup) where
  running := rfl
  sound _ := {
    idle := fun _ => ⟨rfl, rfl⟩
    result := nofun
    finished := nofun
    seen := nofun
    stored := nofun
    delivered := nofun
    mapped := fun created => absurd rfl created
    ended := nofun }

/-- The futex is 0, and the joiner does not sleep on it. -/
def Thread.Spins (t : Thread Value) : Prop := t.futex = 0 ∧ t.joiner ≠ .asleep

theorem Thread.Spins.futexWake {t : Thread Value} (spins : t.Spins) (count : Nat) :
    (t.futexWake count).Spins := by
  induction count generalizing t with
  | zero => exact spins
  | succ count ih =>
      rw [Thread.futexWake, if_neg spins.2]
      split
      · exact ih spins
      · exact spins

theorem Thread.Spins.threadFunction {value : Value} {t after : Thread Value} (spins : t.Spins)
    (moved : t.threadFunction value = some after) : after.Spins := by
  have woken := spins.futexWake 1
  unfold Thread.threadFunction at moved
  split at moved <;> cases moved
  case h_6 => exact woken
  all_goals exact spins

theorem Thread.Spins.mythreadJoin {wantsRetval : Bool} {t after : Thread Value} (spins : t.Spins)
    (moved : t.mythreadJoin wantsRetval = some after) : after.Spins := by
  obtain ⟨futex, _⟩ := spins
  unfold Thread.mythreadJoin at moved
  split at moved <;> cases moved
  case h_1 =>
    refine ⟨futex, ?_⟩
    dsimp only
    split <;> simp
  case h_2 =>
    refine ⟨futex, ?_⟩
    rw [futex]
    simp
  case h_5 => exact ⟨rfl, by simp⟩
  all_goals exact ⟨futex, by simp⟩

/-- Only a child ever sleeps on a futex. -/
theorem reachable_spins (reachable : (mythreads setup).Reachable s) (tid : Fin n) :
    (s.thread tid).Spins := by
  apply reachable.invariant (fun reached => ∀ tid, (reached.thread tid).Spins)
    (fun _ => ⟨rfl, by simp [mythreads, State.start, Thread.none]⟩)
  intro reached action next spins stepped
  have updated : ∀ (other : Fin n) after, after.Spins →
      ∀ tid, (Function.update reached.thread other after tid).Spins := by
    intro other after sound tid
    by_cases here : tid = other
    · subst here
      simpa using sound
    · simpa [Function.update_of_ne here] using spins tid
  have accessed : ∀ (other : Fin n) after, after.Spins →
      ∀ tid, ((reached.accesses other after).thread tid).Spins := by
    intro other after sound
    unfold State.accesses
    split
    · exact updated other after sound
    · exact spins
  change reached.step setup action = some next at stepped
  unfold State.step at stepped
  split at stepped
  · cases stepped
  cases action with
  | create other =>
      dsimp only at stepped
      split at stepped
      · cases stepped
        exact updated other _ ⟨rfl, (spins other).2⟩
      · cases stepped
  | child other =>
      obtain ⟨after, moved, rfl⟩ := Option.map_eq_some_iff.mp stepped
      exact accessed other after ((spins other).threadFunction moved)
  | join other =>
      dsimp only at stepped
      split at stepped
      · cases stepped
      · obtain ⟨after, moved, rfl⟩ := Option.map_eq_some_iff.mp stepped
        exact accessed other after ((spins other).mythreadJoin moved)

end Runs

/-- In every run, joins keep their promises throughout exactly when each of
them unmaps the stack of a child that has returned. -/
theorem lifetime_iff (setup : Setup n Value) (actions : List (Action n)) :
    (mythreads setup).Always (Lifetime setup) (State.start setup) actions ↔
      (mythreads setup).Meets UnmapsReturned (State.start setup) actions :=
  System.always_iff_meets UnmapsReturned (Intact setup) (Lifetime setup)
    (fun _ intact => intact.lifetime)
    (fun _ _ _ intact guarded stepped => intact_step intact guarded stepped)
    (fun _ _ _ intact stepped lifetime => unmaps_returned intact stepped lifetime)
    (State.start setup) actions (start_intact setup)

/-- The child is interrupted behind `is_finished = 1`. -/
def childInterrupted (tid : Fin n) : List (Action n) :=
  .create tid :: List.replicate 2 (.child tid)

/-- The child runs up to its futex. -/
def childFirst (tid : Fin n) : List (Action n) := .create tid :: List.replicate 5 (.child tid)

/-- `mythread_join` of a thread that has finished. -/
def wholeJoin (tid : Fin n) : List (Action n) := List.replicate 6 (.join tid)

def oneThread : Setup 1 Nat := ⟨0, fun _ => 7, fun _ => true⟩

/-- A child that goes on behind `is_finished = 1` reads a stack that is gone;
one that is asleep already is left asleep on a futex that is unmapped. -/
theorem joined_early :
    (¬ (mythreads oneThread).Always (Lifetime oneThread) (State.start oneThread)
        (childInterrupted 0 ++ wholeJoin 0) ∧
      ∃ joined final, (mythreads oneThread).run (State.start oneThread)
          (childInterrupted 0 ++ wholeJoin 0) = some joined ∧
        (joined.thread 0).joiner = .returned ∧
        joined.step oneThread (.child 0) = some final ∧ final.crashed = true) ∧
    ¬ (mythreads oneThread).Always (Lifetime oneThread) (State.start oneThread)
        (childFirst 0 ++ wholeJoin 0) ∧
      ∃ final, (mythreads oneThread).run (State.start oneThread) (childFirst 0 ++ wholeJoin 0)
          = some final ∧
        (final.thread 0).joiner = .returned ∧ (final.thread 0).child = .asleep := by
  have unmapped : ∃ joined final, (mythreads oneThread).run (State.start oneThread)
      (childInterrupted 0 ++ wholeJoin 0) = some joined ∧
      (joined.thread 0).joiner = .returned ∧
      joined.step oneThread (.child 0) = some final ∧ final.crashed = true :=
    ⟨_, _, rfl, rfl, rfl, rfl⟩
  have left : ∃ final, (mythreads oneThread).run (State.start oneThread)
      (childFirst 0 ++ wholeJoin 0) = some final ∧
      (final.thread 0).joiner = .returned ∧ (final.thread 0).child = .asleep := ⟨_, rfl, rfl, rfl⟩
  refine ⟨⟨?_, unmapped⟩, ?_, left⟩
  · obtain ⟨joined, final, ran, returned, goesOn, _⟩ := unmapped
    intro holds
    rw [← List.append_nil (childInterrupted 0 ++ wholeJoin 0)] at holds
    have lifetime := holds.along (childInterrupted 0 ++ wholeJoin 0) [] ran
    have stopped := lifetime.quiet 0 returned [] joined rfl
    rw [goesOn] at stopped
    cases stopped
  · obtain ⟨final, ran, returned, asleep⟩ := left
    intro holds
    rw [← List.append_nil (childFirst 0 ++ wholeJoin 0)] at holds
    have lifetime := holds.along (childFirst 0 ++ wholeJoin 0) [] ran
    exact lifetime.awake 0 returned asleep

end OsLabs.Mythread
