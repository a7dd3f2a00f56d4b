import Mathlib.Algebra.BigOperators.Ring.Finset
import OsLabs.Castom.SpinLock

/-!
# The rounds of `thread_func`

What the threads of `main.c` compute, with the mutex that they use and with the
spin lock of the commented lines.  A step of a thread that waits aside, every
step uses up one of the steps of a round, so a run has no more of them than the
rounds have; when all are used up the threads have returned and the counter
that `main` prints is the number of rounds.
-/

set_option autoImplicit false

namespace OsLabs.Castom

open OsLabs.Counting OsLabs.Transition

variable {n : Nat} {Place : Type}

/-- How the places in the code of a lock stand to the rounds of `thread_func`. -/
structure Places (Place : Type) where
  /-- Between the call that locks and the call that unlocks. -/
  inRound : Place → Bool
  /-- In a critical section that is not left yet. -/
  begun : Place → Bool
  /-- A thread of `thread_func` can be here. -/
  proper : Place → Bool
  /-- The steps left of the call, without waiting. -/
  stepsLeft : Place → Nat
  callSteps : Call → Nat

theorem count_threadFunc (rounds : Nat) : (threadFunc rounds).count .lock = rounds := by
  induction rounds with
  | zero => rfl
  | succ rounds ih => simp [threadFunc, ih]

theorem sum_threadFunc (cost : Call → Nat) (rounds : Nat) :
    ((threadFunc rounds).map cost).sum = (cost .lock + cost .unlock) * rounds := by
  induction rounds with
  | zero => rfl
  | succ rounds ih =>
      simp only [threadFunc, List.map_cons, List.sum_cons, ih, Nat.mul_succ]
      omega

namespace Places

variable (places : Places Place)

/-- The critical sections that a thread has still to leave. -/
def sections (place : Place) (todo : List Call) : Nat :=
  todo.count .lock + (places.begun place).toNat

def threadWork (place : Place) (todo : List Call) : Nat :=
  places.stepsLeft place + (todo.map places.callSteps).sum

/-- The steps that all the threads have still to take. -/
def work (pc : Fin n → Place) (todo : Fin n → List Call) : Nat :=
  ∑ thread, places.threadWork (pc thread) (todo thread)

end Places

/-- Threads that go through their rounds. -/
structure Going (places : Places Place) (rounds : Fin n → Nat) (pc : Fin n → Place)
    (todo : Fin n → List Call) (completed : Nat) : Prop where
  proper : ∀ thread, places.proper (pc thread) = true
  calls : ∀ thread, ∃ left, todo thread = callsLeft (places.inRound (pc thread)) left
  total : completed + ∑ thread, places.sections (pc thread) (todo thread) =
    ∑ thread, rounds thread

section Going

variable {places : Places Place} {rounds : Fin n → Nat} {pc : Fin n → Place}
  {todo : Fin n → List Call} {completed : Nat}

/-- One thread moves, and may make its next call or leave its section. -/
theorem Going.changes (going : Going places rounds pc todo completed) (thread : Fin n)
    (place : Place) (rest : List Call) (proper : places.proper place = true)
    (calls : ∃ left, rest = callsLeft (places.inRound place) left) (left : Nat)
    (sameTotal : left + places.sections place rest =
      completed + places.sections (pc thread) (todo thread)) :
    Going places rounds (Function.update pc thread place) (Function.update todo thread rest)
      left where
  proper other := by
    by_cases here : other = thread
    · rw [here, Function.update_self]
      exact proper
    · rw [Function.update_of_ne here]
      exact going.proper other
  calls other := by
    by_cases here : other = thread
    · rw [here, Function.update_self, Function.update_self]
      exact calls
    · rw [Function.update_of_ne here, Function.update_of_ne here]
      exact going.calls other
  total := by
    have moved := sum_changed (fun other => places.sections (pc other) (todo other))
      (fun other => places.sections (Function.update pc thread place other)
        (Function.update todo thread rest other)) thread (by
        intro other elsewhere
        rw [Function.update_of_ne elsewhere, Function.update_of_ne elsewhere])
    have total := going.total
    simp only [Function.update_self] at moved
    omega

/-- One thread moves within a call, and stays in its round or out of it. -/
theorem Going.moves (going : Going places rounds pc todo completed) (thread : Fin n)
    (place : Place) (proper : places.proper place = true)
    (sameRound : places.inRound place = places.inRound (pc thread)) (left : Nat)
    (sameTotal : left + (places.begun place).toNat =
      completed + (places.begun (pc thread)).toNat) :
    Going places rounds (Function.update pc thread place) todo left := by
  have changed := going.changes thread place (todo thread) proper
    (by rw [sameRound]; exact going.calls thread) left
    (by simp only [Places.sections]; omega)
  rwa [Function.update_eq_self] at changed

theorem work_changes (places : Places Place) (pc : Fin n → Place) (todo : Fin n → List Call)
    (thread : Fin n) (place : Place) (rest : List Call) :
    places.work (Function.update pc thread place) (Function.update todo thread rest) +
        places.threadWork (pc thread) (todo thread) =
      places.work pc todo + places.threadWork place rest := by
  have moved := sum_changed (fun other => places.threadWork (pc other) (todo other))
    (fun other => places.threadWork (Function.update pc thread place other)
      (Function.update todo thread rest other)) thread (by
      intro other elsewhere
      rw [Function.update_of_ne elsewhere, Function.update_of_ne elsewhere])
  simp only [Function.update_self] at moved
  exact moved

theorem work_moves (places : Places Place) (pc : Fin n → Place) (todo : Fin n → List Call)
    (thread : Fin n) (place : Place) :
    places.work (Function.update pc thread place) todo + places.stepsLeft (pc thread) =
      places.work pc todo + places.stepsLeft place := by
  have changed := work_changes places pc todo thread place (todo thread)
  rw [Function.update_eq_self] at changed
  simp only [Places.threadWork] at changed
  omega

/-- What a step within a call does to both accounts. -/
theorem Going.goes (going : Going places rounds pc todo completed) (thread : Fin n)
    (place : Place) (proper : places.proper place = true)
    (sameRound : places.inRound place = places.inRound (pc thread)) (left : Nat)
    (sameTotal : left + (places.begun place).toNat =
      completed + (places.begun (pc thread)).toNat) (cost : Nat)
    (used : places.stepsLeft place + cost = places.stepsLeft (pc thread)) :
    Going places rounds (Function.update pc thread place) todo left ∧
      places.work (Function.update pc thread place) todo + cost = places.work pc todo := by
  have moved := work_moves places pc todo thread place
  exact ⟨going.moves thread place proper sameRound left sameTotal, by omega⟩

/-- What the beginning of a call does to both accounts. -/
theorem Going.enters (going : Going places rounds pc todo completed) {thread : Fin n}
    {call : Call} {rest : List Call} (isNext : todo thread = call :: rest) (place : Place)
    (locks : call = .lock → places.inRound (pc thread) = false → places.proper place = true ∧
      places.inRound place = true ∧ places.begun place = true ∧
        places.begun (pc thread) = false)
    (unlocks : call = .unlock → places.inRound (pc thread) = true → places.proper place = true ∧
      places.inRound place = false ∧ places.begun place = places.begun (pc thread))
    (used : places.stepsLeft place + 1 = places.stepsLeft (pc thread) + places.callSteps call) :
    Going places rounds (Function.update pc thread place) (Function.update todo thread rest)
        completed ∧
      places.work (Function.update pc thread place) (Function.update todo thread rest) + 1 =
        places.work pc todo := by
  obtain ⟨left, isTodo⟩ := going.calls thread
  rw [isNext] at isTodo
  have counted : places.proper place = true ∧
      places.sections place rest = places.sections (pc thread) (todo thread) ∧
      ∃ left, rest = callsLeft (places.inRound place) left := by
    rcases callsLeft_next isTodo.symm with ⟨inRound, rfl, isRest⟩ | ⟨outside, rfl, fewer, isRest⟩
    · obtain ⟨proper, after, sameBegun⟩ := unlocks rfl inRound
      rw [after]
      exact ⟨proper, by simp [Places.sections, isNext, sameBegun], left, isRest⟩
    · obtain ⟨proper, after, isBegun, notBegun⟩ := locks rfl outside
      rw [after]
      exact ⟨proper, by simp [Places.sections, isNext, isBegun, notBegun], fewer, isRest⟩
  obtain ⟨proper, sameSections, calls⟩ := counted
  refine ⟨going.changes thread place rest proper calls completed (by rw [sameSections]), ?_⟩
  have moved := work_changes places pc todo thread place rest
  simp only [Places.threadWork, isNext, List.map_cons, List.sum_cons] at moved
  omega

/-- The threads have as much to do as their rounds take. -/
theorem start_work (places : Places Place) (rounds : Fin n → Nat) (place : Place)
    (idle : places.stepsLeft place = 0) :
    places.work (fun _ => place) (fun thread => threadFunc (rounds thread)) =
      (places.callSteps .lock + places.callSteps .unlock) * ∑ thread, rounds thread := by
  simp only [Places.work, Places.threadWork, idle, Nat.zero_add, sum_threadFunc]
  rw [Finset.mul_sum]

theorem start_going (places : Places Place) (rounds : Fin n → Nat) (place : Place)
    (proper : places.proper place = true) (outside : places.inRound place = false)
    (idle : places.begun place = false) :
    Going places rounds (fun _ => place) (fun thread => threadFunc (rounds thread)) 0 where
  proper _ := proper
  calls thread := ⟨rounds thread, by rw [outside]; rfl⟩
  total := by simp [Places.sections, idle, count_threadFunc]

/-- No work is left exactly when every thread is between calls with nothing more
to call. -/
theorem work_eq_zero_iff (places : Places Place) (pc : Fin n → Place) (todo : Fin n → List Call)
    (calls : ∀ call, places.callSteps call ≠ 0) :
    places.work pc todo = 0 ↔ ∀ thread, places.stepsLeft (pc thread) = 0 ∧ todo thread = [] := by
  rw [Places.work, Finset.sum_eq_zero_iff]
  constructor
  · intro nothing thread
    have here := nothing thread (Finset.mem_univ thread)
    rw [Places.threadWork, Nat.add_eq_zero_iff] at here
    refine ⟨here.1, ?_⟩
    cases isTodo : todo thread with
    | nil => rfl
    | cons call rest =>
        have noCall := here.2
        rw [isTodo, List.map_cons, List.sum_cons, Nat.add_eq_zero_iff] at noCall
        exact absurd noCall.1 (calls call)
  · intro nothing thread _
    rw [Places.threadWork, (nothing thread).1, (nothing thread).2]
    rfl

end Going

/-! ## With the mutex -/

namespace Pc

def begun : Pc → Bool
  | .ready holds | .readTid holds => holds
  | .futexWake => false
  | _ => true

/-- A thread of `thread_func` tries to lock what it does not hold, and unlocks
what it holds. -/
def proper : Pc → Bool
  | .testAndSet holds | .futexWait holds | .asleep holds => !holds
  | .readTid holds => holds
  | _ => true

def stepsLeft : Pc → Nat
  | .ready _ => 0
  | .testAndSet _ | .futexWait _ | .asleep _ | .readTid _ => 4
  | .writeTid | .clearTid => 3
  | .load | .clearFlag => 2
  | .store _ | .futexWake => 1

end Pc

def mutexPlaces : Places Pc := ⟨Pc.inRound, Pc.begun, Pc.proper, Pc.stepsLeft, fun _ => 5⟩

/-- The step neither goes on with a call nor begins one. -/
def waits (s : State n) (thread : Fin n) : Bool :=
  match s.pc thread with
  | .testAndSet _ => s.lock
  | .futexWait _ | .asleep _ => true
  | _ => false

structure InRounds (tids : Tids n) (rounds : Fin n → Nat) (s : State n) : Prop where
  running : s.aborted = false
  held : ∃ holder, Held tids s holder
  going : Going mutexPlaces rounds s.pc s.todo s.completed

def State.work (s : State n) : Nat := mutexPlaces.work s.pc s.todo

theorem start_inRounds (tids : Tids n) (rounds : Fin n → Nat) :
    InRounds tids rounds (State.start fun thread => threadFunc (rounds thread)) :=
  ⟨rfl, ⟨none, start_held tids _⟩, start_going mutexPlaces rounds _ rfl rfl rfl⟩

section Mutex

variable {tids : Tids n} {rounds : Fin n → Nat} {s next : State n} {action : Action n}

/-- `mutex_unlock` is called by the holder only, so it does not abort. -/
theorem InRounds.runs (inRounds : InRounds tids rounds s) (noError : action.err = false)
    (stepped : step tids s action = some next) : next.aborted = false := by
  obtain ⟨holder, held⟩ := inRounds.held
  have running := inRounds.running
  have checked : ∀ holds, s.pc action.thread = .readTid holds → s.tid = tids.tid action.thread := by
    intro holds here
    have proper := inRounds.going.proper action.thread
    rw [here] at proper
    exact (held.check here).mpr proper
  unfold step at stepped
  simp only [running, noError, Bool.false_eq_true, if_false] at stepped
  split at stepped
  · unfold callStep at stepped
    split at stepped
    · cases stepped
    · cases stepped
      exact running
  · split at stepped <;> cases stepped <;> exact running
  · split at stepped <;> cases stepped <;> exact running
  · cases stepped
    exact running
  · cases stepped
    exact running
  · cases stepped
    exact running
  · cases stepped
    exact running
  · rename_i holds here
    rw [if_neg (not_not.mpr (checked holds here))] at stepped
    cases stepped
    exact running
  · cases stepped
    exact running
  · cases stepped
    exact running
  · unfold wakeStep at stepped
    split at stepped
    · split at stepped
      · cases stepped
        exact running
      · cases stepped
    · split at stepped
      · cases stepped
        exact running
      · cases stepped

/-- A step keeps the accounts, and uses up a step unless it is one of waiting. -/
theorem InRounds.accounts (inRounds : InRounds tids rounds s) (noError : action.err = false)
    (stepped : step tids s action = some next) :
    InRounds tids rounds next ∧ next.work + (!waits s action.thread).toNat = s.work := by
  have running := inRounds.runs noError stepped
  have move := step_move stepped
  obtain ⟨holder, held⟩ := inRounds.held
  have going := inRounds.going
  have proper := going.proper action.thread
  suffices accounts : Going mutexPlaces rounds next.pc next.todo next.completed ∧
      next.work + (!waits s action.thread).toNat = s.work from
    ⟨⟨running, move_held held move, accounts.1⟩, accounts.2⟩
  cases move with
  | @calls holds call rest here isNext =>
      simp only [waits, here]
      refine going.enters isNext (call.entry holds) ?_ ?_ ?_
      · rintro rfl outside
        rw [here] at outside ⊢
        change holds = false at outside
        subst outside
        exact ⟨rfl, rfl, rfl, rfl⟩
      · rintro rfl inRound
        rw [here] at inRound ⊢
        change holds = true at inRound
        subst inRound
        exact ⟨rfl, rfl, rfl⟩
      · rw [here]
        cases call <;> rfl
  | @busy holds here taken =>
      rw [here] at proper
      simp only [waits, here, taken]
      exact going.goes action.thread (.futexWait holds) proper (by rw [here]; rfl) _
        (by rw [here]; rfl) 0 (by rw [here]; rfl)
  | takes here free =>
      simp only [waits, here, free]
      exact going.goes action.thread .writeTid rfl (by rw [here]; rfl) _ (by rw [here]; rfl) 1
        (by rw [here]; rfl)
  | @again holds here taken =>
      rw [here] at proper
      simp only [waits, here]
      exact going.goes action.thread (.testAndSet holds) proper (by rw [here]; rfl) _
        (by rw [here]; rfl) 0 (by rw [here]; rfl)
  | @sleeps holds here free =>
      rw [here] at proper
      simp only [waits, here]
      exact going.goes action.thread (.asleep holds) proper (by rw [here]; rfl) _
        (by rw [here]; rfl) 0 (by rw [here]; rfl)
  | @returns holds here =>
      rw [here] at proper
      simp only [waits, here]
      exact going.goes action.thread (.testAndSet holds) proper (by rw [here]; rfl) _
        (by rw [here]; rfl) 0 (by rw [here]; rfl)
  | writesTid here | loads here | stores here | clearsTid here | clearsFlag here
  | wakesNobody here nobody =>
      simp only [waits, here]
      exact going.goes action.thread _ rfl (by rw [here]; rfl) _ (by rw [here]; rfl) 1
        (by rw [here]; rfl)
  | @passes holds here isOwn =>
      rw [here] at proper
      change holds = true at proper
      subst proper
      simp only [waits, here]
      exact going.goes action.thread .clearTid rfl (by rw [here]; rfl) _ (by rw [here]; rfl) 1
        (by rw [here]; rfl)
  | @wakes other holds here asleep =>
      -- the woken thread tries again, which is no step of its own
      have proper := going.proper other
      rw [asleep] at proper
      obtain ⟨going, same⟩ := going.goes other (.testAndSet holds) proper (by rw [asleep]; rfl)
        s.completed (by rw [asleep]; rfl) 0 (by rw [asleep]; rfl)
      have different : action.thread ≠ other := by
        intro same
        rw [same, asleep] at here
        cases here
      have still : Function.update s.pc other (.testAndSet holds) action.thread = .futexWake := by
        rw [Function.update_of_ne different, here]
      have woke := going.goes action.thread (.ready false) rfl (by rw [still]; rfl) s.completed
        (by rw [still]; rfl) 1 (by rw [still]; rfl)
      simp only [waits, here]
      exact ⟨woke.1, woke.2.trans same⟩
  | aborts => cases running

/-- A thread that has not returned and does not wait can take its step. -/
theorem can_step (tids : Tids n) {thread : Fin n} (running : s.aborted = false)
    (notFinished : ¬ s.Finished thread) (going : waits s thread = false) :
    ∃ woken, (step tids s ⟨thread, false, woken⟩).isSome = true := by
  cases here : s.pc thread with
  | ready holds =>
      cases isTodo : s.todo thread with
      | nil => exact absurd ⟨⟨holds, here⟩, isTodo⟩ notFinished
      | cons call rest => exact ⟨none, by simp [step, running, here, callStep, isTodo]⟩
  | testAndSet holds =>
      have free : s.lock = false := by simpa [waits, here] using going
      exact ⟨none, by simp [step, running, here, free]⟩
  | futexWait holds | asleep holds => simp [waits, here] at going
  | writeTid | load | clearTid | clearFlag =>
      exact ⟨none, by simp [step, running, here]⟩
  | store value => exact ⟨none, by simp [step, running, here]⟩
  | readTid holds =>
      by_cases isOwn : s.tid = tids.tid thread
      · exact ⟨none, by simp [step, running, here, isOwn]⟩
      · exact ⟨none, by simp [step, running, here, isOwn]⟩
  | futexWake =>
      by_cases sleeps : ∃ other holds, s.pc other = .asleep holds
      · obtain ⟨other, holds, asleep⟩ := sleeps
        exact ⟨some other, by simp [step, running, here, wakeStep, asleep]⟩
      · have nobody : ∀ other, (s.pc other).isAsleep = false := by
          intro other
          cases place : s.pc other with
          | asleep holds => exact absurd ⟨other, holds, place⟩ sleeps
          | _ => rfl
        exact ⟨none, by simp [step, running, here, wakeStep, nobody]⟩

/-- The owner of the mutex neither waits nor has returned. -/
theorem InRounds.owner_goes (inRounds : InRounds tids rounds s) {thread : Fin n}
    (owns : (s.pc thread).owns = true) : ¬ s.Finished thread ∧ waits s thread = false := by
  have proper := inRounds.going.proper thread
  constructor
  · intro finished
    obtain ⟨⟨holds, here⟩, nothing⟩ := finished
    obtain ⟨left, isTodo⟩ := inRounds.going.calls thread
    rw [here] at owns isTodo
    change holds = true at owns
    subst owns
    rw [nothing] at isTodo
    cases isTodo
  · cases here : s.pc thread with
    | testAndSet holds | futexWait holds | asleep holds =>
        rw [here] at owns proper
        change holds = true at owns
        subst owns
        cases proper
    | _ => simp [waits, here]

/-- Where no step goes on with the rounds, the mutex is free, and who has not
returned sleeps or is about to. -/
theorem InRounds.progress (inRounds : InRounds tids rounds s) :
    (∃ action next, action.err = false ∧ waits s action.thread = false ∧
      step tids s action = some next) ∨
    s.lock = false ∧ ∀ thread, s.Finished thread ∨ s.Asleep thread ∨
      ∃ holds, s.pc thread = .futexWait holds := by
  by_cases somebody : ∃ thread, ¬ s.Finished thread ∧ waits s thread = false
  · obtain ⟨thread, notFinished, goes⟩ := somebody
    obtain ⟨woken, possible⟩ := can_step tids inRounds.running notFinished goes
    obtain ⟨next, stepped⟩ := Option.isSome_iff_exists.mp possible
    exact Or.inl ⟨⟨thread, false, woken⟩, next, rfl, goes, stepped⟩
  · right
    obtain ⟨holder, held⟩ := inRounds.held
    have free : s.lock = false := by
      rw [held.lock]
      cases holder with
      | none => rfl
      | some thread =>
          exact absurd ⟨thread, inRounds.owner_goes ((held.guarded.owner thread).mpr rfl)⟩ somebody
    refine ⟨free, fun thread => ?_⟩
    by_cases finished : s.Finished thread
    · exact Or.inl finished
    · have waiting : waits s thread = true := by
        by_contra goes
        exact somebody ⟨thread, finished, by simpa using goes⟩
      cases here : s.pc thread with
      | futexWait holds => exact Or.inr (Or.inr ⟨holds, rfl⟩)
      | asleep holds => exact Or.inr (Or.inl ⟨holds, here⟩)
      | testAndSet holds => simp [waits, here, free] at waiting
      | _ => simp [waits, here] at waiting

/-- No work is left exactly when every thread has returned. -/
theorem State.work_eq_zero_iff (s : State n) :
    s.work = 0 ↔ ∀ thread, s.Finished thread := by
  rw [State.work, Castom.work_eq_zero_iff mutexPlaces s.pc s.todo (fun _ => Nat.succ_ne_zero 4)]
  refine forall_congr' fun thread => and_congr_left fun _ => ?_
  cases here : s.pc thread <;> simp [mutexPlaces, Pc.stepsLeft]

/-- When every thread has returned the counter is the number of rounds. -/
theorem InRounds.finished (inRounds : InRounds tids rounds s)
    (finished : ∀ thread, s.Finished thread) :
    s.sharedCounter = ∑ thread, rounds thread ∧ s.lock = false ∧ s.tid = 0 := by
  obtain ⟨holder, held⟩ := inRounds.held
  have nobody : ∀ thread, (s.pc thread).owns = false := by
    intro thread
    rw [Bool.eq_false_iff]
    intro owns
    exact absurd (finished thread) (inRounds.owner_goes owns).1
  obtain ⟨rfl, counter⟩ := held.guarded.counter_eq_of_nobody nobody
  have nothing : ∀ thread, mutexPlaces.sections (s.pc thread) (s.todo thread) = 0 := by
    intro thread
    obtain ⟨⟨holds, here⟩, isTodo⟩ := finished thread
    have notOwner := nobody thread
    rw [here] at notOwner
    rw [here, isTodo]
    change holds = false at notOwner
    subst notOwner
    rfl
  have total := inRounds.going.total
  simp only [nothing, Finset.sum_const_zero, Nat.add_zero] at total
  rw [counter, total]
  exact ⟨rfl, held.lock, held.tid⟩

end Mutex

/-- The threads of `thread_func` on the mutex, in every run without a failing
futex call: the check of `mutex_unlock` never aborts; each round takes ten steps
apart from waiting; when all have been taken the threads have returned and the
counter is the number of rounds; and until then some thread goes on, unless all
that have not returned sleep, or are about to, with the mutex free. -/
theorem counting_rounds (tids : Tids n) (rounds : Fin n → Nat) (actions : List (Action n))
    (s : State n)
    (ran : (counting tids rounds).run (State.start fun thread => threadFunc (rounds thread))
      actions = some s) :
    let taken := (counting tids rounds).steps (fun s action => !waits s action.thread)
      (State.start fun thread => threadFunc (rounds thread)) actions
    s.aborted = false ∧ taken ≤ 10 * ∑ thread, rounds thread ∧
      (taken = 10 * ∑ thread, rounds thread ↔ ∀ thread, s.Finished thread) ∧
      ((∀ thread, s.Finished thread) →
        s.sharedCounter = ∑ thread, rounds thread ∧ s.lock = false ∧ s.tid = 0) ∧
      ((∃ action next, waits s action.thread = false ∧
          (counting tids rounds).step s action = some next) ∨
        s.lock = false ∧ ∀ thread, s.Finished thread ∨ s.Asleep thread ∨
          ∃ holds, s.pc thread = .futexWait holds) := by
  intro taken
  have preserved : ∀ state action next, InRounds tids rounds state →
      (counting tids rounds).step state action = some next → InRounds tids rounds next ∧
        next.work + (!waits state action.thread).toNat = state.work := by
    intro state action next inRounds stepped
    obtain ⟨allowed, stepped⟩ := System.restrict_step _ _ _ _ _ stepped
    exact inRounds.accounts (by simpa using allowed) stepped
  have inRounds : InRounds tids rounds s :=
    System.run_invariant (InRounds tids rounds)
      (fun state action next holds stepped => (preserved state action next holds stepped).1)
      _ s actions (start_inRounds tids rounds) ran
  have spent : taken + s.work = 10 * ∑ thread, rounds thread := by
    have all := System.steps_add_work _ State.work (InRounds tids rounds)
      (fun state action next holds stepped => (preserved state action next holds stepped).1)
      (fun state action next holds stepped => (preserved state action next holds stepped).2)
      _ s actions (start_inRounds tids rounds) ran
    exact all.trans (start_work mutexPlaces rounds (.ready false) rfl)
  refine ⟨inRounds.running, by omega, ?_, inRounds.finished, ?_⟩
  · rw [← s.work_eq_zero_iff]
    omega
  · rcases inRounds.progress with ⟨action, next, noError, goes, stepped⟩ | stuck
    · refine Or.inl ⟨action, next, goes, ?_⟩
      simp [counting, System.restrict, mutexThreads, noError, stepped]
    · exact Or.inr stuck

/-- One round each, one thread after the other. -/
theorem both_counted :
    ∃ s, (counting twoTids fun _ => 1).run (State.start fun _ => threadFunc 1)
        (List.replicate 10 ⟨0, false, none⟩ ++ List.replicate 10 ⟨1, false, none⟩) = some s ∧
      s.sharedCounter = 2 ∧ s.aborted = false := by
  refine ⟨_, rfl, ?_⟩
  obtain ⟨running, -, -, counted, -⟩ := counting_rounds twoTids (fun _ => 1)
    (List.replicate 10 ⟨0, false, none⟩ ++ List.replicate 10 ⟨1, false, none⟩) _ rfl
  refine ⟨(counted ?_).1.trans rfl, running⟩
  intro thread
  match thread with
  | 0 => exact ⟨⟨false, rfl⟩, rfl⟩
  | 1 => exact ⟨⟨false, rfl⟩, rfl⟩

/-! ## With the spin lock -/

namespace Spin

namespace Pc

def inRound : Pc → Bool
  | .ready holds => holds
  | .testAndSet _ | .schedYield _ | .load | .store _ => true
  | .clear _ => false

def begun : Pc → Bool
  | .ready holds | .clear holds => holds
  | _ => true

def proper : Pc → Bool
  | .testAndSet holds | .schedYield holds => !holds
  | .clear holds => holds
  | _ => true

def stepsLeft : Pc → Nat
  | .ready _ => 0
  | .testAndSet _ | .schedYield _ => 3
  | .load => 2
  | .store _ | .clear _ => 1

end Pc

def spinPlaces : Places Pc where
  inRound := Pc.inRound
  begun := Pc.begun
  proper := Pc.proper
  stepsLeft := Pc.stepsLeft
  callSteps
    | .lock => 4
    | .unlock => 2

/-- A test-and-set of the flag while it is set, or the return of `sched_yield`. -/
def spins (s : State n) (thread : Fin n) : Bool :=
  match s.pc thread with
  | .testAndSet _ => s.lock
  | .schedYield _ => true
  | _ => false

/-- Every thread runs `thread_func`, with the spin lock. -/
def spinning (rounds : Fin n → Nat) : System (State n) (Fin n) :=
  spinThreads fun thread => threadFunc (rounds thread)

/-- `thread_func` has returned. -/
def State.Finished (s : State n) (thread : Fin n) : Prop :=
  (∃ holds, s.pc thread = .ready holds) ∧ s.todo thread = []

def State.work (s : State n) : Nat := spinPlaces.work s.pc s.todo

structure InRounds (rounds : Fin n → Nat) (s : State n) : Prop where
  held : ∃ holder, Held s holder
  going : Going spinPlaces rounds s.pc s.todo s.completed

section Spin

variable {rounds : Fin n → Nat} {s next : State n} {thread : Fin n}

theorem start_inRounds (rounds : Fin n → Nat) :
    InRounds rounds (State.start fun thread => threadFunc (rounds thread)) :=
  ⟨⟨none, start_held _⟩, start_going spinPlaces rounds _ rfl rfl rfl⟩

/-- A thread of `thread_func` unlocks what it holds. -/
theorem InRounds.clears (inRounds : InRounds rounds s) (thread : Fin n) : ClearsOwn s thread := by
  intro here
  have proper := inRounds.going.proper thread
  rw [here] at proper
  cases proper

/-- A step keeps the accounts, and uses up a step unless the thread spins. -/
theorem InRounds.accounts (inRounds : InRounds rounds s) (stepped : step s thread = some next) :
    InRounds rounds next ∧ next.work + (!spins s thread).toNat = s.work := by
  have move := step_move stepped
  obtain ⟨holder, held⟩ := inRounds.held
  have going := inRounds.going
  have proper := going.proper thread
  suffices accounts : Going spinPlaces rounds next.pc next.todo next.completed ∧
      next.work + (!spins s thread).toNat = s.work from
    ⟨⟨move_held held (inRounds.clears thread) move, accounts.1⟩, accounts.2⟩
  cases move with
  | @calls holds call rest here isNext =>
      simp only [spins, here]
      refine going.enters isNext (entry holds call) ?_ ?_ ?_
      · rintro rfl outside
        rw [here] at outside ⊢
        change holds = false at outside
        subst outside
        exact ⟨rfl, rfl, rfl, rfl⟩
      · rintro rfl inRound
        rw [here] at inRound ⊢
        change holds = true at inRound
        subst inRound
        exact ⟨rfl, rfl, rfl⟩
      · rw [here]
        cases call <;> rfl
  | @busy holds here taken =>
      rw [here] at proper
      simp only [spins, here, taken]
      exact going.goes thread (.schedYield holds) proper (by rw [here]; rfl) _
        (by rw [here]; rfl) 0 (by rw [here]; rfl)
  | takes here free =>
      simp only [spins, here, free]
      exact going.goes thread .load rfl (by rw [here]; rfl) _ (by rw [here]; rfl) 1
        (by rw [here]; rfl)
  | @yields holds here =>
      rw [here] at proper
      simp only [spins, here]
      exact going.goes thread (.testAndSet holds) proper (by rw [here]; rfl) _
        (by rw [here]; rfl) 0 (by rw [here]; rfl)
  | loads here | stores here =>
      simp only [spins, here]
      exact going.goes thread _ rfl (by rw [here]; rfl) _ (by rw [here]; rfl) 1
        (by rw [here]; rfl)
  | @clears holds here =>
      rw [here] at proper
      change holds = true at proper
      subst proper
      simp only [spins, here]
      exact going.goes thread (.ready false) rfl (by rw [here]; rfl) _ (by rw [here]; rfl) 1
        (by rw [here]; rfl)

/-- A thread that has not returned and does not spin can take its step. -/
theorem can_step (notFinished : ¬ s.Finished thread) (going : spins s thread = false) :
    (step s thread).isSome = true := by
  cases here : s.pc thread with
  | ready holds =>
      cases isTodo : s.todo thread with
      | nil => exact absurd ⟨⟨holds, here⟩, isTodo⟩ notFinished
      | cons call rest => simp [step, here, isTodo]
  | testAndSet holds =>
      have free : s.lock = false := by simpa [spins, here] using going
      simp [step, here, free]
  | schedYield holds => simp [spins, here] at going
  | load | store value | clear holds => simp [step, here]

/-- The owner of the lock neither spins nor has returned. -/
theorem InRounds.owner_goes (inRounds : InRounds rounds s) (owns : (s.pc thread).owns = true) :
    ¬ s.Finished thread ∧ spins s thread = false := by
  have proper := inRounds.going.proper thread
  constructor
  · intro finished
    obtain ⟨⟨holds, here⟩, nothing⟩ := finished
    obtain ⟨left, isTodo⟩ := inRounds.going.calls thread
    rw [here] at owns isTodo
    change holds = true at owns
    subst owns
    rw [nothing] at isTodo
    cases isTodo
  · cases here : s.pc thread with
    | testAndSet holds | schedYield holds =>
        rw [here] at owns proper
        change holds = true at owns
        subst owns
        cases proper
    | _ => simp [spins, here]

theorem InRounds.goes (inRounds : InRounds rounds s) (notFinished : ¬ s.Finished thread)
    (going : spins s thread = false) :
    ∃ next, step s thread = some next ∧ InRounds rounds next ∧ next.work < s.work := by
  obtain ⟨next, stepped⟩ := Option.isSome_iff_exists.mp (can_step notFinished going)
  obtain ⟨after, used⟩ := inRounds.accounts stepped
  rw [going] at used
  exact ⟨next, stepped, after, by rw [← used]; simp⟩

/-- Until all have returned some thread goes on with its round, at the latest
after its return from `sched_yield`. -/
theorem InRounds.progress (inRounds : InRounds rounds s) (notFinished : ¬ s.Finished thread) :
    (spinning rounds).Can (fun next => InRounds rounds next ∧ next.work < s.work) s := by
  by_cases somebody : ∃ thread, ¬ s.Finished thread ∧ spins s thread = false
  · obtain ⟨other, otherLeft, going⟩ := somebody
    obtain ⟨next, stepped, after, less⟩ := inRounds.goes otherLeft going
    exact System.Can.step stepped (System.Can.now ⟨after, less⟩)
  · obtain ⟨holder, held⟩ := inRounds.held
    have free : s.lock = false := by
      rw [held.lock]
      cases holder with
      | none => rfl
      | some owner =>
          exact absurd ⟨owner, inRounds.owner_goes ((held.guarded.owner owner).mpr rfl)⟩ somebody
    have spinning : spins s thread = true := by
      by_contra going
      exact somebody ⟨thread, notFinished, by simpa using going⟩
    obtain ⟨holds, here⟩ : ∃ holds, s.pc thread = .schedYield holds := by
      cases here : s.pc thread with
      | schedYield holds => exact ⟨holds, rfl⟩
      | _ => simp [spins, here, free] at spinning
    have returned : step s thread = some (s.goto thread (.testAndSet holds)) := by
      simp [step, here]
    obtain ⟨between, same⟩ := inRounds.accounts returned
    have again : (s.goto thread (.testAndSet holds)).pc thread = .testAndSet holds := by
      simp [State.goto]
    have left : ¬ (s.goto thread (.testAndSet holds)).Finished thread := by
      rintro ⟨⟨_, isReady⟩, -⟩
      rw [again] at isReady
      cases isReady
    obtain ⟨next, stepped, after, less⟩ :=
      between.goes left (by simp only [spins, again]; exact free)
    exact System.Can.step returned (System.Can.step stepped (System.Can.now ⟨after, by omega⟩))

/-- No work is left exactly when every thread has returned. -/
theorem State.work_eq_zero_iff (s : State n) : s.work = 0 ↔ ∀ thread, s.Finished thread := by
  rw [State.work, Castom.work_eq_zero_iff spinPlaces s.pc s.todo
    (by intro call; cases call <;> simp [spinPlaces])]
  refine forall_congr' fun thread => and_congr_left fun _ => ?_
  cases here : s.pc thread <;> simp [spinPlaces, Pc.stepsLeft]

/-- From everywhere the threads can come to their ends. -/
theorem InRounds.finishes (inRounds : InRounds rounds s) :
    (spinning rounds).Can (fun final => ∀ thread, final.Finished thread) s := by
  refine System.can_of_descent (fun work s => InRounds rounds s ∧ s.work = work) ?_ ⟨inRounds, rfl⟩
  rintro work s ⟨inRounds, rfl⟩
  by_cases finished : ∀ thread, s.Finished thread
  · exact System.Can.now (Or.inl finished)
  · rw [not_forall] at finished
    obtain ⟨thread, notFinished⟩ := finished
    refine (inRounds.progress notFinished).trans fun next after => ?_
    exact System.Can.now (Or.inr ⟨next.work, after.2, after.1, rfl⟩)

/-- When every thread has returned the counter is the number of rounds. -/
theorem InRounds.finished (inRounds : InRounds rounds s)
    (finished : ∀ thread, s.Finished thread) :
    s.sharedCounter = ∑ thread, rounds thread ∧ s.lock = false := by
  obtain ⟨holder, held⟩ := inRounds.held
  have nobody : ∀ thread, (s.pc thread).owns = false := by
    intro thread
    rw [Bool.eq_false_iff]
    intro owns
    exact absurd (finished thread) (inRounds.owner_goes owns).1
  obtain ⟨rfl, counter⟩ := held.guarded.counter_eq_of_nobody nobody
  have nothing : ∀ thread, spinPlaces.sections (s.pc thread) (s.todo thread) = 0 := by
    intro thread
    obtain ⟨⟨holds, here⟩, isTodo⟩ := finished thread
    have notOwner := nobody thread
    rw [here] at notOwner
    rw [here, isTodo]
    change holds = false at notOwner
    subst notOwner
    rfl
  have total := inRounds.going.total
  simp only [nothing, Finset.sum_const_zero, Nat.add_zero] at total
  rw [counter, total]
  exact ⟨rfl, held.lock⟩

end Spin

/-- The threads of `thread_func` on the spin lock, in every run: the lock
excludes; each round takes six steps apart from spinning; when all have been
taken the threads have returned and the counter is the number of rounds; and
from everywhere they can still get there. -/
theorem spinning_rounds (rounds : Fin n → Nat) (threads : List (Fin n)) (s : State n)
    (ran : (spinning rounds).run (State.start fun thread => threadFunc (rounds thread))
      threads = some s) :
    let taken := (spinning rounds).steps (fun s thread => !spins s thread)
      (State.start fun thread => threadFunc (rounds thread)) threads
    Excluded s ∧ taken ≤ 6 * ∑ thread, rounds thread ∧
      (taken = 6 * ∑ thread, rounds thread ↔ ∀ thread, s.Finished thread) ∧
      ((∀ thread, s.Finished thread) →
        s.sharedCounter = ∑ thread, rounds thread ∧ s.lock = false) ∧
      (spinning rounds).Can (fun final => ∀ thread, final.Finished thread) s := by
  intro taken
  have preserved : ∀ state thread next, InRounds rounds state →
      (spinning rounds).step state thread = some next → InRounds rounds next :=
    fun state thread next holds stepped => (holds.accounts stepped).1
  have inRounds : InRounds rounds s :=
    System.run_invariant (InRounds rounds) preserved _ s threads (start_inRounds rounds) ran
  have spent : taken + s.work = 6 * ∑ thread, rounds thread := by
    have all := System.steps_add_work _ State.work (InRounds rounds) preserved
      (fun state thread next holds stepped => (holds.accounts stepped).2)
      _ s threads (start_inRounds rounds) ran
    exact all.trans (start_work spinPlaces rounds (.ready false) rfl)
  obtain ⟨holder, held⟩ := inRounds.held
  refine ⟨held.excluded, by omega, ?_, inRounds.finished, inRounds.finishes⟩
  rw [← s.work_eq_zero_iff]
  omega

/-- The second thread spins while the first one is in its round. -/
theorem both_spun :
    ∃ s, (spinning fun _ => 1).run (State.start fun _ => threadFunc 1)
        ([0, 0, 1, 1, 1, 0, 0, 0, 0] ++ List.replicate 5 (1 : Fin 2)) = some s ∧
      s.sharedCounter = 2 := by
  refine ⟨_, rfl, ?_⟩
  obtain ⟨-, -, -, counted, -⟩ := spinning_rounds (fun _ => 1)
    ([0, 0, 1, 1, 1, 0, 0, 0, 0] ++ List.replicate 5 (1 : Fin 2)) _ rfl
  refine (counted ?_).1.trans rfl
  intro thread
  match thread with
  | 0 => exact ⟨⟨false, rfl⟩, rfl⟩
  | 1 => exact ⟨⟨false, rfl⟩, rfl⟩

end Spin

end OsLabs.Castom
