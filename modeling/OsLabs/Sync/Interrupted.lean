import OsLabs.Sync.Linearizable
import Mathlib.Data.Fintype.EquivFin

/-!
# Interrupted waits of the semaphore queue

`sem_wait` may return -1 with `EINTR` and not have taken the semaphore.  None
of the three calls in `sem/queue.c` looks at its result: the thread goes on as
if it had the semaphore, and posts it at the end.  `exclusion_uninterrupted`
says that this is the only way to lose the exclusion, and that after it some
schedule does.
-/

set_option autoImplicit false

namespace OsLabs.Sync

open OsLabs.Transition

variable {n : Nat}

/-- A step of the program, or a `sem_wait` that a signal handler interrupts. -/
inductive SemAction (n : Nat) where
  | program (action : Action n)
  | interrupted (tid : Fin n)

def semStep (s : State n) : SemAction n → Option (State n)
  | .program action => threadStep (.trying .sem) s action
  | .interrupted tid =>
      if s.ended.isSome then none
      else
        match s.thread tid with
        | .acquiring call =>
            some { s.setThread tid (.inside call false (call.entry false)) with
              acquired := s.acquired ++ [(tid, call)] }
        | _ => none

def semQueue (n maxCount : Nat) : System (State n) (SemAction n) :=
  ⟨State.start (.trying .sem) n maxCount, semStep⟩

structure Exclusion (s : State n) : Prop where
  exclusive : ∀ first second, (s.thread first).owns = true → (s.thread second).owns = true →
    first = second
  value : ∀ value, s.lock = .sem value → value ≤ 1

/-- `sem_wait` returns 0. -/
def Uninterrupted (_ : State n) : SemAction n → Prop
  | .program _ => True
  | .interrupted _ => False

theorem exclusion_of_linear {maxCount : Nat} {s : State n} (linear : Linear .sem maxCount s) :
    Exclusion s := by
  obtain ⟨holder, held⟩ := linear.sections
  refine ⟨fun _ _ => linear.sections.exclusive, ?_⟩
  intro value isSem
  rw [held.lock] at isSem
  cases isSem
  show (if holder.isSome then 0 else 1) ≤ 1
  split <;> omega

theorem linear_uninterrupted {maxCount : Nat} {s next : State n} {action : SemAction n}
    (linear : Linear .sem maxCount s) (uninterrupted : Uninterrupted s action)
    (stepped : semStep s action = some next) : Linear .sem maxCount next := by
  cases action with
  | program action => exact linear_step linear stepped
  | interrupted tid => exact uninterrupted.elim

/-! ## After an interrupted wait -/

/-- The thread runs the statements of its pass. -/
theorem run_pass {block : Block} {point : Point} {q after : Queue} {outcome : Outcome}
    (leads : Leads block point q (.ok (outcome, after))) (maxCount : Nat) {tid : Fin n}
    {call : Call} {s : State n} (running : s.ended = none)
    (here : s.thread tid = .inside call false point) (sameQueue : s.queue = q) :
    ∃ steps final, (semQueue n maxCount).run s
        (List.replicate steps (.program (.statement tid block))) = some final ∧
      (∃ ret, final.thread tid = .releasing call ret) ∧ final.lock = s.lock ∧
      final.ended = none := by
  generalize isResult : (Except.ok (outcome, after) : Except Fault (Outcome × Queue)) = result
    at leads
  induction leads generalizing s with
  | fault ran => cases isResult
  | @blocked point q left ran =>
      rw [← sameQueue] at ran
      have stepped : (semQueue n maxCount).step s (.program (.statement tid block)) =
          some (((s.settled left).completes tid call (call.settle .blocked)).setThread tid
            (.releasing call (call.settle .blocked))) := by
        simp [semQueue, semStep, threadStep, stepStatement, running, here, ran]
      exact ⟨1, ((s.settled left).completes tid call (call.settle .blocked)).setThread tid
          (.releasing call (call.settle .blocked)),
        by simp only [List.replicate_one, System.run, stepped],
        ⟨_, Function.update_self tid _ _⟩, rfl, running⟩
  | @done point q left ret ran =>
      rw [← sameQueue] at ran
      have stepped : (semQueue n maxCount).step s (.program (.statement tid block)) =
          some (((s.settled left).completes tid call ret).setThread tid (.releasing call ret)) := by
        simp [semQueue, semStep, threadStep, stepStatement, running, here, ran,
          Variant.afterDone]
      exact ⟨1, ((s.settled left).completes tid call ret).setThread tid (.releasing call ret),
        by simp only [List.replicate_one, System.run, stepped],
        ⟨ret, Function.update_self tid _ _⟩, rfl, running⟩
  | @goto point next q left result ran rest ih =>
      rw [← sameQueue] at ran
      have stepped : (semQueue n maxCount).step s (.program (.statement tid block)) =
          some { s.setThread tid (.inside call false next) with queue := left } := by
        simp [semQueue, semStep, threadStep, stepStatement, running, here, ran]
      obtain ⟨steps, final, ranRest, releasing, sameLock, stillRunning⟩ :=
        ih (s := { s.setThread tid (.inside call false next) with queue := left }) running
          (Function.update_self tid _ _) rfl isResult
      refine ⟨steps + 1, final, ?_, releasing, sameLock, stillRunning⟩
      rw [List.replicate_succ, System.run, stepped]
      exact ranRest

/-- On the queue that the settled calls have left, a call ends when `malloc` finds a block. -/
theorem pass_succeeds {maxCount : Nat} {s : State n} (linear : Linear .sem maxCount s)
    (call : Call) :
    ∃ block outcome after, call.pass false block s.base = .ok (outcome, after) := by
  obtain ⟨addrs, buffer, represents⟩ := base_represents linear.sequential
  obtain ⟨new, unused⟩ := Infinite.exists_notMem_finset addrs.toFinset
  rw [List.mem_toFinset] at unused
  have asAttempt := pass_eq_attempt represents.shape represents.bounded false call
    (some (new, ⟨0, none⟩))
  have shape := represents.shape.counted_call false call
  rcases attempt_spec shape call (some (new, ⟨0, none⟩)) with
    ⟨_, _, _, noMemory, _⟩ | ⟨outcome, after, _, ran, _, _⟩
  · exact absurd (shape.owned new unused) (noMemory _ rfl)
  · exact ⟨_, outcome, after, asAttempt.trans ran⟩

/-- After an interrupted wait two threads are inside, or the thread alone posts
the semaphore to 2. -/
theorem interrupted_breaks {maxCount : Nat} {s next : State n} {tid : Fin n}
    (linear : Linear .sem maxCount s) (stepped : semStep s (.interrupted tid) = some next) :
    ∃ more : List (Action n),
      ¬ (semQueue n maxCount).Always Exclusion next (more.map .program) := by
  simp only [semStep] at stepped
  split at stepped
  · cases stepped
  rename_i running
  rw [Option.not_isSome_iff_eq_none] at running
  split at stepped
  · rename_i call here
    cases stepped
    obtain ⟨holder, held⟩ := linear.sections
    cases holder with
    | some other =>
        have elsewhere : other ≠ tid := by
          intro same
          subst same
          have owns := (held.owner other).mpr rfl
          rw [here] at owns
          cases owns
        refine ⟨[], ?_⟩
        intro excluded
        refine elsewhere (excluded.exclusive other tid ?_ ?_)
        · simp only [State.setThread, Function.update_of_ne elsewhere]
          exact (held.owner other).mpr rfl
        · simp only [State.setThread, Function.update_self]
          rfl
    | none =>
        obtain ⟨block, outcome, after, passed⟩ := pass_succeeds linear call
        have leads := leads_pass block s.queue call false
        rw [held.settled rfl, passed] at leads
        obtain ⟨steps, final, ran, ⟨ret, releasing⟩, sameLock, stillRunning⟩ :=
          run_pass leads maxCount (s := { s.setThread tid (.inside call false (call.entry false))
            with acquired := s.acquired ++ [(tid, call)] }) running
            (Function.update_self tid _ _) (held.settled rfl)
        refine ⟨List.replicate steps (.statement tid block) ++ [.release tid], ?_⟩
        intro excluded
        rw [List.map_append, List.map_replicate] at excluded
        have posted : (semQueue n maxCount).step final (.program (.release tid)) =
            some { final.setThread tid (.returning call ret) with
              lock := final.lock.release
              releases := Function.update final.releases tid (final.releases tid + 1) } := by
          simp [semQueue, semStep, threadStep, stillRunning, releasing]
        have two := ((excluded.after _ _ ran).2 _ posted).value 2 (by
          show final.lock.release = .sem 2
          rw [sameLock]
          show s.lock.release = .sem 2
          rw [held.lock]
          rfl)
        omega
  · cases stepped

/-- Without interrupted waits the exclusion holds in every run, and after an
interrupted wait there is a schedule that breaks it. -/
theorem exclusion_uninterrupted (n maxCount : Nat) :
    (∀ actions, (semQueue n maxCount).Meets Uninterrupted (State.start (.trying .sem) n maxCount)
        actions →
      (semQueue n maxCount).Always Exclusion (State.start (.trying .sem) n maxCount) actions) ∧
    ∀ front tid state next,
      (semQueue n maxCount).Meets Uninterrupted (State.start (.trying .sem) n maxCount) front →
      (semQueue n maxCount).run (State.start (.trying .sem) n maxCount) front = some state →
      semStep state (.interrupted tid) = some next →
      ∃ more : List (Action n),
        ¬ (semQueue n maxCount).Always Exclusion (State.start (.trying .sem) n maxCount)
          (front ++ .interrupted tid :: more.map .program) := by
  have start := start_linear .sem n maxCount
  have preserved : ∀ state action next, Linear .sem maxCount state →
      Uninterrupted state action → (semQueue n maxCount).step state action = some next →
      Linear .sem maxCount next :=
    fun _ _ _ linear uninterrupted stepped => linear_uninterrupted linear uninterrupted stepped
  refine ⟨?_, ?_⟩
  · intro actions met
    exact (System.always_of_meets Uninterrupted (Linear .sem maxCount) preserved _ actions start
      met).mono fun _ linear => exclusion_of_linear linear
  · intro front tid state next met ran interrupted
    have held := System.always_of_meets Uninterrupted (Linear .sem maxCount) preserved _ front start
      met
    have linear := System.Always.along front [] (by rwa [List.append_nil]) ran
    obtain ⟨more, broken⟩ := interrupted_breaks linear interrupted
    refine ⟨more, ?_⟩
    intro excluded
    apply broken
    exact (excluded.after front _ ran).2 next interrupted

/-- Two threads print the statistics; the wait of the second one is interrupted
while the first has the semaphore. -/
def interruptedPrint (first second : Fin n) : List (SemAction n) :=
  [.program (.call first .printStats), .program (.acquire first),
    .program (.call second .printStats), .interrupted second]

theorem interruptedPrint_enters :
    ¬ (semQueue 2 1).Always Exclusion (State.start (.trying .sem) 2 1)
      (interruptedPrint ⟨0, Nat.zero_lt_two⟩ ⟨1, Nat.one_lt_two⟩) := by
  intro always
  have excluded := always.along (interruptedPrint _ _) [] rfl
  have same := excluded.exclusive ⟨0, Nat.zero_lt_two⟩ ⟨1, Nat.one_lt_two⟩ rfl rfl
  exact absurd same (by decide)

end OsLabs.Sync
