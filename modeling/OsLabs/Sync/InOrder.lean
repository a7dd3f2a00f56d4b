import OsLabs.Sync.CondQueue
import OsLabs.Sync.Linearizable

/-!
# The reader gets what the writer sends, in order

The loops of `queue-threads.c` around the calls of any of the four queues: one
thread reads, one writes, and the others only print statistics.  Both loops
repeat a call that returned 0.  The queues are first in, first out
(`SharedQueue.inOrder`), every result comes from the thread's own call, and so
the values read are 0, 1, 2, ... (`in_order`).
-/

set_option autoImplicit false

namespace OsLabs.Sync

open OsLabs.Fifo OsLabs.Transition

variable {n : Nat}

/-- The two threads with a loop of their own. -/
structure Crew (n : Nat) where
  reader : Fin n
  writer : Fin n
  distinct : reader ≠ writer

/-- The local variables of the loops; `values` is what the reader has taken, and
`errors` the arguments of its error messages. -/
structure Loops (n : Nat) where
  shared : State n
  expected : Int
  i : Int
  values : List Int
  errors : List (Int × Int)

/-- An increment of an `int`. -/
def increment (value : Int) : Int := Int.bmod (value + 1) (2 ^ 32)

namespace Loops

def nextCall (crew : Crew n) (s : Loops n) (tid : Fin n) : Call :=
  if tid = crew.reader then .get (-1)
  else if tid = crew.writer then .add s.i
  else .printStats

/-- What follows a call in the loops. -/
def received (s : Loops n) : Ret → Loops n
  | .got ok val =>
      if ok = 0 then s
      else { s with
        values := s.values ++ [val]
        errors := if s.expected ≠ val then s.errors ++ [(val, s.expected)] else s.errors
        expected := increment val }
  | .added ok => if ok = 0 then s else { s with i := increment s.i }
  | .printed _ => s

def step (v : Variant) (crew : Crew n) (s : Loops n) (action : Action n) : Option (Loops n) :=
  match action with
  | .call tid call =>
      if call = s.nextCall crew tid then
        (threadStep v s.shared (.call tid call)).map fun shared => { s with shared := shared }
      else none
  | .return_ tid =>
      match s.shared.thread tid with
      | .returning _ ret =>
          (threadStep v s.shared (.return_ tid)).map fun shared =>
            { s with shared := shared }.received ret
      | _ => none
  | action => (threadStep v s.shared action).map fun shared => { s with shared := shared }

def start (v : Variant) (n maxCount : Nat) : Loops n where
  shared := State.start v n maxCount
  expected := 0
  i := 0
  values := []
  errors := []

end Loops

def queueLoops (v : Variant) (crew : Crew n) (maxCount : Nat) : System (Loops n) (Action n) :=
  ⟨Loops.start v n maxCount, Loops.step v crew⟩

theorem received_shared (s : Loops n) (ret : Ret) : (s.received ret).shared = s.shared := by
  cases ret with
  | got ok val => simp only [Loops.received]; split <;> rfl
  | added ok => simp only [Loops.received]; split <;> rfl
  | printed line => rfl

/-- A step of the loops is a step of the shared queue. -/
theorem loops_step {v : Variant} {crew : Crew n} {s next : Loops n} {action : Action n}
    (stepped : s.step v crew action = some next) :
    threadStep v s.shared action = some next.shared ∧
      ((∃ tid, action = .call tid (s.nextCall crew tid) ∧ next = { s with shared := next.shared }) ∨
        (∃ tid call ret, action = .return_ tid ∧ s.shared.thread tid = .returning call ret ∧
          next = { s with shared := next.shared }.received ret) ∨
        (∀ tid, (∀ call, action ≠ .call tid call) ∧ action ≠ .return_ tid) ∧
          next = { s with shared := next.shared }) := by
  cases action with
  | call tid call =>
      simp only [Loops.step] at stepped
      split at stepped
      · rename_i isNext
        obtain ⟨shared, moved, rfl⟩ := Option.map_eq_some_iff.mp stepped
        exact ⟨moved, Or.inl ⟨tid, by rw [isNext], rfl⟩⟩
      · cases stepped
  | return_ tid =>
      simp only [Loops.step] at stepped
      split at stepped
      · rename_i call ret here
        obtain ⟨shared, moved, rfl⟩ := Option.map_eq_some_iff.mp stepped
        rw [received_shared]
        exact ⟨moved, Or.inr (Or.inl ⟨tid, call, ret, rfl, here, rfl⟩)⟩
      · cases stepped
  | _ =>
      obtain ⟨shared, moved, rfl⟩ := Option.map_eq_some_iff.mp stepped
      exact ⟨moved, Or.inr (Or.inr ⟨by simp, rfl⟩)⟩

/-! ## What the variants have in common -/

/-- The invariant of the variant. -/
def SharedQueue (maxCount : Nat) : Variant → State n → Prop
  | .cond, s => CondInv maxCount s
  | .trying primitive, s => Linear primitive maxCount s

/-- A sequential run of the unlocked queue is a log of the buffer. -/
theorem State.Sequential.serves {maxCount : Nat} {s : State n}
    (sequential : s.Sequential maxCount) :
    ∃ buffer : Buffer Int maxCount, Buffer.empty.Serves s.log buffer := by
  obtain ⟨blocks, sameLength, ran⟩ := sequential
  rcases runCalls_refines (Queue.represents_init maxCount)
    ((s.settledCalls.map Prod.snd).zip blocks) with
    failed | ⟨rets, q, addrs, buffer, other, represents, serves⟩
  · rw [failed] at ran
    cases ran
  · rw [other, Except.ok.injEq, Prod.mk.injEq] at ran
    have calls : ((s.settledCalls.map Prod.snd).zip blocks).map Prod.fst =
        s.completed.map fun record => record.2.1 := by
      rw [List.map_fst_zip (by simp [State.settledCalls, sameLength])]
      simp [State.settledCalls]
    have log : events (s.completed.map fun record => record.2.1)
        (s.completed.map fun record => record.2.2) = s.log := by
      rw [events, List.zip_map', State.log, List.filterMap_map]
      rfl
    rw [calls, ran.1, log] at serves
    exact ⟨buffer, serves⟩

namespace SharedQueue

variable {v : Variant} {maxCount : Nat} {s next : State n} {action : Action n}

theorem start (v : Variant) (n maxCount : Nat) :
    SharedQueue maxCount v (State.start v n maxCount) := by
  cases v with
  | cond => exact start_condInv n maxCount
  | trying primitive => exact start_linear primitive n maxCount

theorem step (shared : SharedQueue maxCount v s) (stepped : threadStep v s action = some next) :
    SharedQueue maxCount v next := by
  cases v with
  | cond => exact condInv_step shared stepped
  | trying primitive => exact linear_step shared stepped

theorem sections (shared : SharedQueue maxCount v s) : Sections v s := by
  cases v with
  | cond => exact CondInv.sections shared
  | trying primitive => exact Linear.sections shared

theorem answered (shared : SharedQueue maxCount v s) : s.Answered := by
  cases v with
  | cond => exact CondInv.answered shared
  | trying primitive => exact Linear.answered shared

/-- What was removed is the beginning of what was appended. -/
theorem inOrder (shared : SharedQueue maxCount v s) : s.removed <+: s.appended := by
  cases v with
  | cond =>
      obtain ⟨_, _, _, serves⟩ := CondInv.fifo shared
      exact taken_initial serves
  | trying primitive =>
      obtain ⟨_, serves⟩ := State.Sequential.serves (Linear.sequential shared)
      exact taken_initial serves

end SharedQueue

/-! ## Calls and their results -/

/-- A result that the call can have. -/
def Call.Yields : Call → Ret → Prop
  | .add _, .added ok => ok = 0 ∨ ok = 1
  | .get _, .got ok _ => ok = 0 ∨ ok = 1
  | .printStats, .printed _ => True
  | _, _ => False

theorem settle_yields (call : Call) : call.Yields (call.settle .blocked) := by
  cases call with
  | add val => exact Or.inl rfl
  | get val => exact Or.inl rfl
  | printStats => exact trivial

theorem statement_yields {block : Block} {q after : Queue} {point : Point} {ret : Ret}
    {call : Call} (visits : call.visits point = true)
    (ran : statement block q point = .ok (.done ret, after)) : call.Yields ret := by
  cases point with
  | addIncAddCount =>
      cases ran
      cases call with
      | add val => exact Or.inr rfl
      | get val => cases visits
      | printStats => cases visits
  | getIncGetCount val =>
      cases ran
      cases call with
      | add val => cases visits
      | get val => exact Or.inr rfl
      | printStats => cases visits
  | printLine =>
      cases ran
      cases call with
      | add val => cases visits
      | get val => cases visits
      | printStats => exact trivial
  | addSetVal | addSetNext | addLinkLast | addMoveLast | getVal | getMoveFirst | getFree =>
      obtain ⟨_, _, rest⟩ := bind_ok ran
      cases rest
  | addAssert | addTestFull | addMalloc | addTestFirst | getAssert | getTestEmpty =>
      simp only [statement] at ran
      split at ran <;> cases ran
  | addAttempts | addNoMemory | addLinkFirst | addIncCount | getAttempts | getFirst | getDecCount =>
      cases ran

/-- What a step settles. -/
theorem move_completed {v : Variant} {s next : State n} {action : Action n}
    (sections : Sections v s) (move : Move v s action next) :
    next.completed = s.completed ∨
      ∃ tid call ret, next.completed = s.completed ++ [(tid, call, ret)] ∧
        (s.thread tid).current = some call ∧ call.Yields ret := by
  cases move with
  | gives tries here ran =>
      exact Or.inr ⟨_, _, _, rfl, by rw [here]; rfl, settle_yields _⟩
  | done here ran =>
      obtain ⟨holder, held⟩ := sections
      have underway := (held.at_holder here rfl).2
      exact Or.inr ⟨_, _, _, rfl, by rw [here]; rfl, statement_yields underway.visits ran⟩
  | _ => exact Or.inl rfl

theorem move_returned {v : Variant} {s next : State n} {action : Action n}
    (move : Move v s action next) (inside : ∀ tid, action ≠ .return_ tid) :
    next.returned = s.returned := by
  cases move with
  | return_ here => exact absurd rfl (inside _)
  | _ => rfl

/-! ## The values of a run -/

/-- The values an `int` counts through. -/
def nth (k : Nat) : Int := Int.bmod k (2 ^ 32)

def sequence (length : Nat) : List Int := (List.range length).map nth

theorem nth_zero : nth 0 = 0 := Int.zero_bmod

theorem increment_nth (k : Nat) : increment (nth k) = nth (k + 1) := Int.bmod_add_bmod

theorem sequence_succ (k : Nat) : sequence (k + 1) = sequence k ++ [nth k] := by
  simp [sequence, List.range_succ]

theorem sequence_initial {part : List Int} {k : Nat} (initial : part <+: sequence k) :
    part = sequence part.length := by
  have within : part.length ≤ k := by simpa [sequence] using initial.length_le
  rw [List.prefix_iff_eq_take, sequence, ← List.map_take, List.take_range,
    Nat.min_eq_left within] at initial
  exact initial

theorem sequence_next {part : List Int} {value : Int} {k : Nat}
    (initial : part ++ [value] <+: sequence k) : value = nth part.length := by
  have whole := sequence_initial initial
  have front := sequence_initial ((List.prefix_append part [value]).trans initial)
  rw [List.length_append, List.length_singleton, sequence_succ, ← front] at whole
  simpa using whole

/-- The value that a call has added, or got. -/
def sentValue : Call × Ret → Option Int
  | (.add val, .added ok) => if ok = 1 then some val else none
  | _ => none

def readValue : Call × Ret → Option Int
  | (.get _, .got ok val) => if ok = 1 then some val else none
  | _ => none

/-- Calls of the loops: only the writer adds, and only the reader gets. -/
structure Crew.Fits (crew : Crew n) (record : Fin n × Call × Ret) : Prop where
  yields : record.2.1.Yields record.2.2
  adds : ∀ val, record.2.1 = .add val → record.1 = crew.writer
  gets : ∀ val, record.2.1 = .get val → record.1 = crew.reader

theorem filterMap_results {s : State n} {f : Call × Ret → Option Int} {tid : Fin n}
    (own : ∀ record ∈ s.completed, record.1 ≠ tid → f record.2 = none) :
    s.completed.filterMap (fun record => f record.2) = (s.resultsOf tid).filterMap f := by
  unfold State.resultsOf
  generalize s.completed = completed at own
  induction completed with
  | nil => rfl
  | cons record rest ih =>
      have later := ih (fun other member => own other (List.mem_cons_of_mem _ member))
      by_cases isOwn : record.1 = tid
      · simp [List.filterMap_cons, isOwn, later]
      · have nothing := own record (by simp) isOwn
        simp [isOwn, nothing, later]

/-- Values read off the log are values read off the results of one thread, when
the calls of all others give none. -/
theorem log_filterMap {s : State n} {ofEvent : Request Int × Answer Int → Option Int}
    {ofCall : Call × Ret → Option Int} {tid : Fin n}
    (same : ∀ call ret, (event (call, ret)).bind ofEvent = ofCall (call, ret))
    (own : ∀ record ∈ s.completed, record.1 ≠ tid → ofCall record.2 = none) :
    s.log.filterMap ofEvent = (s.resultsOf tid).filterMap ofCall := by
  rw [← filterMap_results own, State.log, List.filterMap_filterMap]
  apply List.filterMap_congr
  intro record _
  exact same record.2.1 record.2.2

theorem appended_eq {crew : Crew n} {s : State n}
    (fits : ∀ record ∈ s.completed, crew.Fits record) :
    s.appended = (s.resultsOf crew.writer).filterMap sentValue := by
  apply log_filterMap
  · intro call ret
    cases call with
    | add val =>
        cases ret with
        | added ok =>
            simp only [event, sentValue]
            split_ifs <;> rfl
        | got ok val => rfl
        | printed line => rfl
    | get val => cases ret <;> simp only [event, sentValue, Option.bind_some] <;> rfl
    | printStats => rfl
  · intro record member other
    obtain ⟨tid, call, ret⟩ := record
    cases call with
    | add val => exact absurd ((fits _ member).adds val rfl) other
    | get val => rfl
    | printStats => rfl

theorem removed_eq {crew : Crew n} {s : State n}
    (fits : ∀ record ∈ s.completed, crew.Fits record) :
    s.removed = (s.resultsOf crew.reader).filterMap readValue := by
  apply log_filterMap
  · intro call ret
    cases call with
    | get val =>
        cases ret with
        | got ok val =>
            simp only [event, readValue]
            split_ifs <;> rfl
        | added ok => rfl
        | printed line => rfl
    | add val =>
        cases ret with
        | added ok =>
            simp only [event, readValue]
            split_ifs <;> rfl
        | got ok val => rfl
        | printed line => rfl
    | printStats => rfl
  · intro record member other
    obtain ⟨tid, call, ret⟩ := record
    cases call with
    | get val => exact absurd ((fits _ member).gets val rfl) other
    | add val => rfl
    | printStats => rfl

/-! ## The invariant -/

structure Delivered (v : Variant) (crew : Crew n) (maxCount : Nat) (s : Loops n) : Prop where
  shared : SharedQueue maxCount v s.shared
  calls : ∀ tid call, (s.shared.thread tid).current = some call → call = s.nextCall crew tid
  fits : ∀ record ∈ s.shared.completed, crew.Fits record
  sent : ∃ k, (s.shared.returned crew.writer).filterMap sentValue = sequence k ∧ s.i = nth k
  read : s.values = (s.shared.returned crew.reader).filterMap readValue
  expected : s.expected = nth s.values.length
  noErrors : s.errors = []

section Delivered

variable {v : Variant} {crew : Crew n} {maxCount : Nat} {s : Loops n}

theorem owed_current {thread : Thread} {call : Call} {ret : Ret}
    (owes : (call, ret) ∈ thread.owed) : thread.current = some call := by
  cases thread <;> simp [Thread.owed] at owes <;> simp [Thread.current, owes]

theorem nextCall_writer (crew : Crew n) (s : Loops n) : s.nextCall crew crew.writer = .add s.i := by
  rw [Loops.nextCall, if_neg crew.distinct.symm, if_pos rfl]

/-- The queue has appended the values the writer counts through. -/
theorem Delivered.appended (delivered : Delivered v crew maxCount s) :
    ∃ k, s.shared.appended = sequence k := by
  obtain ⟨k, returned, i⟩ := delivered.sent
  rw [appended_eq delivered.fits, delivered.shared.answered, List.filterMap_append, returned]
  have pending : ∀ result ∈ (s.shared.thread crew.writer).owed,
      sentValue result = none ∨ sentValue result = some (nth k) := by
    rintro ⟨call, ret⟩ owes
    have isCall := delivered.calls _ call (owed_current owes)
    rw [nextCall_writer, i] at isCall
    rw [isCall]
    cases ret with
    | added ok =>
        by_cases one : ok = 1
        · exact Or.inr (if_pos one)
        · exact Or.inl (if_neg one)
    | got ok val => exact Or.inl rfl
    | printed line => exact Or.inl rfl
  have atMostOne : (s.shared.thread crew.writer).owed = [] ∨
      ∃ result, (s.shared.thread crew.writer).owed = [result] := by
    cases s.shared.thread crew.writer <;> simp [Thread.owed]
  rcases atMostOne with nobody | ⟨result, one⟩
  · exact ⟨k, by rw [nobody]; simp⟩
  · rcases pending result (by rw [one]; simp) with nothing | next
    · exact ⟨k, by rw [one]; simp [nothing]⟩
    · exact ⟨k + 1, by rw [one, sequence_succ]; simp [next]⟩

/-- What the reader has taken, and what it is about to take, comes in order. -/
theorem Delivered.initial (delivered : Delivered v crew maxCount s) :
    ∃ k, s.values ++ (s.shared.thread crew.reader).owed.filterMap readValue <+: sequence k := by
  obtain ⟨k, appended⟩ := delivered.appended
  have inOrder := delivered.shared.inOrder
  rw [appended, removed_eq delivered.fits, delivered.shared.answered, List.filterMap_append,
    ← delivered.read] at inOrder
  exact ⟨k, inOrder⟩

theorem Delivered.values (delivered : Delivered v crew maxCount s) :
    s.values = sequence s.values.length := by
  obtain ⟨k, initial⟩ := delivered.initial
  exact sequence_initial ((List.prefix_append _ _).trans initial)

theorem returning_record (delivered : Delivered v crew maxCount s) {tid : Fin n} {call : Call}
    {ret : Ret} (here : s.shared.thread tid = .returning call ret) :
    crew.Fits (tid, call, ret) := by
  have results := delivered.shared.answered tid
  rw [here, Thread.owed, State.resultsOf] at results
  have member : (call, ret) ∈
      (s.shared.completed.filter fun record => record.1 = tid).map Prod.snd := by
    rw [results]
    simp
  obtain ⟨⟨owner, record⟩, inCompleted, same⟩ := List.mem_map.mp member
  obtain ⟨isRecord, isOwner⟩ := List.mem_filter.mp inCompleted
  have owned : owner = tid := by simpa using isOwner
  rw [← same, ← owned]
  exact delivered.fits _ isRecord

/-- The three kinds of threads that come back from a call. -/
theorem Delivered.returning (delivered : Delivered v crew maxCount s) {tid : Fin n} {call : Call}
    {ret : Ret} (here : s.shared.thread tid = .returning call ret) :
    (tid = crew.reader ∧ ∃ ok val, call = .get (-1) ∧ ret = .got ok val ∧ (ok = 0 ∨ ok = 1)) ∨
      (tid = crew.writer ∧ ∃ ok, call = .add s.i ∧ ret = .added ok ∧ (ok = 0 ∨ ok = 1)) ∨
      tid ≠ crew.reader ∧ tid ≠ crew.writer ∧ ∃ line, ret = .printed line := by
  have yields := (returning_record delivered here).yields
  have isCall := delivered.calls tid call (by rw [here]; rfl)
  unfold Loops.nextCall at isCall
  split at isCall
  · rename_i isReader
    subst isCall
    cases ret with
    | got ok val => exact Or.inl ⟨isReader, ok, val, rfl, rfl, yields⟩
    | added ok => exact yields.elim
    | printed line => exact yields.elim
  · rename_i notReader
    split at isCall
    · rename_i isWriter
      subst isCall
      cases ret with
      | added ok => exact Or.inr (Or.inl ⟨isWriter, ok, rfl, rfl, yields⟩)
      | got ok val => exact yields.elim
      | printed line => exact yields.elim
    · rename_i notWriter
      subst isCall
      cases ret with
      | printed line => exact Or.inr (Or.inr ⟨notReader, notWriter, line, rfl⟩)
      | added ok => exact yields.elim
      | got ok val => exact yields.elim

/-- A settled call was the next one of its thread. -/
theorem Delivered.settles (delivered : Delivered v crew maxCount s) {action : Action n}
    {next : State n} (stepped : threadStep v s.shared action = some next) :
    ∀ record ∈ next.completed, crew.Fits record := by
  obtain ⟨_, move⟩ := threadStep_move stepped
  rcases move_completed delivered.shared.sections move with
    same | ⟨tid, call, ret, longer, current, yields⟩
  · rw [same]
    exact delivered.fits
  · rw [longer]
    intro record member
    rcases List.mem_append.mp member with before | isNew
    · exact delivered.fits record before
    · rw [List.mem_singleton.mp isNew]
      have isCall := delivered.calls tid call current
      unfold Loops.nextCall at isCall
      refine ⟨yields, ?_, ?_⟩
      · rintro val rfl
        split at isCall
        · cases isCall
        · split at isCall
          · assumption
          · cases isCall
      · rintro val rfl
        split at isCall
        · assumption
        · split at isCall <;> cases isCall

end Delivered

theorem return_results {v : Variant} {s next : State n} {tid : Fin n} {call : Call} {ret : Ret}
    (here : s.thread tid = .returning call ret)
    (stepped : threadStep v s (.return_ tid) = some next) :
    (next.thread tid).current = none ∧
      next.returned = Function.update s.returned tid (s.returned tid ++ [(call, ret)]) := by
  obtain ⟨_, move⟩ := threadStep_move stepped
  cases move with
  | return_ there =>
      rw [here, Thread.returning.injEq] at there
      rw [← there.1, ← there.2]
      exact ⟨by simp [State.setThread, Thread.current], rfl⟩

theorem delivered_call {v : Variant} {crew : Crew n} {maxCount : Nat} {s : Loops n}
    {shared : State n} {tid : Fin n} (delivered : Delivered v crew maxCount s)
    (moved : threadStep v s.shared (.call tid (s.nextCall crew tid)) = some shared) :
    Delivered v crew maxCount { s with shared := shared } := by
  obtain ⟨_, move⟩ := threadStep_move moved
  have returned := move_returned move (by simp)
  have thread := call_thread move
  exact {
    shared := delivered.shared.step moved
    calls := by
      intro other call current
      simp only [thread] at current
      by_cases isTid : other = tid
      · rw [isTid, Function.update_self, Thread.current, Option.some.injEq] at current
        rw [isTid, ← current]
        rfl
      · rw [Function.update_of_ne isTid] at current
        exact delivered.calls other call current
    fits := delivered.settles moved
    sent := by rw [returned]; exact delivered.sent
    read := by rw [returned]; exact delivered.read
    expected := delivered.expected
    noErrors := delivered.noErrors }

section Return

variable {v : Variant} {crew : Crew n} {maxCount : Nat} {s : Loops n} {shared : State n}
  {tid : Fin n} {call : Call} {ret : Ret}

/-- A result without a value adds nothing to the values of any thread. -/
theorem returned_values {before after : State n} (f : Call × Ret → Option Int)
    (returned : after.returned =
      Function.update before.returned tid (before.returned tid ++ [(call, ret)]))
    (nothing : f (call, ret) = none) (other : Fin n) :
    (after.returned other).filterMap f = (before.returned other).filterMap f := by
  rw [returned]
  by_cases isTid : other = tid
  · rw [isTid, Function.update_self, List.filterMap_append]
    simp [nothing]
  · rw [Function.update_of_ne isTid]

/-- The loop repeats a call that returned 0. -/
theorem delivered_repeats (delivered : Delivered v crew maxCount s)
    (here : s.shared.thread tid = .returning call ret)
    (moved : threadStep v s.shared (.return_ tid) = some shared)
    (unsent : sentValue (call, ret) = none) (unread : readValue (call, ret) = none) :
    Delivered v crew maxCount { s with shared := shared } := by
  obtain ⟨_, move⟩ := threadStep_move moved
  obtain ⟨_, returned⟩ := return_results here moved
  exact {
    shared := delivered.shared.step moved
    calls := fun other call current =>
      delivered.calls other call (move_current move (by simp) other call current)
    fits := delivered.settles moved
    sent := by rw [returned_values sentValue returned unsent]; exact delivered.sent
    read := by rw [returned_values readValue returned unread]; exact delivered.read
    expected := delivered.expected
    noErrors := delivered.noErrors }

theorem delivered_got {val : Int} (delivered : Delivered v crew maxCount s)
    (here : s.shared.thread crew.reader = .returning (.get (-1)) (.got 1 val))
    (moved : threadStep v s.shared (.return_ crew.reader) = some shared) :
    Delivered v crew maxCount ({ s with shared := shared }.received (.got 1 val)) := by
  obtain ⟨_, move⟩ := threadStep_move moved
  obtain ⟨_, returned⟩ := return_results here moved
  obtain ⟨k, initial⟩ := delivered.initial
  rw [here] at initial
  have value : val = nth s.values.length := sequence_next initial
  have asExpected : s.expected = val := delivered.expected.trans value.symm
  simp only [Loops.received, one_ne_zero, if_false, asExpected, ne_eq, not_true]
  exact {
    shared := delivered.shared.step moved
    calls := fun other call current =>
      delivered.calls other call (move_current move (by simp) other call current)
    fits := delivered.settles moved
    sent := by rw [returned_values sentValue returned rfl]; exact delivered.sent
    read := by
      rw [returned, Function.update_self, List.filterMap_append, ← delivered.read]
      simp [readValue]
    expected := by
      rw [value, increment_nth, List.length_append, List.length_singleton]
    noErrors := delivered.noErrors }

theorem delivered_added (delivered : Delivered v crew maxCount s)
    (here : s.shared.thread crew.writer = .returning (.add s.i) (.added 1))
    (moved : threadStep v s.shared (.return_ crew.writer) = some shared) :
    Delivered v crew maxCount ({ s with shared := shared }.received (.added 1)) := by
  obtain ⟨_, move⟩ := threadStep_move moved
  obtain ⟨idle, returned⟩ := return_results here moved
  obtain ⟨k, sent, i⟩ := delivered.sent
  simp only [Loops.received, one_ne_zero, if_false]
  exact {
    shared := delivered.shared.step moved
    calls := by
      intro other call current
      have before := delivered.calls other call (move_current move (by simp) other call current)
      have notWriter : other ≠ crew.writer := by
        intro same
        subst same
        rw [idle] at current
        cases current
      rw [before, Loops.nextCall, Loops.nextCall, if_neg notWriter, if_neg notWriter]
    fits := delivered.settles moved
    sent := by
      refine ⟨k + 1, ?_, by rw [i, increment_nth]⟩
      rw [returned, Function.update_self, List.filterMap_append, sent, sequence_succ, i]
      simp [sentValue]
    read := by rw [returned_values readValue returned rfl]; exact delivered.read
    expected := delivered.expected
    noErrors := delivered.noErrors }

theorem delivered_return (delivered : Delivered v crew maxCount s)
    (here : s.shared.thread tid = .returning call ret)
    (moved : threadStep v s.shared (.return_ tid) = some shared) :
    Delivered v crew maxCount ({ s with shared := shared }.received ret) := by
  rcases delivered.returning here with
    ⟨rfl, ok, val, rfl, rfl, flag⟩ | ⟨rfl, ok, rfl, rfl, flag⟩ | ⟨_, _, line, rfl⟩
  · rcases flag with rfl | rfl
    · exact delivered_repeats delivered here moved rfl rfl
    · exact delivered_got delivered here moved
  · rcases flag with rfl | rfl
    · exact delivered_repeats delivered here moved rfl rfl
    · exact delivered_added delivered here moved
  · have unsent : sentValue (call, .printed line) = none := by cases call <;> rfl
    have unread : readValue (call, .printed line) = none := by cases call <;> rfl
    exact delivered_repeats delivered here moved unsent unread

end Return

theorem delivered_step {v : Variant} {crew : Crew n} {maxCount : Nat} {s next : Loops n}
    {action : Action n} (delivered : Delivered v crew maxCount s)
    (stepped : s.step v crew action = some next) : Delivered v crew maxCount next := by
  obtain ⟨moved, ways⟩ := loops_step stepped
  rcases ways with ⟨tid, rfl, isNext⟩ | ⟨tid, call, ret, rfl, here, isNext⟩ | ⟨inside, isNext⟩
  · rw [isNext]
    exact delivered_call delivered moved
  · rw [isNext]
    exact delivered_return delivered here moved
  · obtain ⟨_, move⟩ := threadStep_move moved
    have returned := move_returned move (fun tid => (inside tid).2)
    rw [isNext]
    exact {
      shared := delivered.shared.step moved
      calls := fun tid call current =>
        delivered.calls tid call (move_current move (fun tid => (inside tid).1) tid call current)
      fits := delivered.settles moved
      sent := by rw [returned]; exact delivered.sent
      read := by rw [returned]; exact delivered.read
      expected := delivered.expected
      noErrors := delivered.noErrors }

theorem start_delivered (v : Variant) (crew : Crew n) (maxCount : Nat) :
    Delivered v crew maxCount (Loops.start v n maxCount) where
  shared := SharedQueue.start v n maxCount
  calls tid call current := by cases current
  fits record member := by cases member
  sent := ⟨0, rfl, nth_zero.symm⟩
  read := rfl
  expected := nth_zero.symm
  noErrors := rfl

/-- In every run the values read are the first ones of 0, 1, 2, ..., and the
error branch is never reached. -/
theorem in_order (v : Variant) (crew : Crew n) (maxCount : Nat) (actions : List (Action n)) :
    (queueLoops v crew maxCount).Always
      (fun s => s.values = sequence s.values.length ∧ s.errors = [])
      (Loops.start v n maxCount) actions :=
  System.always_of_invariant (Delivered v crew maxCount) (start_delivered v crew maxCount)
    (fun _ _ _ delivered stepped => delivered_step delivered stepped)
    (fun _ delivered => ⟨delivered.values, delivered.noErrors⟩) actions

end OsLabs.Sync
