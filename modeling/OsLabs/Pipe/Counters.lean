import OsLabs.Lib.Fifo
import OsLabs.Lib.Transition
import Mathlib.Algebra.Group.Int.Defs
import Mathlib.Algebra.Group.Nat.Defs

/-!
# Two counters and a pipe

The processes of `lab6/part2.c`: the writer counts up and sends each value, the
reader counts along and compares.  The writer starts again at INT_MAX, the
reader does not.  Whatever the interleaving, what the reader has printed is
settled by how many values it has read (`step_counted`), and `counters_agree_iff`
says how many these may be.
-/

set_option autoImplicit false

namespace OsLabs.Pipe

open OsLabs.Fifo OsLabs.Transition

def intMax : Int := 2 ^ 31 - 1

/-- `++` on an `int`, modulo 2^32. -/
def increment (value : Int) : Int := Int.bmod (value + 1) (2 ^ 32)

/-! ## The processes -/

inductive Message where
  | okey (val : Int)
  | notEqual (val last : Int)
  deriving DecidableEq

def comparison (val last : Int) : Message :=
  if val ≠ last then .notEqual val last else .okey val

/-- `val` of the writer, the pipe, `last` of the reader and what it has
printed. -/
structure State (capacity : Nat) where
  val : Int
  pipe : Buffer Int capacity
  last : Int
  printed : List Message

inductive Action where
  | write
  | read
  deriving DecidableEq

/-- What the writer has in `val` when it sleeps, after it has sent this value. -/
def afterWrite (val : Int) : Int := if val = intMax then 0 else val

section Processes

variable {capacity : Nat}

/-- A round of the writer; `write` waits while the pipe is full. -/
def writeRound (state : State capacity) : Option (State capacity) :=
  let val := increment state.val
  match state.pipe.serve (.offer val) with
  | (.accepted, pipe) => some { state with val := afterWrite val, pipe := pipe }
  | _ => none

/-- A round of the reader; `read` waits while the pipe is empty. -/
def readRound (state : State capacity) : Option (State capacity) :=
  match state.pipe.serve .poll with
  | (.taken val, pipe) =>
      let last := increment state.last
      some { state with
        pipe := pipe, last := last, printed := state.printed ++ [comparison val last] }
  | _ => none

end Processes

/-- The processes after the `fork`, in any order of their rounds. -/
def system (capacity : Nat) : System (State capacity) Action where
  init := ⟨0, Buffer.empty, 0, []⟩
  step state
    | .write => writeRound state
    | .read => readRound state

/-- The reader has been in its branch `not equal`. -/
def State.Differed {capacity : Nat} (state : State capacity) : Prop :=
  ∃ val last, Message.notEqual val last ∈ state.printed

/-! ## The two sequences -/

/-- `val` of the writer after this many rounds. -/
def valAfter : Nat → Int
  | 0 => 0
  | rounds + 1 => afterWrite (increment (valAfter rounds))

/-- `last` of the reader after this many rounds. -/
def lastAfter : Nat → Int
  | 0 => 0
  | rounds + 1 => increment (lastAfter rounds)

/-- The value sent after this many others. -/
def sent (before : Nat) : Int := increment (valAfter before)

/-- The value the reader compares it with. -/
def expected (before : Nat) : Int := increment (lastAfter before)

theorem intMax_eq : intMax = 2147483647 := rfl

theorem intMax_pos : 0 < intMax := by
  rw [intMax_eq]
  omega

theorem increment_small {value : Int} (nonneg : 0 ≤ value) (small : value < intMax) :
    increment value = value + 1 := by
  rw [intMax_eq] at small
  exact Int.bmod_eq_of_le (by omega) (by omega)

theorem valAfter_eq (rounds : Nat) : valAfter rounds = (rounds : Int) % intMax := by
  induction rounds with
  | zero => rfl
  | succ rounds ih =>
      have small := Int.emod_lt_of_pos (rounds : Int) intMax_pos
      have nonneg := Int.emod_nonneg (rounds : Int) (Int.ne_of_gt intMax_pos)
      rw [valAfter, ih, increment_small nonneg small, afterWrite]
      rw [intMax_eq] at small ⊢
      push_cast
      split <;> omega

/-- The writer counts modulo INT_MAX. -/
theorem sent_eq (before : Nat) : sent before = (before : Int) % intMax + 1 := by
  rw [sent, valAfter_eq]
  exact increment_small (Int.emod_nonneg _ (Int.ne_of_gt intMax_pos))
    (Int.emod_lt_of_pos _ intMax_pos)

theorem lastAfter_eq (rounds : Nat) : lastAfter rounds = Int.bmod rounds (2 ^ 32) := by
  induction rounds with
  | zero => rfl
  | succ rounds ih =>
      rw [lastAfter, ih, increment, Int.bmod_add_bmod]
      rfl

/-- The reader counts modulo 2^32. -/
theorem expected_eq (before : Nat) : expected before = Int.bmod (before + 1) (2 ^ 32) :=
  lastAfter_eq (before + 1)

theorem sent_eq_expected {before : Nat} (small : before < 2 ^ 31 - 1) :
    sent before = expected before := by
  have unchanged : Int.bmod ((before : Int) + 1) (2 ^ 32) = before + 1 :=
    Int.bmod_eq_of_le (by omega) (by omega)
  rw [sent_eq, expected_eq, unchanged, intMax_eq]
  omega

/-- The first value they differ on is the one behind INT_MAX. -/
theorem sent_ne_expected : sent (2 ^ 31 - 1) = 1 ∧ expected (2 ^ 31 - 1) = -2 ^ 31 := by
  rw [sent_eq, expected_eq]
  decide

theorem agree_iff (values : Nat) :
    (∀ before < values, sent before = expected before) ↔ values ≤ 2 ^ 31 - 1 := by
  constructor
  · intro agree
    by_contra more
    have differ := agree (2 ^ 31 - 1) (by omega)
    rw [sent_ne_expected.1, sent_ne_expected.2] at differ
    omega
  · intro few before earlier
    exact sent_eq_expected (by omega)

/-! ## Rounds -/

section Rounds

variable {capacity : Nat}

theorem writeRound_of_room {state : State capacity} (room : state.pipe.items.length < capacity) :
    ∃ pipe : Buffer Int capacity, pipe.items = state.pipe.items ++ [increment state.val] ∧
      writeRound state = some { state with val := afterWrite (increment state.val), pipe := pipe } := by
  obtain ⟨accepted, contents⟩ := Buffer.serve_offer_room (increment state.val) room
  refine ⟨_, contents, ?_⟩
  dsimp only [writeRound]
  generalize state.pipe.serve (.offer (increment state.val)) = served at accepted ⊢
  obtain ⟨answer, pipe⟩ := served
  cases accepted
  rfl

theorem writeRound_of_full {state : State capacity} (full : capacity ≤ state.pipe.items.length) :
    writeRound state = none := by
  dsimp only [writeRound]
  rw [Buffer.serve_offer_full full]

theorem readRound_of_cons {state : State capacity} {val : Int} {rest : List Int}
    (holds : state.pipe.items = val :: rest) :
    ∃ pipe : Buffer Int capacity, pipe.items = rest ∧
      readRound state = some { state with
        pipe := pipe, last := increment state.last,
        printed := state.printed ++ [comparison val (increment state.last)] } := by
  obtain ⟨taken, contents⟩ := Buffer.serve_poll_cons holds
  refine ⟨_, contents, ?_⟩
  dsimp only [readRound]
  generalize state.pipe.serve .poll = served at taken ⊢
  obtain ⟨answer, pipe⟩ := served
  cases taken
  rfl

theorem readRound_of_nil {state : State capacity} (empty : state.pipe.items = []) :
    readRound state = none := by
  dsimp only [readRound]
  rw [Buffer.serve_poll_nil empty]

/-- After this many rounds of either process the values in between are in the
pipe, in order, and every value read has been compared. -/
structure Counted (state : State capacity) (written taken : Nat) : Prop where
  order : taken ≤ written
  val : state.val = valAfter written
  inPipe : state.pipe.items = (List.range' taken (written - taken)).map sent
  last : state.last = lastAfter taken
  printed : state.printed =
    (List.range taken).map fun before => comparison (sent before) (expected before)

theorem counted_init : Counted (system capacity).init 0 0 :=
  ⟨Nat.le_refl 0, rfl, rfl, rfl, rfl⟩

theorem writeRound_counted {state next : State capacity} {written taken : Nat}
    (counted : Counted state written taken) (stepped : writeRound state = some next) :
    Counted next (written + 1) taken := by
  obtain ⟨order, isVal, inPipe, isLast, printed⟩ := counted
  by_cases room : state.pipe.items.length < capacity
  · obtain ⟨pipe, contents, ran⟩ := writeRound_of_room room
    rw [ran, Option.some.injEq] at stepped
    subst next
    have more : written + 1 - taken = written - taken + 1 := by omega
    have isNext : taken + (written - taken) = written := by omega
    refine ⟨by omega, ?_, ?_, isLast, printed⟩
    · rw [isVal]
      rfl
    · rw [contents, inPipe, isVal, more, List.range'_concat, List.map_append, Nat.one_mul, isNext]
      rfl
  · rw [writeRound_of_full (Nat.not_lt.mp room)] at stepped
    cases stepped

theorem readRound_counted {state next : State capacity} {written taken : Nat}
    (counted : Counted state written taken) (stepped : readRound state = some next) :
    Counted next written (taken + 1) := by
  obtain ⟨order, isVal, inPipe, isLast, printed⟩ := counted
  cases left : written - taken with
  | zero =>
      rw [left] at inPipe
      rw [readRound_of_nil inPipe] at stepped
      cases stepped
  | succ fewer =>
      rw [left, List.range'_succ, List.map_cons] at inPipe
      obtain ⟨pipe, contents, ran⟩ := readRound_of_cons inPipe
      rw [ran, Option.some.injEq] at stepped
      subst next
      have isFewer : written - (taken + 1) = fewer := by omega
      refine ⟨by omega, isVal, ?_, ?_, ?_⟩
      · rw [contents, isFewer]
      · rw [isLast]
        rfl
      · rw [printed, isLast, List.range_succ, List.map_append]
        rfl

/-- However the rounds are interleaved, they are counted. -/
theorem step_counted (state : State capacity) (action : Action) (next : State capacity)
    (counted : ∃ written taken, Counted state written taken)
    (stepped : (system capacity).step state action = some next) :
    ∃ written taken, Counted next written taken := by
  obtain ⟨written, taken, counted⟩ := counted
  cases action with
  | write => exact ⟨written + 1, taken, writeRound_counted counted stepped⟩
  | read => exact ⟨written, taken + 1, readRound_counted counted stepped⟩

/-- The reader finds a difference when the values it has read so far contain
one. -/
theorem Counted.differed_iff {state : State capacity} {written taken : Nat}
    (counted : Counted state written taken) :
    state.Differed ↔ ¬ ∀ before < taken, sent before = expected before := by
  rw [State.Differed, counted.printed]
  simp only [List.mem_map, List.mem_range, comparison]
  constructor
  · intro found agree
    obtain ⟨val, last, before, earlier, isMessage⟩ := found
    rw [if_neg (not_not.mpr (agree before earlier))] at isMessage
    cases isMessage
  · intro differ
    simp only [not_forall] at differ
    obtain ⟨before, earlier, different⟩ := differ
    exact ⟨_, _, before, earlier, if_pos different⟩

theorem Counted.printed_length {state : State capacity} {written taken : Nat}
    (counted : Counted state written taken) : state.printed.length = taken := by
  rw [counted.printed, List.length_map, List.length_range]

/-- Turn by turn. -/
def alternating : Nat → List Action
  | 0 => []
  | rounds + 1 => alternating rounds ++ [.write, .read]

theorem run_alternating (capacity rounds : Nat) (positive : 0 < capacity) :
    ∃ state, (system capacity).run (system capacity).init (alternating rounds) = some state ∧
      Counted state rounds rounds := by
  induction rounds with
  | zero => exact ⟨_, rfl, counted_init⟩
  | succ rounds ih =>
      obtain ⟨state, ran, counted⟩ := ih
      have isEmpty : state.pipe.items = [] := by
        rw [counted.inPipe, Nat.sub_self]
        rfl
      have room : state.pipe.items.length < capacity := by
        rw [isEmpty]
        exact positive
      obtain ⟨pipe, _, wrote⟩ := writeRound_of_room room
      have wroteOne := writeRound_counted counted wrote
      have holds := wroteOne.inPipe
      rw [Nat.add_sub_cancel_left] at holds
      obtain ⟨emptied, _, didRead⟩ := readRound_of_cons holds
      refine ⟨_, ?_, readRound_counted wroteOne didRead⟩
      rw [alternating, System.run_append, ran]
      simp only [Option.bind_some, System.run, system, wrote, didRead]

end Rounds

/-- The values agree up to INT_MAX of them and no further, and in every run the
branch `not equal` is avoided exactly as long as no more have been read. -/
theorem counters_agree_iff (values capacity : Nat) (actions : List Action) :
    ((∀ before < values, sent before = expected before) ↔ values ≤ 2 ^ 31 - 1) ∧
      (system capacity).Always
        (fun state => ¬ state.Differed ↔ state.printed.length ≤ 2 ^ 31 - 1)
        (system capacity).init actions := by
  refine ⟨agree_iff values, ?_⟩
  refine System.always_of_invariant (fun state => ∃ written taken, Counted state written taken)
    ⟨0, 0, counted_init⟩ step_counted ?_ actions
  intro state counted
  obtain ⟨written, taken, counted⟩ := counted
  rw [counted.differed_iff, not_not, counted.printed_length]
  exact agree_iff taken

/-- With a pipe of 65536 bytes and the processes taking turns, the reader prints
`not equal: 1 <-> -2147483648` in its round 2^31. -/
theorem counters_differ :
    sent (2 ^ 31 - 1) = 1 ∧ expected (2 ^ 31 - 1) = -2147483648 ∧
      ∃ state, (system 16384).run (system 16384).init (alternating (2 ^ 31)) = some state ∧
        Message.notEqual 1 (-2147483648) ∈ state.printed := by
  obtain ⟨isOne, isMin⟩ := sent_ne_expected
  refine ⟨isOne, isMin, ?_⟩
  obtain ⟨state, ran, counted⟩ := run_alternating 16384 (2 ^ 31) (by omega)
  refine ⟨state, ran, ?_⟩
  rw [counted.printed, List.mem_map]
  refine ⟨2 ^ 31 - 1, List.mem_range.mpr (by omega), ?_⟩
  rw [isOne, isMin]
  decide

end OsLabs.Pipe
