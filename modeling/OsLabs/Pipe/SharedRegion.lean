import OsLabs.Pipe.Counters

/-!
# Two counters and a shared region

The processes of `lab6/part1.c` compare the same two sequences as those of
`Counters`, with an integer in shared memory in place of the pipe.  Nothing
makes either wait for the other, so the reader may see a value twice, miss
some, or see INT_MAX before it is replaced by 0; `region_agrees_iff` says
which interleavings it calls `okey`.
-/

set_option autoImplicit false

namespace OsLabs.Pipe.Region

open OsLabs.Transition

/-- The statement of the writer that comes next. -/
inductive Writer where
  | adding
  | checking
  | restarting
  deriving DecidableEq

/-- `*reg`, `last` of the reader and what it has printed. -/
structure State where
  reg : Int
  writer : Writer
  last : Int
  printed : List Message

/-- Only the writer stores, so nobody sees the middle of its `(*reg)++`. -/
def writeStatement (s : State) : State :=
  match s.writer with
  | .adding => { s with reg := increment s.reg, writer := .checking }
  | .checking => { s with writer := if s.reg = intMax then .restarting else .adding }
  | .restarting => { s with reg := 0, writer := .adding }

/-- A round of the reader; it looks at the region once. -/
def readRound (s : State) : State :=
  let val := s.reg
  let last := increment s.last
  { s with last := last, printed := s.printed ++ [comparison val last] }

/-- The processes after the `fork`: `write` is a statement of the writer and
`read` a round of the reader. -/
def processes : System State Action where
  init := ⟨0, .adding, 0, []⟩
  step s
    | .write => some (writeStatement s)
    | .read => some (readRound s)

/-- The reader has been in its branch `not equal`. -/
def State.Differed (s : State) : Prop := ∃ val last, Message.notEqual val last ∈ s.printed

/-- How many statements of the writer come before each round of the reader,
after those that were executed already. -/
def readAt : Nat → List Action → List Nat
  | _, [] => []
  | statements, .write :: rest => readAt (statements + 1) rest
  | statements, .read :: rest => statements :: readAt statements rest

/-! ## The writer alone -/

/-- The statements of the writer from one 0 in the region to the next: two for
each value up to INT_MAX, and the assignment. -/
def lap : Nat := 2 ^ 32 - 1

/-- The region after this many statements. -/
def region (statements : Nat) : Int := ((statements % lap + 1) / 2 : Nat)

def writerAt (statements : Nat) : Writer :=
  if statements % lap % 2 = 1 then .checking
  else if statements % lap = lap - 1 then .restarting
  else .adding

theorem lap_eq : lap = 4294967295 := rfl

theorem region_restart {statements : Nat} (isLast : statements % lap = lap - 1) :
    region (statements + 1) = 0 ∧ writerAt (statements + 1) = .adding := by
  have isFirst : (statements + 1) % lap = 0 := by
    rw [lap_eq] at isLast ⊢
    omega
  rw [region, writerAt, isFirst, lap_eq]
  exact ⟨rfl, rfl⟩

theorem region_add {statements : Nat} (isEven : ¬ statements % lap % 2 = 1)
    (notLast : ¬ statements % lap = lap - 1) :
    region (statements + 1) = increment (region statements) ∧
      writerAt (statements + 1) = .checking := by
  have isNext : (statements + 1) % lap = statements % lap + 1 := by
    rw [lap_eq] at notLast ⊢
    omega
  have inside : statements % lap < lap := Nat.mod_lt statements (by rw [lap_eq]; omega)
  have nonneg : 0 ≤ region statements := by
    rw [region]
    omega
  have small : region statements < intMax := by
    rw [region, intMax_eq]
    rw [lap_eq] at inside isEven notLast ⊢
    omega
  constructor
  · rw [increment_small nonneg small, region, region, isNext]
    omega
  · rw [writerAt, if_pos (by omega)]

theorem region_check {statements : Nat} (isOdd : statements % lap % 2 = 1) :
    region (statements + 1) = region statements ∧
      writerAt (statements + 1) =
        if region statements = intMax then .restarting else .adding := by
  have inside : statements % lap < lap := Nat.mod_lt statements (by rw [lap_eq]; omega)
  have isNext : (statements + 1) % lap = statements % lap + 1 := by
    rw [lap_eq] at inside isOdd ⊢
    omega
  have isLast_iff : statements % lap + 1 = lap - 1 ↔ region statements = intMax := by
    rw [region, intMax_eq]
    rw [lap_eq] at isOdd ⊢
    omega
  constructor
  · rw [region, region, isNext]
    omega
  · rw [writerAt, isNext, if_neg (by omega)]
    simp only [isLast_iff]

/-! ## Runs -/

/-- The writer has executed this many statements, the reader this many rounds. -/
structure Placed (s : State) (statements taken : Nat) : Prop where
  reg : s.reg = region statements
  writer : s.writer = writerAt statements
  last : s.last = lastAfter taken

theorem writeStatement_placed {s : State} {statements taken : Nat}
    (placed : Placed s statements taken) : Placed (writeStatement s) (statements + 1) taken := by
  have isWriter := placed.writer
  unfold writerAt at isWriter
  split at isWriter
  · rename_i isOdd
    obtain ⟨isSame, isNext⟩ := region_check isOdd
    rw [writeStatement, isWriter]
    exact ⟨placed.reg.trans isSame.symm, by rw [isNext, ← placed.reg], placed.last⟩
  · rename_i isEven
    split at isWriter
    · rename_i isLast
      obtain ⟨isZero, isNext⟩ := region_restart isLast
      rw [writeStatement, isWriter]
      exact ⟨isZero.symm, isNext.symm, placed.last⟩
    · rename_i notLast
      obtain ⟨isMore, isNext⟩ := region_add isEven notLast
      rw [writeStatement, isWriter]
      exact ⟨by rw [isMore, ← placed.reg], isNext.symm, placed.last⟩

theorem readRound_placed {s : State} {statements taken : Nat}
    (placed : Placed s statements taken) : Placed (readRound s) statements (taken + 1) :=
  ⟨placed.reg, placed.writer, congrArg increment placed.last⟩

/-- What the reader prints in a run follows from when it looks. -/
theorem run_printed (actions : List Action) {s : State} {statements taken : Nat}
    (placed : Placed s statements taken) :
    ∃ next, processes.run s actions = some next ∧
      next.printed = s.printed ++ (readAt statements actions).mapIdx
        fun i seen => comparison (region seen) (expected (taken + i)) := by
  induction actions generalizing s statements taken with
  | nil => exact ⟨s, rfl, by simp [readAt]⟩
  | cons action rest ih =>
      cases action with
      | write =>
          obtain ⟨next, ran, printed⟩ := ih (writeStatement_placed placed)
          refine ⟨next, ran, ?_⟩
          rw [printed, readAt]
          unfold writeStatement
          split <;> rfl
      | read =>
          obtain ⟨next, ran, printed⟩ := ih (readRound_placed placed)
          refine ⟨next, ran, ?_⟩
          have isSame : ∀ i, taken + 1 + i = taken + (i + 1) := fun i => by omega
          rw [printed, readAt, List.mapIdx_cons]
          simp only [readRound, placed.reg, placed.last, List.append_assoc, isSame]
          rfl

theorem init_placed : Placed processes.init 0 0 := ⟨rfl, rfl, rfl⟩

theorem differed_iff {s : State} {looks : List Nat}
    (printed : s.printed = looks.mapIdx fun i seen => comparison (region seen) (expected i)) :
    s.Differed ↔
      ¬ ∀ taken seen, looks[taken]? = some seen → region seen = expected taken := by
  simp only [State.Differed, printed, List.mem_mapIdx, comparison, not_forall]
  constructor
  · rintro ⟨val, last, taken, inside, isMessage⟩
    refine ⟨taken, looks[taken], List.getElem?_eq_getElem inside, fun same => ?_⟩
    rw [if_neg (not_not.mpr same)] at isMessage
    cases isMessage
  · rintro ⟨taken, seen, isSeen, different⟩
    obtain ⟨inside, rfl⟩ := List.getElem?_eq_some_iff.mp isSeen
    exact ⟨_, _, taken, inside, if_pos different⟩

/-- In its round `taken`, the reader finds what it expects exactly between the
addition that puts this value there and the next one. -/
theorem region_eq_expected_iff (statements taken : Nat) (small : taken < 2 ^ 31 - 1) :
    region statements = expected taken ↔
      statements % lap = 2 * taken + 1 ∨ statements % lap = 2 * taken + 2 := by
  have unchanged : Int.bmod ((taken : Int) + 1) (2 ^ 32) = taken + 1 :=
    Int.bmod_eq_of_le (by omega) (by omega)
  rw [expected_eq, unchanged, region]
  omega

/-- What the reader has printed follows from when it looked, and it has found what
it expected so far exactly if there were no more rounds than values of an `int`,
and each came between the addition that put its value in the region and the next
one. -/
theorem region_agrees_iff (actions : List Action) :
    ∃ s, processes.run processes.init actions = some s ∧
      s.printed = ((readAt 0 actions).mapIdx fun taken seen =>
        comparison (region seen) (expected taken)) ∧
      (¬ s.Differed ↔ s.printed.length ≤ 2 ^ 31 - 1 ∧
        ∀ taken seen, (readAt 0 actions)[taken]? = some seen →
          seen % lap = 2 * taken + 1 ∨ seen % lap = 2 * taken + 2) := by
  obtain ⟨s, ran, printed⟩ := run_printed actions init_placed
  simp only [Nat.zero_add] at printed
  have isRounds : s.printed.length = (readAt 0 actions).length := by
    rw [printed]
    simp [processes]
  refine ⟨s, ran, printed, ?_⟩
  rw [isRounds, differed_iff printed, not_not]
  constructor
  · intro agree
    have few : (readAt 0 actions).length ≤ 2 ^ 31 - 1 := by
      by_contra more
      have inside : 2 ^ 31 - 1 < (readAt 0 actions).length := by omega
      have isNegative := agree _ _ (List.getElem?_eq_getElem inside)
      rw [sent_ne_expected.2, region] at isNegative
      omega
    refine ⟨few, fun taken seen isSeen => ?_⟩
    have inside := (List.getElem?_eq_some_iff.mp isSeen).1
    exact (region_eq_expected_iff seen taken (by omega)).mp (agree taken seen isSeen)
  · rintro ⟨few, inTime⟩ taken seen isSeen
    have inside := (List.getElem?_eq_some_iff.mp isSeen).1
    exact (region_eq_expected_iff seen taken (by omega)).mpr (inTime taken seen isSeen)

end OsLabs.Pipe.Region
