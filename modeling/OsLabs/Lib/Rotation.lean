import Mathlib.Data.List.Chain
import Mathlib.Data.List.Nodup
import Mathlib.Data.List.Range

/-!
# Rotations of a growing ring

Turns go round a ring of places: each turn is at the place after the last one,
modulo the number of places there are by then.  The ring may grow at its end
while a round is under way.  Between two turns at a place every other place
that the ring had at the first of them has exactly one turn.
-/

set_option autoImplicit false

namespace OsLabs.Rotation

/-- A turn at a place, with the size of the ring at that time. -/
structure Turn where
  place : Nat
  size : Nat

def Follows (turn next : Turn) : Prop :=
  turn.size ≤ next.size ∧ next.place = (turn.place + 1) % next.size

structure Rotates (turns : List Turn) : Prop where
  chain : turns.IsChain Follows
  inside : ∀ turn ∈ turns, turn.place < turn.size

theorem rotates_single {turn : Turn} (inside : turn.place < turn.size) : Rotates [turn] where
  chain := List.IsChain.singleton turn
  inside other member := by
    rw [List.mem_singleton.mp member]
    exact inside

theorem Rotates.snoc {turns : List Turn} {turn next : Turn} (rotates : Rotates turns)
    (last : turns.getLast? = some turn) (follows : Follows turn next) :
    Rotates (turns ++ [next]) := by
  have isLast : turn ∈ turns := List.mem_of_getLast? last
  refine ⟨?_, ?_⟩
  · rw [List.isChain_append]
    refine ⟨rotates.chain, List.IsChain.singleton next, ?_⟩
    intro before isBefore after isAfter
    rw [last] at isBefore
    cases isBefore
    cases isAfter
    exact follows
  · intro other member
    rcases List.mem_append.mp member with earlier | isNext
    · exact rotates.inside other earlier
    · rw [List.mem_singleton.mp isNext, follows.2]
      have inside := rotates.inside turn isLast
      have grown := follows.1
      exact Nat.mod_lt _ (by omega)

/-! ## From one turn at a place to the next -/

theorem next_place {turn next : Turn} (follows : Follows turn next)
    (inside : turn.place < turn.size) :
    next.place = turn.place + 1 ∧ turn.place + 1 < next.size ∨
      next.place = 0 ∧ turn.place + 1 = next.size := by
  obtain ⟨grown, isNext⟩ := follows
  by_cases wraps : turn.place + 1 = next.size
  · exact Or.inr ⟨by rw [isNext, wraps, Nat.mod_self], wraps⟩
  · have below : turn.place + 1 < next.size := by omega
    exact Or.inl ⟨by rw [isNext, Nat.mod_eq_of_lt below], below⟩

/-- Below the place where the turns end they pass every place on the way. -/
theorem up_to_place {turn last : Turn} {middle : List Turn}
    (chain : (turn :: middle ++ [last]).IsChain Follows) (below : turn.place < last.place)
    (fits : last.place < turn.size) (absent : ∀ other ∈ middle, other.place ≠ last.place) :
    middle.map Turn.place = List.range' (turn.place + 1) (last.place - (turn.place + 1)) := by
  induction middle generalizing turn with
  | nil =>
      have follows : Follows turn last := List.IsChain.rel chain
      rcases next_place follows (by omega) with ⟨isNext, _⟩ | ⟨isNext, wraps⟩
      · simp [isNext]
      · omega
  | cons next rest ih =>
      rw [List.cons_append, List.cons_append, List.isChain_cons_cons] at chain
      obtain ⟨follows, tail⟩ := chain
      have notLast := absent next (by simp)
      have grown := follows.1
      rcases next_place follows (by omega) with ⟨isNext, _⟩ | ⟨isNext, wraps⟩
      · have later := ih tail (by omega) (by omega) fun other member => absent other (by simp [member])
        have split : last.place - (turn.place + 1) = last.place - (next.place + 1) + 1 := by omega
        rw [List.map_cons, later, split, List.range'_succ, isNext]
      · omega

/-- From that place on they go to the end of the ring first. -/
theorem around {turn last : Turn} {middle : List Turn}
    (chain : (turn :: middle ++ [last]).IsChain Follows) (above : last.place ≤ turn.place)
    (inside : turn.place < turn.size) (absent : ∀ other ∈ middle, other.place ≠ last.place) :
    ∃ top, turn.size ≤ top ∧
      middle.map Turn.place =
        List.range' (turn.place + 1) (top - (turn.place + 1)) ++ List.range last.place := by
  induction middle generalizing turn with
  | nil =>
      have follows : Follows turn last := List.IsChain.rel chain
      have grown := follows.1
      rcases next_place follows inside with ⟨isNext, _⟩ | ⟨isNext, wraps⟩
      · omega
      · exact ⟨last.size, grown, by simp [wraps, isNext]⟩
  | cons next rest ih =>
      rw [List.cons_append, List.cons_append, List.isChain_cons_cons] at chain
      obtain ⟨follows, tail⟩ := chain
      have notLast := absent next (by simp)
      have grown := follows.1
      have restAbsent : ∀ other ∈ rest, other.place ≠ last.place :=
        fun other member => absent other (by simp [member])
      rcases next_place follows inside with ⟨isNext, below⟩ | ⟨isNext, wraps⟩
      · obtain ⟨top, enough, later⟩ := ih tail (by omega) (by omega) restAbsent
        have split : top - (turn.place + 1) = top - (next.place + 1) + 1 := by omega
        refine ⟨top, by omega, ?_⟩
        rw [List.map_cons, later, split, List.range'_succ, isNext, List.cons_append]
      · have later := up_to_place tail (by omega) (by omega) restAbsent
        refine ⟨next.size, grown, ?_⟩
        have split : last.place = last.place - 1 + 1 := by omega
        rw [List.map_cons, later, wraps, Nat.sub_self, isNext, split, List.range_eq_range',
          List.range'_succ]
        simp

/-- Every place that the ring had at the first turn has one turn in between. -/
theorem Rotates.once {front middle back : List Turn} {turn again : Turn}
    (rotates : Rotates (front ++ turn :: middle ++ again :: back)) (same : again.place = turn.place)
    (absent : ∀ other ∈ middle, other.place ≠ turn.place) {place : Nat}
    (registered : place < turn.size) (elsewhere : place ≠ turn.place) :
    (middle.map Turn.place).count place = 1 := by
  have inside := rotates.inside turn (by simp)
  have chain : (turn :: middle ++ [again]).IsChain Follows := by
    have whole := rotates.chain
    rw [List.append_assoc] at whole
    have tail := whole.right_of_append
    rw [List.append_cons] at tail
    exact tail.left_of_append
  rw [← same] at absent
  obtain ⟨top, enough, places⟩ := around chain same.le inside absent
  rw [places]
  refine List.count_eq_one_of_mem ?_ ?_
  · rw [List.nodup_append]
    refine ⟨List.nodup_range', List.nodup_range, ?_⟩
    intro high isHigh low isLow
    rw [List.mem_range'_1] at isHigh
    rw [List.mem_range] at isLow
    omega
  · rw [List.mem_append, List.mem_range'_1, List.mem_range]
    omega

end OsLabs.Rotation
