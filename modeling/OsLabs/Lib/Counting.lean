import Mathlib.Algebra.BigOperators.Group.Finset.Basic
import Mathlib.Data.Fintype.Basic

/-!
# Counting threads

How many of finitely many threads are in a place of a certain kind, and what
one move of one thread does to that number.
-/

set_option autoImplicit false

namespace OsLabs.Counting

universe u v

variable {Thread : Type u} {Place : Type v} [Fintype Thread]

/-- The number of threads whose place has the property. -/
def count (property : Place → Bool) (place : Thread → Place) : Nat :=
  ∑ thread, (property (place thread)).toNat

theorem count_eq_zero_iff {property : Place → Bool} {place : Thread → Place} :
    count property place = 0 ↔ ∀ thread, property (place thread) = false := by
  rw [count, Finset.sum_eq_zero_iff]
  constructor
  · intro nobody thread
    exact Bool.toNat_eq_zero.mp (nobody thread (Finset.mem_univ thread))
  · intro nobody thread _
    rw [nobody thread]
    rfl

theorem count_pos {property : Place → Bool} {place : Thread → Place} {thread : Thread}
    (holds : property (place thread) = true) : 0 < count property place := by
  rw [Nat.pos_iff_ne_zero, Ne, count_eq_zero_iff]
  intro nobody
  rw [nobody thread] at holds
  cases holds

theorem count_congr {property other : Place → Bool} {place : Thread → Place}
    (same : ∀ thread, property (place thread) = other (place thread)) :
    count property place = count other place :=
  Finset.sum_congr rfl fun thread _ => by rw [same thread]

theorem count_eq_single {property : Place → Bool} {place : Thread → Place} {thread : Thread}
    (others : ∀ other, other ≠ thread → property (place other) = false) :
    count property place = (property (place thread)).toNat := by
  rw [count, Finset.sum_eq_single thread]
  · intro other _ elsewhere
    rw [others other elsewhere]
    rfl
  · intro absent
    exact absurd (Finset.mem_univ thread) absent

section Update

variable [DecidableEq Thread]

/-- A sum over the threads, when one of them changes its summand. -/
theorem sum_changed (before after : Thread → Nat) (thread : Thread)
    (elsewhere : ∀ other, other ≠ thread → after other = before other) :
    ∑ other, after other + before thread = ∑ other, before other + after thread := by
  have others : ∑ other ∈ Finset.univ.erase thread, after other =
      ∑ other ∈ Finset.univ.erase thread, before other :=
    Finset.sum_congr rfl fun other member => elsewhere other (Finset.ne_of_mem_erase member)
  rw [← Finset.add_sum_erase _ _ (Finset.mem_univ thread),
    ← Finset.add_sum_erase _ before (Finset.mem_univ thread), others]
  omega

theorem count_update (property : Place → Bool) (place : Thread → Place) (thread : Thread)
    (next : Place) :
    count property (Function.update place thread next) + (property (place thread)).toNat =
      count property place + (property next).toNat := by
  have elsewhere : ∀ other ∈ Finset.univ.erase thread,
      (property (Function.update place thread next other)).toNat =
        (property (place other)).toNat := by
    intro other member
    rw [Function.update_of_ne (Finset.ne_of_mem_erase member)]
  rw [count, count, ← Finset.add_sum_erase _ _ (Finset.mem_univ thread),
    ← Finset.add_sum_erase _ _ (Finset.mem_univ thread), Function.update_self,
    Finset.sum_congr rfl elsewhere]
  omega

theorem count_update_same {property : Place → Bool} {place : Thread → Place} {thread : Thread}
    {next : Place} (same : property next = property (place thread)) :
    count property (Function.update place thread next) = count property place := by
  have moved := count_update property place thread next
  rw [same] at moved
  omega

/-- A thread that moves to where it does not count. -/
theorem count_leaves (property : Place → Bool) (place : Thread → Place) (thread : Thread)
    (next : Place) (outside : property next = false) :
    count property (Function.update place thread next) + (property (place thread)).toNat =
      count property place := by
  rw [count_update, outside]
  rfl

end Update

end OsLabs.Counting
