import Mathlib.Data.List.MinMax
import Mathlib.Logic.Function.Basic
import Mathlib.Order.Basic
import Mathlib.Order.Defs.LinearOrder

/-!
# Recency from coarse timestamps

Keys are accessed one after the other; `position` is where in the history a key
was last accessed and `time` is what a clock showed there.  A clock that may
show the same value several times only gives a monotone image of the history
(`Faithful`).  `firstOldest_leastRecent_iff` says exactly when the first key
with the smallest time, in a list ordered by insertion, is the least recently
accessed one.
-/

set_option autoImplicit false

namespace OsLabs.Recency

universe u v

variable {Key : Type u} {Time : Type v}

/-- The least recently accessed of the keys. -/
def LeastRecent (position : Key → Nat) (keys : List Key) (key : Key) : Prop :=
  key ∈ keys ∧ ∀ other ∈ keys, position key ≤ position other

theorem exists_leastRecent (position : Key → Nat) {keys : List Key} (nonempty : keys ≠ []) :
    ∃ key, LeastRecent position keys key := by
  have some := mt (List.argmin_eq_none (f := position)).mp nonempty
  obtain ⟨key, least⟩ := Option.ne_none_iff_exists'.mp some
  refine ⟨key, List.argmin_mem least, ?_⟩
  intro other member
  exact List.le_of_mem_argmin member least

section Order

variable [LinearOrder Time]

/-- The times of the keys follow the order of their accesses, all of which lie
before `length` in the history and at or before `clock` in time. -/
structure Faithful (position : Key → Nat) (time : Key → Time) (length : Nat) (clock : Time)
    (keys : List Key) : Prop where
  monotone : ∀ first ∈ keys, ∀ second ∈ keys,
    position first ≤ position second → time first ≤ time second
  distinct : ∀ first ∈ keys, ∀ second ∈ keys, position first = position second → first = second
  past : ∀ key ∈ keys, position key < length
  elapsed : ∀ key ∈ keys, time key ≤ clock

variable {position : Key → Nat} {time : Key → Time} {length : Nat} {clock : Time}
  {keys : List Key}

theorem faithful_nil (position : Key → Nat) (time : Key → Time) (length : Nat) (clock : Time) :
    Faithful position time length clock [] :=
  ⟨by simp, by simp, by simp, by simp⟩

theorem Faithful.subset (faithful : Faithful position time length clock keys) {fewer : List Key}
    (contained : ∀ key ∈ fewer, key ∈ keys) : Faithful position time length clock fewer where
  monotone first inFirst second inSecond :=
    faithful.monotone first (contained first inFirst) second (contained second inSecond)
  distinct first inFirst second inSecond :=
    faithful.distinct first (contained first inFirst) second (contained second inSecond)
  past key member := faithful.past key (contained key member)
  elapsed key member := faithful.elapsed key (contained key member)

theorem Faithful.congr (faithful : Faithful position time length clock keys)
    {otherTime : Key → Time} (same : ∀ key ∈ keys, otherTime key = time key) :
    Faithful position otherTime length clock keys where
  monotone first inFirst second inSecond ordered := by
    rw [same first inFirst, same second inSecond]
    exact faithful.monotone first inFirst second inSecond ordered
  distinct := faithful.distinct
  past := faithful.past
  elapsed key member := by
    rw [same key member]
    exact faithful.elapsed key member

theorem Faithful.wait (faithful : Faithful position time length clock keys) {later : Time}
    (passed : clock ≤ later) : Faithful position time (length + 1) later keys where
  monotone := faithful.monotone
  distinct := faithful.distinct
  past key member := Nat.lt_succ_of_lt (faithful.past key member)
  elapsed key member := (faithful.elapsed key member).trans passed

/-- The next access: its key comes last in the history. -/
theorem Faithful.access [DecidableEq Key] (faithful : Faithful position time length clock keys)
    (key : Key) {now : Time} (passed : clock ≤ now) :
    Faithful (Function.update position key length) (Function.update time key now) (length + 1) now
      (key :: keys) := by
  have others : ∀ other ∈ key :: keys, other ≠ key → other ∈ keys := by
    intro other member different
    exact (List.mem_cons.mp member).resolve_left different
  refine ⟨?_, ?_, ?_, ?_⟩
  · intro first inFirst second inSecond ordered
    by_cases isSecond : second = key
    · subst second
      by_cases isFirst : first = key
      · rw [isFirst]
      · have before := faithful.elapsed first (others first inFirst isFirst)
        simpa [isFirst] using before.trans passed
    · by_cases isFirst : first = key
      · -- the newest access is before no other one
        have before := faithful.past second (others second inSecond isSecond)
        simp [isFirst, isSecond] at ordered
        omega
      · simp only [Function.update_of_ne isFirst, Function.update_of_ne isSecond] at ordered ⊢
        exact faithful.monotone first (others first inFirst isFirst) second
          (others second inSecond isSecond) ordered
  · intro first inFirst second inSecond same
    by_cases isFirst : first = key
    · by_cases isSecond : second = key
      · rw [isFirst, isSecond]
      · have before := faithful.past second (others second inSecond isSecond)
        simp [isFirst, isSecond] at same
        omega
    · have before := faithful.past first (others first inFirst isFirst)
      by_cases isSecond : second = key
      · simp [isFirst, isSecond] at same
        omega
      · simp only [Function.update_of_ne isFirst, Function.update_of_ne isSecond] at same
        exact faithful.distinct first (others first inFirst isFirst) second
          (others second inSecond isSecond) same
  · intro other member
    by_cases isKey : other = key
    · simp [isKey]
    · have before := faithful.past other (others other member isKey)
      simp only [Function.update_of_ne isKey]
      omega
  · intro other member
    by_cases isKey : other = key
    · simp [isKey]
    · simp only [Function.update_of_ne isKey]
      exact (faithful.elapsed other (others other member isKey)).trans passed

/-- In a list ordered by insertion, newest first, the first key with the
smallest time is the least recently accessed one unless a key inserted after
that one carries the same time. -/
theorem firstOldest_leastRecent_iff {front back : List Key} {oldest : Key} {inserted : Key → Nat}
    (faithful : Faithful position time length clock (front ++ oldest :: back))
    (newestFirst : (front ++ oldest :: back).Pairwise
      fun newer older => inserted older < inserted newer)
    (newerBefore : ∀ key ∈ front, time oldest < time key)
    (notOlderAfter : ∀ key ∈ back, time oldest ≤ time key) :
    LeastRecent position (front ++ oldest :: back) oldest ↔
      ∀ lru, LeastRecent position (front ++ oldest :: back) lru →
        ∀ other ∈ front ++ oldest :: back, inserted lru < inserted other →
          time other ≠ time lru := by
  have pairs := List.pairwise_append.mp newestFirst
  have afterOldest := (List.pairwise_cons.mp pairs.2.1).1
  have here : oldest ∈ front ++ oldest :: back := by simp
  constructor
  · intro least lru lruLeast other member insertedLater
    have isOldest : lru = oldest := by
      apply faithful.distinct lru lruLeast.1 oldest here
      exact Nat.le_antisymm (lruLeast.2 oldest here) (least.2 lru lruLeast.1)
    rw [isOldest] at insertedLater ⊢
    rcases List.mem_append.mp member with inFront | inRest
    · exact (newerBefore other inFront).ne'
    · rcases List.mem_cons.mp inRest with isOther | inBack
      · rw [isOther] at insertedLater
        exact absurd insertedLater (Nat.lt_irrefl _)
      · exact absurd (afterOldest other inBack) (by omega)
  · intro noTie
    -- the least recent key has the smallest time, so it does not stand in front
    obtain ⟨lru, lruMember, lruLeast⟩ := exists_leastRecent position (List.ne_nil_of_mem here)
    have smallest := faithful.monotone lru lruMember oldest here (lruLeast oldest here)
    rcases List.mem_append.mp lruMember with inFront | inRest
    · exact absurd smallest (not_le_of_gt (newerBefore lru inFront))
    · rcases List.mem_cons.mp inRest with isOldest | inBack
      · subst lru
        exact ⟨here, lruLeast⟩
      · have tie : time oldest = time lru := le_antisymm (notOlderAfter lru inBack) smallest
        exact absurd tie (noTie lru ⟨lruMember, lruLeast⟩ oldest here (afterOldest lru inBack))

end Order

end OsLabs.Recency
