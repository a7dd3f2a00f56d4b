import OsLabs.Lib.Counting

/-!
# Owners of locks

Threads whose place says whether they own a lock.  `Owner` names the only one
that does, and the lemmas are the ways ownership can go on when one thread
moves: not at all, with the same owner, to a new owner or to nobody.  `Owners`
is the same for any number of locks, each with its owner on record.
-/

set_option autoImplicit false

namespace OsLabs.Exclusive

open OsLabs.Counting

universe u v

variable {Thread : Type u} {Place : Type v} {owns : Place → Bool} {place : Thread → Place}
  {holder : Option Thread} {thread : Thread} {next : Place}

/-- The holder, if there is one, and no other thread owns the lock. -/
def Owner (owns : Place → Bool) (place : Thread → Place) (holder : Option Thread) : Prop :=
  ∀ thread, owns (place thread) = true ↔ holder = some thread

theorem Owner.unique (owner : Owner owns place holder) {first second : Thread}
    (firstOwns : owns (place first) = true) (secondOwns : owns (place second) = true) :
    first = second := by
  have same := (owner first).mp firstOwns
  rw [(owner second).mp secondOwns, Option.some.injEq] at same
  exact same.symm

theorem Owner.not_owns (owner : Owner owns place none) (thread : Thread) :
    owns (place thread) = false := by
  rw [Bool.eq_false_iff, Ne, owner thread]
  simp

section Update

variable [DecidableEq Thread]

/-- The thread owns the lock before and after, or neither before nor after. -/
theorem Owner.keeps (owner : Owner owns place holder) (same : owns next = owns (place thread)) :
    Owner owns (Function.update place thread next) holder := by
  intro other
  by_cases here : other = thread
  · rw [here, Function.update_self, same]
    exact owner thread
  · rw [Function.update_of_ne here]
    exact owner other

theorem Owner.takes (owner : Owner owns place none) (after : owns next = true) :
    Owner owns (Function.update place thread next) (some thread) := by
  intro other
  by_cases here : other = thread
  · simp [here, after]
  · rw [Function.update_of_ne here, owner other]
    simp [Ne.symm here]

theorem Owner.gives (owner : Owner owns place (some thread)) (after : owns next = false) :
    Owner owns (Function.update place thread next) none := by
  intro other
  by_cases here : other = thread
  · simp [here, after]
  · rw [Function.update_of_ne here, owner other]
    simp [Ne.symm here]

end Update

/-- A property that only the owner can have is counted at the owner. -/
theorem Owner.count_eq [Fintype Thread] [DecidableEq Thread] (owner : Owner owns place holder)
    {property : Place → Bool} (owners : ∀ place, property place = true → owns place = true) :
    count property place = holder.elim 0 fun thread => (property (place thread)).toNat := by
  cases holder with
  | none =>
      rw [Option.elim_none, count_eq_zero_iff]
      intro thread
      by_contra has
      have notOwner := owner.not_owns thread
      rw [owners _ (by simpa using has)] at notOwner
      cases notOwner
  | some thread =>
      rw [Option.elim_some]
      refine count_eq_single fun other elsewhere => ?_
      by_contra has
      have isHolder := (owner other).mp (owners _ (by simpa using has))
      exact elsewhere (Option.some.inj isHolder).symm

/-! ## Several locks -/

section Locks

universe w

variable {Lock : Type w} {holds : Place → Lock → Prop} {owner : Lock → Option Thread} {lock : Lock}

/-- Every lock is owned by the thread whose place holds it. -/
def Owners (holds : Place → Lock → Prop) (place : Thread → Place) (owner : Lock → Option Thread) :
    Prop :=
  ∀ lock thread, owner lock = some thread ↔ holds (place thread) lock

theorem Owners.unique (owners : Owners holds place owner) {first second : Thread}
    (firstHolds : holds (place first) lock) (secondHolds : holds (place second) lock) :
    first = second := by
  have same := (owners lock first).mpr firstHolds
  rw [(owners lock second).mpr secondHolds, Option.some.injEq] at same
  exact same.symm

section Update

variable [DecidableEq Thread] [DecidableEq Lock]

omit [DecidableEq Lock] in
theorem Owners.keeps (owners : Owners holds place owner)
    (same : ∀ other, holds next other ↔ holds (place thread) other) :
    Owners holds (Function.update place thread next) owner := by
  intro other another
  by_cases here : another = thread
  · rw [here, Function.update_self, same]
    exact owners other thread
  · rw [Function.update_of_ne here]
    exact owners other another

theorem Owners.takes (owners : Owners holds place owner) (free : owner lock = none)
    (after : ∀ other, holds next other ↔ holds (place thread) other ∨ other = lock) :
    Owners holds (Function.update place thread next)
      (Function.update owner lock (some thread)) := by
  intro other another
  by_cases isLock : other = lock
  · subst isLock
    rw [Function.update_self]
    by_cases here : another = thread
    · simp [here, after]
    · have notOwner := owners other another
      rw [free] at notOwner
      rw [Function.update_of_ne here, ← notOwner]
      simp [Ne.symm here]
  · rw [Function.update_of_ne isLock, owners other another]
    by_cases here : another = thread
    · simp [here, after, isLock]
    · rw [Function.update_of_ne here]

theorem Owners.gives (owners : Owners holds place owner) (had : holds (place thread) lock)
    (after : ∀ other, holds next other ↔ holds (place thread) other ∧ other ≠ lock) :
    Owners holds (Function.update place thread next) (Function.update owner lock none) := by
  intro other another
  by_cases isLock : other = lock
  · subst isLock
    rw [Function.update_self]
    by_cases here : another = thread
    · simp [here, after]
    · rw [Function.update_of_ne here]
      constructor
      · intro isNone
        cases isNone
      · intro otherHolds
        exact absurd (owners.unique otherHolds had) here
  · rw [Function.update_of_ne isLock, owners other another]
    by_cases here : another = thread
    · simp [here, after, isLock]
    · rw [Function.update_of_ne here]

omit [DecidableEq Lock] in
/-- A thread hands all that it holds to one that holds nothing. -/
theorem Owners.passes (owners : Owners holds place owner) {giver receiver : Thread}
    {left : Place} (idle : ∀ lock, ¬ holds (place receiver) lock)
    (nothing : ∀ lock, ¬ holds left lock)
    (same : ∀ lock, holds next lock ↔ holds (place giver) lock) :
    Owners holds (Function.update (Function.update place giver left) receiver next)
      (fun lock => if owner lock = some giver then some receiver else owner lock) := by
  intro lock another
  have idleOwner : owner lock ≠ some receiver := fun owned =>
    idle lock ((owners lock receiver).mp owned)
  by_cases isReceiver : another = receiver
  · rw [isReceiver, Function.update_self, same, ← owners lock giver]
    by_cases owned : owner lock = some giver
    · simp [owned]
    · simp [owned, idleOwner]
  · rw [Function.update_of_ne isReceiver]
    by_cases isGiver : another = giver
    · rw [isGiver, Function.update_self]
      have different : receiver ≠ giver := fun isSame => isReceiver (isGiver.trans isSame.symm)
      refine ⟨fun owned => ?_, fun held => absurd held (nothing lock)⟩
      by_cases given : owner lock = some giver
      · simp [given, different] at owned
      · simp [given] at owned
    · rw [Function.update_of_ne isGiver, ← owners lock another]
      by_cases owned : owner lock = some giver
      · simp [owned, Ne.symm isReceiver, Ne.symm isGiver]
      · simp [owned]

end Update

end Locks

end OsLabs.Exclusive
