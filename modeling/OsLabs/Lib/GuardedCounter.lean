import OsLabs.Lib.Exclusive

/-!
# A counter under a lock

Threads that own a lock load a shared counter and store one more.  `Guarded`
says that the counter is the number of sections that were left, and one more
while the owner of the lock has stored.  The lemmas go with those of `Owner`.
-/

set_option autoImplicit false

namespace OsLabs.Exclusive

open OsLabs.Counting

universe u v

variable {Thread : Type u} {Place : Type v} {owns stored : Place → Bool}
  {loads : Place → Option Int} {place : Thread → Place} {holder : Option Thread}
  {thread : Thread} {current next : Place} {completed : Nat} {counter : Int}

/-- `stored` are the places behind the increment, and `loads` gives the value
that is loaded and not stored yet. -/
structure Guarded (owns stored : Place → Bool) (loads : Place → Option Int)
    (place : Thread → Place) (holder : Option Thread) (completed : Nat) (counter : Int) :
    Prop where
  owner : Owner owns place holder
  counted :
    counter = completed + (holder.elim 0 fun thread => (stored (place thread)).toNat : Nat)
  loaded : ∀ thread value, loads (place thread) = some value → value = counter

namespace Guarded

theorem start (notOwns : owns next = false) (notLoads : loads next = none) :
    Guarded owns stored loads (fun _ : Thread => next) none 0 0 where
  owner thread := by simp [notOwns]
  counted := rfl
  loaded thread value isLoaded := by
    rw [notLoads] at isLoaded
    cases isLoaded

/-- A thread that owns the lock is the holder, and knows the counter. -/
theorem at_holder (guarded : Guarded owns stored loads place holder completed counter)
    (here : place thread = current) (isOwner : owns current = true) :
    holder = some thread ∧ counter = completed + ((stored current).toNat : Nat) := by
  subst here
  obtain rfl := (guarded.owner thread).mp isOwner
  exact ⟨rfl, guarded.counted⟩

theorem counter_eq_of_nobody (guarded : Guarded owns stored loads place holder completed counter)
    (nobody : ∀ thread, owns (place thread) = false) : holder = none ∧ counter = completed := by
  have isNone : holder = none := by
    cases holder with
    | none => rfl
    | some thread =>
        have isOwner := (guarded.owner thread).mpr rfl
        rw [nobody thread] at isOwner
        cases isOwner
  subst isNone
  exact ⟨rfl, by simpa using guarded.counted⟩

/-- Only the owner has incremented the counter. -/
theorem counter_eq_count [Fintype Thread] [DecidableEq Thread]
    (guarded : Guarded owns stored loads place holder completed counter)
    (owners : ∀ place, stored place = true → owns place = true) :
    counter = completed + count stored place := by
  rw [guarded.owner.count_eq owners]
  exact guarded.counted

section Update

variable [DecidableEq Thread]

/-- Where the counter does not change, what is loaded stays right. -/
theorem loaded_update (guarded : Guarded owns stored loads place holder completed counter)
    (notLoads : loads next = none) :
    ∀ other value, loads (Function.update place thread next other) = some value →
      value = counter := by
  intro other value isLoaded
  by_cases here : other = thread
  · rw [here, Function.update_self, notLoads] at isLoaded
    cases isLoaded
  · rw [Function.update_of_ne here] at isLoaded
    exact guarded.loaded other value isLoaded

/-- The thread goes on without the counter. -/
theorem moves (guarded : Guarded owns stored loads place holder completed counter)
    (sameOwns : owns next = owns (place thread)) (sameStored : stored next = stored (place thread))
    (notLoads : loads next = none) :
    Guarded owns stored loads (Function.update place thread next) holder completed counter := by
  have same : ∀ other, stored (Function.update place thread next other) = stored (place other) := by
    intro other
    by_cases here : other = thread
    · rw [here, Function.update_self, sameStored]
    · rw [Function.update_of_ne here]
  refine ⟨guarded.owner.keeps sameOwns, ?_, guarded.loaded_update notLoads⟩
  simp only [same]
  exact guarded.counted

/-- The holder goes on, and may load or store. -/
theorem holds (guarded : Guarded owns stored loads place (some thread) completed counter)
    (loaders : ∀ place value, loads place = some value → owns place = true)
    (after : owns next = true) {left : Nat} {value : Int}
    (counted : value = left + ((stored next).toNat : Nat))
    (loaded : ∀ read, loads next = some read → read = value) :
    Guarded owns stored loads (Function.update place thread next) (some thread) left value := by
  have before : owns (place thread) = true := (guarded.owner thread).mpr rfl
  refine ⟨guarded.owner.keeps (after.trans before.symm), ?_, ?_⟩
  · rw [Option.elim_some, Function.update_self]
    exact counted
  · intro other read isLoaded
    by_cases here : other = thread
    · rw [here, Function.update_self] at isLoaded
      exact loaded read isLoaded
    · rw [Function.update_of_ne here] at isLoaded
      exact absurd (guarded.owner.unique (loaders _ _ isLoaded) before) here

theorem takes (guarded : Guarded owns stored loads place none completed counter)
    (after : owns next = true) (notStored : stored next = false) (notLoads : loads next = none) :
    Guarded owns stored loads (Function.update place thread next) (some thread) completed
      counter := by
  refine ⟨guarded.owner.takes after, ?_, guarded.loaded_update notLoads⟩
  rw [Option.elim_some, Function.update_self, notStored]
  exact guarded.counted

/-- The holder leaves behind its increment. -/
theorem gives (guarded : Guarded owns stored loads place (some thread) completed counter)
    (after : owns next = false) (increased : stored (place thread) = true)
    (notLoads : loads next = none) :
    Guarded owns stored loads (Function.update place thread next) none (completed + 1)
      counter := by
  refine ⟨guarded.owner.gives after, ?_, guarded.loaded_update notLoads⟩
  have counted := guarded.counted
  rw [Option.elim_some, increased] at counted
  rw [Option.elim_none, counted]
  simp

end Update

end Guarded

end OsLabs.Exclusive
