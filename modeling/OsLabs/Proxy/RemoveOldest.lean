import OsLabs.Proxy.Cache

/-!
# One eviction

`removeOldest` on any list that is not empty, its lock taken as granted: with
any times and any order of them, it takes the first of the oldest entries out
and leaves the others as they were.
-/

set_option autoImplicit false

namespace OsLabs.Proxy

open OsLabs.Linked

namespace Cache

/-- The entry at `oldest` is unlinked from between `front` and `back`, freed and
no longer counted, and this is all that happens. -/
structure TakenOut (before after : Cache) (front : List Addr) (oldest : Addr) (back : List Addr) :
    Prop where
  linked : after.Cached (front ++ back)
  first : after.cache = (front ++ back).head?
  freed : ∀ addr, before.heap addr ≠ none ∧ after.heap addr = none ↔ addr = oldest
  kept : ∀ addr, addr ≠ oldest → after.view addr = before.view addr
  counted : after.cacheSize + 1 = before.cacheSize

theorem Cached.head {s : Cache} {chain : List Addr} (cached : s.Cached chain) :
    s.cache = chain.head? := by
  cases chain with
  | nil => exact cached
  | cons addr rest => exact cached.1

/-- Where others keep their contents, nothing but the entry is freed. -/
theorem freed_iff {before after : Cache} {oldest : Addr} (wasAllocated : before.heap oldest ≠ none)
    (freed : after.heap oldest = none)
    (kept : ∀ addr, addr ≠ oldest → after.view addr = before.view addr) (addr : Addr) :
    before.heap addr ≠ none ∧ after.heap addr = none ↔ addr = oldest := by
  constructor
  · intro assumed
    obtain ⟨allocated, gone⟩ := assumed
    by_contra other
    have same := kept addr other
    rw [(view_eq_none_iff after addr).mpr gone] at same
    exact allocated ((view_eq_none_iff before addr).mp same.symm)
  · intro isOldest
    rw [isOldest]
    exact ⟨wasAllocated, freed⟩

theorem unlinkEntry_takesOut {s : Cache} {front back : List Addr} {oldest : Addr}
    (cached : s.Cached (front ++ oldest :: back)) (positive : 0 < s.cacheSize) :
    ∃ removed, s.unlinkEntry oldest front.getLast? = .ok removed ∧
      s.TakenOut { removed with cacheSize := removed.cacheSize - 1 } front oldest back := by
  obtain ⟨entry, loaded⟩ := cached.allocated oldest (by simp)
  have wasAllocated : s.heap oldest ≠ none := by
    rw [loaded]
    exact Option.some_ne_none entry
  obtain ⟨removed, ran, linked, freed, kept, counted⟩ :=
    unlinkEntry_spec s front back oldest cached
  refine ⟨removed, ran, linked, Cached.head linked, freed_iff wasAllocated freed kept, kept, ?_⟩
  rw [counted]
  exact Nat.sub_add_cancel positive

theorem FirstOldest.minimal {s : Cache} {front back : List Addr} {oldest : Addr}
    (first : s.FirstOldest front oldest back) :
    ∀ addr ∈ front ++ oldest :: back, s.timeOf oldest ≤ s.timeOf addr := by
  intro addr member
  rcases List.mem_append.mp member with inFront | inRest
  · exact Int.le_of_lt (first.newerBefore addr inFront)
  · rcases List.mem_cons.mp inRest with isOldest | inBack
    · exact Int.le_of_eq (congrArg s.timeOf isOldest).symm
    · exact first.notOlderAfter addr inBack

/-- `removeOldest` unlinks and frees exactly one entry, the first of those with
the smallest `lastAccessTime`. -/
theorem removeOldest_takes_first_oldest (fuel : Nat) (s : Cache) (chain : List Addr)
    (cached : s.Cached chain) (nonempty : chain ≠ []) (positive : 0 < s.cacheSize)
    (enough : chain.length < fuel) :
    ∃ front oldest back after, removeOldest fuel s = .ok after ∧
      chain = front ++ oldest :: back ∧
      (∀ addr ∈ chain, s.timeOf oldest ≤ s.timeOf addr) ∧
      (∀ addr ∈ front, s.timeOf oldest < s.timeOf addr) ∧
      s.TakenOut after front oldest back := by
  cases chain with
  | nil => exact absurd rfl nonempty
  | cons head rest =>
      have isHead := Cached.head cached
      have linked : Chain s.heap CacheEntry.next (some head) (head :: rest) := by
        rw [Cached, isHead] at cached
        exact cached
      obtain ⟨front, oldest, back, scanned, split, first⟩ :=
        scanOldest_chain fuel s head rest linked enough
      rw [split] at cached
      obtain ⟨removed, ran, takenOut⟩ := unlinkEntry_takesOut cached positive
      refine ⟨front, oldest, back, _, ?_, split, ?_, first.newerBefore, takenOut⟩
      · simp only [removeOldest, isHead, List.head?_cons, scanned, ok_bind, ran]
      · rw [split]
        exact first.minimal

/-- Two of three entries have the smallest time. -/
def threeEntries : Cache where
  heap addr :=
    if addr = 3 then some (newEntry [97] 9 (some 2))
    else if addr = 2 then some (newEntry [98] 4 (some 1))
    else if addr = 1 then some (newEntry [99] 4 none)
    else none
  cache := some 3
  cacheSize := 3

theorem threeEntries_evicts :
    threeEntries.Cached [3, 2, 1] ∧
      ∃ front oldest back after, removeOldest 4 threeEntries = .ok after ∧
        [3, 2, 1] = front ++ oldest :: back ∧
        (∀ addr ∈ [3, 2, 1], threeEntries.timeOf oldest ≤ threeEntries.timeOf addr) ∧
        (∀ addr ∈ front, threeEntries.timeOf oldest < threeEntries.timeOf addr) ∧
        threeEntries.TakenOut after front oldest back := by
  have cached : threeEntries.Cached [3, 2, 1] := ⟨rfl, _, rfl, rfl, _, rfl, rfl, _, rfl, rfl⟩
  exact ⟨cached, removeOldest_takes_first_oldest 4 threeEntries [3, 2, 1] cached (by decide)
    (by decide) (by decide)⟩

end Cache

end OsLabs.Proxy
