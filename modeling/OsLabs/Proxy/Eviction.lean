import OsLabs.Lib.Recency
import OsLabs.Lib.Transition
import OsLabs.Proxy.Cache

/-!
# Which entry addNewEntry evicts

Histories of `addNewEntry` and `getCacheEntry` calls under a clock with a
resolution of one second.  `removeOldest` scans the list from the most recent
insertion on and replaces its candidate only by a strictly older entry, so
among entries with the smallest time it takes the one inserted last.
-/

set_option autoImplicit false

namespace OsLabs.Proxy

open OsLabs.CString OsLabs.Linked OsLabs.Recency OsLabs.Transition

inductive Access where
  | addNewEntry (url : List Byte) (offered : Option Addr)
  | getCacheEntry (url : List Byte)

/-- A call, and the seconds the clock advances before it. -/
structure TimedAccess where
  elapsed : Nat
  access : Access

/-- The cache with its history: how many calls were made, and which of them
inserted and last accessed the entry that is now at an address. -/
structure Traced where
  cache : Cache
  clock : Int
  length : Nat
  accessedAt : Addr → Nat
  insertedAt : Addr → Nat

def mark (positions : Addr → Nat) (addr : Option Addr) (position : Nat) : Addr → Nat :=
  match addr with
  | some addr => Function.update positions addr position
  | none => positions

def accessStep (state : Traced) (timed : TimedAccess) : Option Traced :=
  let now := state.clock + timed.elapsed
  match timed.access with
  | .addNewEntry url offered =>
      match Cache.addNewEntry traversalFuel state.cache url now offered with
      | .error _ => none
      | .ok (added, after) => some
          { cache := after
            clock := now
            length := state.length + 1
            accessedAt := mark state.accessedAt added state.length
            insertedAt := mark state.insertedAt added state.length }
  | .getCacheEntry url =>
      match Cache.getCacheEntry traversalFuel state.cache url now with
      | .error _ => none
      | .ok (found, after) => some
          { cache := after
            clock := now
            length := state.length + 1
            accessedAt := mark state.accessedAt found state.length
            insertedAt := state.insertedAt }

/-- The histories that start when the clock shows `epoch`. -/
def accesses (epoch : Int) : System Traced TimedAccess where
  init := ⟨.empty, epoch, 0, fun _ => 0, fun _ => 0⟩
  step := accessStep

/-- `removeOldest` takes the least recently accessed entry off the list. -/
def EvictsLeastRecent (state : Traced) : Prop :=
  ∃ chain evicted after, state.cache.Cached chain ∧
    Cache.removeOldest traversalFuel state.cache = .ok after ∧
    after.Cached (chain.erase evicted) ∧ LeastRecent state.accessedAt chain evicted

/-- No entry inserted after the least recently accessed one was last accessed
in the same second as that one. -/
def NoLaterTie (state : Traced) : Prop :=
  ∀ chain lru, state.cache.Cached chain → LeastRecent state.accessedAt chain lru →
    ∀ other ∈ chain, state.insertedAt lru < state.insertedAt other →
      state.cache.timeOf other ≠ state.cache.timeOf lru

/-- The call is an `addNewEntry` that finds the cache full. -/
def Evicting (state : Traced) (timed : TimedAccess) : Prop :=
  (∃ url offered, timed.access = .addNewEntry url offered) ∧
    cacheMaxSize ≤ state.cache.cacheSize

/-! ## The invariant of a history -/

structure Ordered (state : Traced) (chain : List Addr) : Prop where
  represents : state.cache.Represents chain
  short : chain.length ≤ cacheMaxSize
  faithful : Faithful state.accessedAt state.cache.timeOf state.length state.clock chain
  newestFirst : chain.Pairwise fun newer older =>
    state.insertedAt older < state.insertedAt newer
  insertedBefore : ∀ addr ∈ chain, state.insertedAt addr < state.length

def Traced.Holds (state : Traced) : Prop := ∃ chain, Ordered state chain

theorem accesses_start (epoch : Int) : (accesses epoch).init.Holds :=
  ⟨[], Cache.empty_represents, Nat.zero_le _, faithful_nil _ _ _ _, List.Pairwise.nil, by simp⟩

theorem Ordered.hit {state : Traced} {chain : List Addr} (ordered : Ordered state chain)
    {addr : Addr} (member : addr ∈ chain) {now : Int} (passed : state.clock ≤ now) :
    Ordered
      { cache := state.cache.touch addr now
        clock := now
        length := state.length + 1
        accessedAt := mark state.accessedAt (some addr) state.length
        insertedAt := state.insertedAt } chain where
  represents := Cache.touch_represents ordered.represents addr now
  short := ordered.short
  faithful := by
    have accessed : Faithful _ _ _ _ chain := (ordered.faithful.access addr passed).subset
      fun _ inChain => List.mem_cons_of_mem _ inChain
    apply accessed.congr
    intro other _
    obtain ⟨entry, loaded⟩ := ordered.represents.linked.allocated addr member
    by_cases here : other = addr
    · rw [here]
      have touched : (state.cache.touch addr now).heap addr =
          some { entry with lastAccessTime := now } := by
        rw [Cache.touch, Cache.modify_heap_self, loaded, Option.map_some]
      rw [Cache.timeOf_of_some touched, Function.update_self]
    · rw [Function.update_of_ne here]
      simp only [Cache.timeOf, Cache.touch, Cache.modify_heap_other _ _ here]
  newestFirst := ordered.newestFirst
  insertedBefore other inChain := Nat.lt_succ_of_lt (ordered.insertedBefore other inChain)

theorem Ordered.wait {state : Traced} {chain : List Addr} (ordered : Ordered state chain)
    {now : Int} (passed : state.clock ≤ now) :
    Ordered { state with clock := now, length := state.length + 1 } chain where
  represents := ordered.represents
  short := ordered.short
  faithful := ordered.faithful.wait passed
  newestFirst := ordered.newestFirst
  insertedBefore other inChain := Nat.lt_succ_of_lt (ordered.insertedBefore other inChain)

/-- What is left after an eviction is still in order. -/
theorem Ordered.evict {state : Traced} {chain rest : List Addr} (ordered : Ordered state chain)
    {roomy : Cache} (represents : roomy.Represents rest) (fewer : rest.Sublist chain)
    (unchanged : ∀ addr ∈ rest, roomy.view addr = state.cache.view addr) :
    Ordered { state with cache := roomy } rest where
  represents := represents
  short := fewer.length_le.trans ordered.short
  faithful := (ordered.faithful.subset fun _ inRest => fewer.subset inRest).congr
    fun addr inRest => Cache.timeOf_of_view (unchanged addr inRest)
  newestFirst := ordered.newestFirst.sublist fewer
  insertedBefore addr inRest := ordered.insertedBefore addr (fewer.subset inRest)

theorem Ordered.insert {state : Traced} {chain : List Addr} (ordered : Ordered state chain)
    {addr : Addr} (unused : state.cache.heap addr = none) (room : chain.length < cacheMaxSize)
    (url : List Byte) {now : Int} (passed : state.clock ≤ now) :
    Ordered
      { cache := { state.cache.store addr (newEntry url now state.cache.cache) with
          cache := some addr, cacheSize := state.cache.cacheSize + 1 }
        clock := now
        length := state.length + 1
        accessedAt := mark state.accessedAt (some addr) state.length
        insertedAt := mark state.insertedAt (some addr) state.length } (addr :: chain) where
  represents := Cache.linked_represents ordered.represents addr unused url now
  short := room
  faithful := by
    apply (ordered.faithful.access addr passed).congr
    intro other _
    by_cases here : other = addr
    · subst other
      simp [Cache.timeOf, Cache.store, newEntry]
    · simp [Cache.timeOf, Cache.store, Function.update_of_ne here]
  newestFirst := by
    have off : addr ∉ chain := fun member => (ordered.represents.mem_iff addr).mp member unused
    have others : ∀ other ∈ chain, mark state.insertedAt (some addr) state.length other =
        state.insertedAt other := by
      intro other member
      have different : other ≠ addr := fun same => off (same ▸ member)
      simp [mark, Function.update_of_ne different]
    apply List.Pairwise.cons
    · intro other member
      simp only [others other member]
      simpa [mark] using ordered.insertedBefore other member
    · apply ordered.newestFirst.imp_of_mem
      intro newer older inNewer inOlder before
      simp only [others newer inNewer, others older inOlder]
      exact before
  insertedBefore other member := by
    by_cases here : other = addr
    · simp [mark, here]
    · have inChain := (List.mem_cons.mp member).resolve_left here
      simp only [mark, Function.update_of_ne here]
      exact Nat.lt_succ_of_lt (ordered.insertedBefore other inChain)

theorem accessStep_holds (state : Traced) (timed : TimedAccess) (holds : state.Holds) :
    ∃ next, accessStep state timed = some next ∧ next.Holds := by
  obtain ⟨chain, ordered⟩ := holds
  have enough : cacheMaxSize < traversalFuel := Nat.lt_succ_self _
  obtain ⟨elapsed, access⟩ := timed
  have passed : state.clock ≤ state.clock + elapsed := by omega
  cases access with
  | addNewEntry url offered =>
      obtain ⟨roomy, rest, ran, represents, room, fewer, unchanged⟩ :=
        Cache.makeRoom_spec traversalFuel state.cache chain ordered.represents ordered.short enough
      have evicted := ordered.evict represents fewer unchanged
      cases allocated : roomy.malloc offered with
      | none =>
          refine ⟨_, ?_, rest, evicted.wait passed⟩
          simp only [accessStep, Cache.addNewEntry, ran, Cache.ok_bind,
            Cache.linkNewEntry_none url _ allocated, mark]
      | some addr =>
          refine ⟨_, ?_, addr :: rest,
            evicted.insert (Cache.malloc_unused allocated) room url passed⟩
          simp only [accessStep, Cache.addNewEntry, ran, Cache.ok_bind,
            Cache.linkNewEntry_some url _ allocated]
  | getCacheEntry url =>
      have found := Cache.getCacheEntry_spec traversalFuel state.cache url
        (state.clock + elapsed) chain ordered.represents (Nat.lt_of_le_of_lt ordered.short enough)
      cases searched : chain.find? (state.cache.holdsUrl url) with
      | none =>
          rw [searched] at found
          refine ⟨_, ?_, chain, ordered.wait passed⟩
          simp only [accessStep, found, mark]
      | some hit =>
          rw [searched] at found
          refine ⟨_, ?_, chain, ordered.hit (List.mem_of_find?_eq_some searched) passed⟩
          simp only [accessStep, found]

/-! ## Least recently used, exactly when there is no tie -/

theorem evictsLeastRecent_iff (state : Traced) (holds : state.Holds)
    (full : cacheMaxSize ≤ state.cache.cacheSize) :
    EvictsLeastRecent state ↔ NoLaterTie state := by
  obtain ⟨chain, ordered⟩ := holds
  have linked := ordered.represents.linked
  have nonempty : chain ≠ [] := by
    intro isEmpty
    rw [ordered.represents.counted, isEmpty] at full
    simp [cacheMaxSize] at full
  obtain ⟨front, oldest, back, after, ran, split, first, remains, _⟩ :=
    Cache.removeOldest_spec traversalFuel state.cache chain ordered.represents nonempty
      (Nat.lt_succ_of_le ordered.short)
  have notFront : oldest ∉ front := by
    have distinct := linked.nodup
    rw [split, List.nodup_append] at distinct
    exact fun member => distinct.2.2 oldest member oldest (by simp) rfl
  have erased : chain.erase oldest = front ++ back := by
    rw [split, List.erase_append_right _ notFront, List.erase_cons_head]
  have exactly : LeastRecent state.accessedAt chain oldest ↔ ∀ lru,
      LeastRecent state.accessedAt chain lru → ∀ other ∈ chain,
        state.insertedAt lru < state.insertedAt other →
          state.cache.timeOf other ≠ state.cache.timeOf lru := by
    have faithful := ordered.faithful
    have newestFirst := ordered.newestFirst
    rw [split] at faithful newestFirst ⊢
    exact firstOldest_leastRecent_iff faithful newestFirst first.newerBefore first.notOlderAfter
  constructor
  · intro assumed
    obtain ⟨other, evicted, left, otherLinked, otherRan, leftLinked, least⟩ := assumed
    have sameChain : other = chain := otherLinked.unique linked
    rw [ran] at otherRan
    cases otherRan
    have sameRest := leftLinked.unique remains.linked
    rw [sameChain] at least sameRest
    rw [← erased] at sameRest
    -- the entry missing from the list is the one the scan stopped at
    have isOldest : evicted = oldest := by
      by_contra different
      have kept : oldest ∈ chain.erase evicted :=
        (List.mem_erase_of_ne (Ne.symm different)).mpr (by simp [split])
      rw [sameRest, linked.nodup.mem_erase_iff] at kept
      exact kept.1 rfl
    rw [isOldest] at least
    intro anyChain lru anyLinked lruLeast
    have same : anyChain = chain := anyLinked.unique linked
    rw [same] at lruLeast ⊢
    exact exactly.mp least lru lruLeast
  · intro noTie
    refine ⟨chain, oldest, after, linked, ran, ?_, ?_⟩
    · rw [Cache.Cached, erased]
      exact remains.linked
    · exact exactly.mpr fun lru lruLeast => noTie chain lru linked lruLeast

/-- Every history runs to its end, and all its evictions hit the least recently
accessed entry exactly when none of them meets a tie of that kind. -/
theorem evictions_least_recent_iff (epoch : Int) (history : List TimedAccess) :
    (∃ final, (accesses epoch).run (accesses epoch).init history = some final) ∧
      ((accesses epoch).Meets (fun state timed => Evicting state timed → EvictsLeastRecent state)
          (accesses epoch).init history ↔
        (accesses epoch).Meets (fun state timed => Evicting state timed → NoLaterTie state)
          (accesses epoch).init history) := by
  constructor
  · obtain ⟨final, ran, _⟩ := System.run_total (S := accesses epoch) Traced.Holds accessStep_holds
      (accesses epoch).init history (accesses_start epoch)
    exact ⟨final, ran⟩
  · refine System.meets_congr _ _ Traced.Holds ?_ ?_ _ history (accesses_start epoch)
    · intro state timed next holds stepped
      obtain ⟨other, otherStepped, still⟩ := accessStep_holds state timed holds
      rw [show accessStep state timed = some next from stepped, Option.some.injEq] at otherStepped
      rw [otherStepped]
      exact still
    · intro state timed holds
      exact imp_congr_right fun evicting => evictsLeastRecent_iff state holds evicting.2

/-- Six insertions within one second, of six URLs. -/
def sixInsertions : List TimedAccess :=
  (List.range 6).map fun n =>
    ⟨0, .addNewEntry (text "http://example.com/" ++ [UInt8.ofNat (97 + n)]) (some n)⟩

/-- The sixth insertion evicts the fifth entry, not the first. -/
theorem newest_evicted_on_tie :
    ¬ (accesses 0).Meets (fun state timed => Evicting state timed → EvictsLeastRecent state)
      (accesses 0).init sixInsertions := by
  intro met
  have evicts := (System.Meets.at_step (sixInsertions.take 5) [] met rfl rfl)
    ⟨⟨_, _, rfl⟩, by decide⟩
  obtain ⟨chain, evicted, after, cached, ran, remaining, member, least⟩ := evicts
  have isChain : chain = [4, 3, 2, 1, 0] :=
    cached.unique ⟨rfl, _, rfl, rfl, _, rfl, rfl, _, rfl, rfl, _, rfl, rfl, _, rfl, rfl⟩
  subst chain
  have isFirst : evicted = 0 := by
    have earliest := least 0 (by decide)
    rcases List.mem_cons.mp member with four | member
    · exact absurd earliest (by rw [four]; decide)
    rcases List.mem_cons.mp member with three | member
    · exact absurd earliest (by rw [three]; decide)
    rcases List.mem_cons.mp member with two | member
    · exact absurd earliest (by rw [two]; decide)
    rcases List.mem_cons.mp member with one | member
    · exact absurd earliest (by rw [one]; decide)
    exact List.mem_singleton.mp member
  subst evicted
  -- the first entry should be gone, but the head of the list is
  have stillHead : after.cache = some 4 := remaining.1
  have newHead := congrArg (fun removed => (removed.toOption).bind Cache.cache) ran
  rw [show (Except.ok after : Except Fault Cache).toOption.bind Cache.cache = after.cache from rfl,
    stillHead] at newHead
  exact absurd newHead (by decide)

end OsLabs.Proxy
