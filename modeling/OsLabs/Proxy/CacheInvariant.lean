import OsLabs.Proxy.Cache

/-!
# The representation invariant of the cache

Any sequence of calls on the empty cache, each taken as one critical section of
`cacheMutex`, runs without a fault and leaves a well-formed list behind.  Since
every prefix of a sequence is a sequence, this holds between any two calls.
-/

set_option autoImplicit false

namespace OsLabs.Proxy

open OsLabs.CString OsLabs.Linked

/-- A call with what the environment answers in it: the time and the block
`malloc` offers.  The pointer given to `deleteEntry` may be stale. -/
inductive CacheCall where
  | getCacheEntry (url : List Byte) (now : Int)
  | addNewEntry (url : List Byte) (now : Int) (offered : Option Addr)
  | deleteEntry (entry : Option Addr)
  | cacheCleanUp

namespace Cache

def runCall (fuel : Nat) (s : Cache) : CacheCall → Except Fault Cache
  | .getCacheEntry url now => do
      let (_, after) ← getCacheEntry fuel s url now
      .ok after
  | .addNewEntry url now offered => do
      let (_, after) ← addNewEntry fuel s url now offered
      .ok after
  | .deleteEntry entry => deleteEntry fuel s entry
  | .cacheCleanUp => cacheCleanUp fuel s

def runCalls (fuel : Nat) : Cache → List CacheCall → Except Fault Cache
  | s, [] => .ok s
  | s, call :: rest => do
      let after ← runCall fuel s call
      runCalls fuel after rest

/-- The chain from `cache` ends, repeats no entry and runs through allocated
entries only; `cacheSize` is its length and within the bound. -/
structure WellFormed (s : Cache) : Prop where
  chained : ∃ chain, Chain s.heap CacheEntry.next s.cache chain ∧ chain.Nodup ∧
    (∀ addr ∈ chain, ∃ entry, s.heap addr = some entry) ∧ s.cacheSize = chain.length
  bounded : s.cacheSize ≤ cacheMaxSize

/-- The invariant the calls preserve: nothing but the chain is allocated, so a
new block never lies on it. -/
def Holds (s : Cache) : Prop :=
  ∃ chain, s.Represents chain ∧ chain.length ≤ cacheMaxSize

theorem Holds.wellFormed {s : Cache} (holds : s.Holds) : s.WellFormed := by
  obtain ⟨chain, represents, short⟩ := holds
  refine ⟨⟨chain, represents.linked, represents.linked.nodup, represents.linked.allocated,
    represents.counted⟩, ?_⟩
  rw [represents.counted]
  exact short

theorem empty_holds : empty.Holds := ⟨[], empty_represents, Nat.zero_le _⟩

theorem linkNewEntry_holds {s : Cache} {chain : List Addr} (represents : s.Represents chain)
    (room : chain.length < cacheMaxSize) (url : List Byte) (now : Int) (offered : Option Addr) :
    (s.linkNewEntry url now offered).2.Holds := by
  cases allocated : s.malloc offered with
  | none =>
      rw [linkNewEntry_none url now allocated]
      exact ⟨chain, represents, room.le⟩
  | some addr =>
      rw [linkNewEntry_some url now allocated]
      exact ⟨addr :: chain,
        linked_represents represents addr (malloc_unused allocated) url now, room⟩

section Calls

variable {fuel : Nat} (enough : cacheMaxSize < fuel)

include enough

theorem getCacheEntry_holds {s : Cache} (holds : s.Holds) (url : List Byte) (now : Int) :
    ∃ found after, getCacheEntry fuel s url now = .ok (found, after) ∧ after.Holds := by
  obtain ⟨chain, represents, short⟩ := holds
  rw [getCacheEntry_spec fuel s url now chain represents (Nat.lt_of_le_of_lt short enough)]
  cases chain.find? (s.holdsUrl url) with
  | none => exact ⟨none, s, rfl, chain, represents, short⟩
  | some hit =>
      exact ⟨some hit, s.touch hit now, rfl, chain, touch_represents represents hit now, short⟩

theorem addNewEntry_holds {s : Cache} (holds : s.Holds) (url : List Byte) (now : Int)
    (offered : Option Addr) :
    ∃ added after, addNewEntry fuel s url now offered = .ok (added, after) ∧ after.Holds := by
  obtain ⟨chain, represents, short⟩ := holds
  obtain ⟨evicted, rest, ran, remains, room, _⟩ :=
    makeRoom_spec fuel s chain represents short enough
  refine ⟨(evicted.linkNewEntry url now offered).1, (evicted.linkNewEntry url now offered).2, ?_,
    linkNewEntry_holds remains room url now offered⟩
  simp only [addNewEntry, ran, ok_bind]

theorem deleteEntry_holds {s : Cache} (holds : s.Holds) (entry : Option Addr) :
    ∃ after, deleteEntry fuel s entry = .ok after ∧ after.Holds := by
  obtain ⟨chain, represents, short⟩ := holds
  rcases deleteEntry_spec fuel s entry chain represents (Nat.lt_of_le_of_lt short enough) with
    ⟨addr, _, _, after, ran, shorter, _⟩ | ⟨_, same⟩
  · exact ⟨after, ran, chain.erase addr, shorter, List.length_erase_le.trans short⟩
  · exact ⟨s, same, chain, represents, short⟩

theorem cacheCleanUp_holds {s : Cache} (holds : s.Holds) :
    ∃ after, cacheCleanUp fuel s = .ok after ∧ after.Holds := by
  obtain ⟨chain, represents, short⟩ := holds
  obtain ⟨after, ran, cleared⟩ :=
    cacheCleanUp_spec fuel s chain represents (Nat.lt_of_le_of_lt short enough)
  exact ⟨after, ran, [], cleared, Nat.zero_le _⟩

theorem runCall_holds {s : Cache} (holds : s.Holds) (call : CacheCall) :
    ∃ after, runCall fuel s call = .ok after ∧ after.Holds := by
  cases call with
  | getCacheEntry url now =>
      obtain ⟨found, after, ran, still⟩ := getCacheEntry_holds enough holds url now
      exact ⟨after, by simp only [runCall, ran, ok_bind], still⟩
  | addNewEntry url now offered =>
      obtain ⟨added, after, ran, still⟩ := addNewEntry_holds enough holds url now offered
      exact ⟨after, by simp only [runCall, ran, ok_bind], still⟩
  | deleteEntry entry => exact deleteEntry_holds enough holds entry
  | cacheCleanUp => exact cacheCleanUp_holds enough holds

theorem runCalls_holds {s : Cache} (holds : s.Holds) (calls : List CacheCall) :
    ∃ after, runCalls fuel s calls = .ok after ∧ after.Holds := by
  induction calls generalizing s with
  | nil => exact ⟨s, rfl, holds⟩
  | cons call rest ih =>
      obtain ⟨middle, ran, between⟩ := runCall_holds enough holds call
      obtain ⟨after, restRan, still⟩ := ih between
      exact ⟨after, by simp only [runCalls, ran, ok_bind, restRan], still⟩

end Calls

/-- No call dereferences a freed pointer, frees an entry twice or runs around
in a cycle, and the list is well formed after every call. -/
theorem calls_keep_wellFormed (extra : Nat) (calls : List CacheCall) :
    ∃ after, runCalls (cacheMaxSize + 1 + extra) empty calls = .ok after ∧ after.WellFormed := by
  have enough : cacheMaxSize < cacheMaxSize + 1 + extra := by omega
  obtain ⟨after, ran, holds⟩ := runCalls_holds enough empty_holds calls
  exact ⟨after, ran, holds.wellFormed⟩

end Cache

end OsLabs.Proxy
