import OsLabs.Lib.Linked
import OsLabs.Proxy.Entry

/-!
# The cache list

The operations of `cache.c` on the list that starts at `cache`, each as it runs
while its caller holds `cacheMutex`.  A traversal takes fuel; dereferencing a
pointer that is not allocated, freeing an entry twice and running out of fuel
are faults.  `Represents` relates the pointers to the list of the addresses
they chain up, and every operation has one specification in its terms: it does
not fault, and it is an operation on that list.
-/

set_option autoImplicit false

namespace OsLabs.Proxy

open OsLabs.CString OsLabs.Linked

inductive Fault where
  | invalidPointer
  | doubleFree
  | fuelExhausted
  deriving DecidableEq

/-- Enough for a traversal of any list the cache can hold. -/
def traversalFuel : Nat := cacheMaxSize + 1

/-- The allocated entries and the global variables `cache` and `cacheSize`. -/
structure Cache where
  heap : Addr → Option CacheEntry
  cache : Option Addr
  cacheSize : Nat

namespace Cache

def empty : Cache := ⟨fun _ => none, none, 0⟩

def load (s : Cache) (addr : Addr) : Except Fault CacheEntry :=
  match s.heap addr with
  | some entry => .ok entry
  | none => .error .invalidPointer

def store (s : Cache) (addr : Addr) (entry : CacheEntry) : Cache :=
  { s with heap := Function.update s.heap addr (some entry) }

def free (s : Cache) (addr : Addr) : Except Fault Cache :=
  match s.heap addr with
  | some _ => .ok { s with heap := Function.update s.heap addr none }
  | none => .error .doubleFree

/-- `malloc` may answer with any block that is not in use, or with NULL. -/
def malloc (s : Cache) (offered : Option Addr) : Option Addr :=
  offered.filter fun addr => (s.heap addr).isNone

/-- The relinking and freeing that `removeOldest` and `deleteEntry` share. -/
def unlinkEntry (s : Cache) (addr : Addr) (previous : Option Addr) : Except Fault Cache := do
  let entry ← s.load addr
  let relinked ← match previous with
    | some before => do
        let beforeEntry ← s.load before
        .ok (s.store before { beforeEntry with next := entry.next })
    | none => .ok { s with cache := entry.next }
  relinked.free addr

/-- The loop of `removeOldest`: the oldest entry and its predecessor. -/
def scanOldest (s : Cache) : Nat → Option Addr → Option Addr → Addr → Option Addr →
    Except Fault (Addr × Option Addr)
  | 0, _, _, _, _ => .error .fuelExhausted
  | _ + 1, none, _, oldest, prevOldest => .ok (oldest, prevOldest)
  | fuel + 1, some addr, previous, oldest, prevOldest => do
      let entry ← s.load addr
      let oldestEntry ← s.load oldest
      if entry.lastAccessTime < oldestEntry.lastAccessTime then
        scanOldest s fuel entry.next (some addr) addr previous
      else scanOldest s fuel entry.next (some addr) oldest prevOldest

def removeOldest (fuel : Nat) (s : Cache) : Except Fault Cache :=
  match s.cache with
  | none => .ok s
  | some first => do
      let (oldest, prevOldest) ← scanOldest s fuel (some first) none first none
      let removed ← s.unlinkEntry oldest prevOldest
      .ok { removed with cacheSize := removed.cacheSize - 1 }

/-- The loop of `getCacheEntry`. -/
def findUrl (s : Cache) (url : List Byte) (now : Int) :
    Nat → Option Addr → Except Fault (Option Addr × Cache)
  | 0, _ => .error .fuelExhausted
  | _ + 1, none => .ok (none, s)
  | fuel + 1, some addr => do
      let entry ← s.load addr
      if entry.hasUrl url then .ok (some addr, s.store addr { entry with lastAccessTime := now })
      else findUrl s url now fuel entry.next

def getCacheEntry (fuel : Nat) (s : Cache) (url : List Byte) (now : Int) :
    Except Fault (Option Addr × Cache) := findUrl s url now fuel s.cache

/-- `addNewEntry` after the eviction: allocate, initialise, link in front. -/
def linkNewEntry (s : Cache) (url : List Byte) (now : Int) (offered : Option Addr) :
    Option Addr × Cache :=
  match s.malloc offered with
  | none => (none, s)
  | some addr =>
      (some addr, { s.store addr (newEntry url now s.cache) with
        cache := some addr, cacheSize := s.cacheSize + 1 })

/-- The first part of `addNewEntry`, its call of `removeOldest` running under
the lock held. -/
def makeRoom (fuel : Nat) (s : Cache) : Except Fault Cache :=
  if cacheMaxSize ≤ s.cacheSize then removeOldest fuel s else .ok s

def addNewEntry (fuel : Nat) (s : Cache) (url : List Byte) (now : Int) (offered : Option Addr) :
    Except Fault (Option Addr × Cache) := do
  let roomy ← makeRoom fuel s
  .ok (roomy.linkNewEntry url now offered)

/-- The loop of `deleteEntry`. -/
def deleteFrom (s : Cache) (target : Option Addr) :
    Nat → Option Addr → Option Addr → Except Fault Cache
  | 0, _, _ => .error .fuelExhausted
  | _ + 1, none, _ => .ok s
  | fuel + 1, some addr, previous =>
      if some addr = target then do
        let removed ← s.unlinkEntry addr previous
        .ok { removed with cacheSize := removed.cacheSize - 1 }
      else do
        let entry ← s.load addr
        deleteFrom s target fuel entry.next (some addr)

def deleteEntry (fuel : Nat) (s : Cache) (entry : Option Addr) : Except Fault Cache :=
  deleteFrom s entry fuel s.cache none

/-- The loop of `cacheCleanUp`. -/
def freeAll : Nat → Cache → Option Addr → Except Fault Cache
  | 0, _, _ => .error .fuelExhausted
  | _ + 1, s, none => .ok s
  | fuel + 1, s, some addr => do
      let entry ← s.load addr
      let freed ← s.free addr
      freeAll fuel freed entry.next

def cacheCleanUp (fuel : Nat) (s : Cache) : Except Fault Cache := do
  let freed ← freeAll fuel s s.cache
  .ok { freed with cache := none, cacheSize := 0 }

/-- A change to an entry in place; nothing is left to change once it is freed. -/
def modify (s : Cache) (addr : Addr) (change : CacheEntry → CacheEntry) : Cache :=
  match s.heap addr with
  | some entry => s.store addr (change entry)
  | none => s

/-! ## The list behind the pointers -/

/-- The entries on the list, the most recently inserted one first. -/
def Cached (s : Cache) (chain : List Addr) : Prop :=
  Chain s.heap CacheEntry.next s.cache chain

/-- The pointers chain up exactly these addresses, nothing else is allocated,
and `cacheSize` is their number. -/
structure Represents (s : Cache) (chain : List Addr) : Prop where
  linked : Chain s.heap CacheEntry.next s.cache chain
  counted : s.cacheSize = chain.length
  onlyChain : ∀ addr, s.heap addr ≠ none → addr ∈ chain

/-- An entry apart from its link. -/
def view (s : Cache) (addr : Addr) : Option CacheEntry :=
  (s.heap addr).map fun entry => { entry with next := none }

theorem view_eq_none_iff (s : Cache) (addr : Addr) : s.view addr = none ↔ s.heap addr = none := by
  simp [view]

/-- `after` is `before` without the entry at `addr`. -/
structure Removed (before after : Cache) (addr : Addr) : Prop where
  freed : after.heap addr = none
  others : ∀ other, other ≠ addr → after.view other = before.view other
  counted : after.cacheSize = before.cacheSize - 1

theorem ok_bind {α β : Type} (value : α) (continue_ : α → Except Fault β) :
    (Except.ok value >>= continue_) = continue_ value := rfl

theorem load_of_some {s : Cache} {addr : Addr} {entry : CacheEntry}
    (loaded : s.heap addr = some entry) : s.load addr = .ok entry := by
  simp [load, loaded]

theorem empty_represents : empty.Represents [] :=
  ⟨rfl, rfl, fun _ allocated => absurd rfl allocated⟩

theorem Represents.mem_iff {s : Cache} {chain : List Addr} (represents : s.Represents chain)
    (addr : Addr) : addr ∈ chain ↔ s.heap addr ≠ none := by
  constructor
  · intro member
    obtain ⟨entry, loaded⟩ := represents.linked.allocated addr member
    simp [loaded]
  · exact represents.onlyChain addr

/-! ## Changing an entry in place -/

theorem modify_heap_self (s : Cache) (addr : Addr) (change : CacheEntry → CacheEntry) :
    (s.modify addr change).heap addr = (s.heap addr).map change := by
  unfold modify
  cases loaded : s.heap addr with
  | none => simp [loaded]
  | some entry => simp [store]

theorem modify_heap_other (s : Cache) {addr other : Addr} (change : CacheEntry → CacheEntry)
    (different : other ≠ addr) : (s.modify addr change).heap other = s.heap other := by
  unfold modify
  split
  · simp [store, Function.update_of_ne different]
  · rfl

@[simp] theorem modify_cache (s : Cache) (addr : Addr) (change : CacheEntry → CacheEntry) :
    (s.modify addr change).cache = s.cache := by
  unfold modify
  split <;> rfl

@[simp] theorem modify_cacheSize (s : Cache) (addr : Addr) (change : CacheEntry → CacheEntry) :
    (s.modify addr change).cacheSize = s.cacheSize := by
  unfold modify
  split <;> rfl

theorem modify_represents {s : Cache} {chain : List Addr} (represents : s.Represents chain)
    (addr : Addr) {change : CacheEntry → CacheEntry}
    (keepsNext : ∀ entry, (change entry).next = entry.next) :
    (s.modify addr change).Represents chain := by
  refine ⟨?_, by rw [modify_cacheSize]; exact represents.counted, ?_⟩
  · rw [modify_cache]
    apply represents.linked.congr
    intro visited _ entry loaded
    by_cases here : visited = addr
    · subst addr
      exact ⟨change entry, by rw [modify_heap_self, loaded, Option.map_some], keepsNext entry⟩
    · exact ⟨entry, by rw [modify_heap_other s change here, loaded], rfl⟩
  · intro other allocated
    apply represents.onlyChain
    intro unallocated
    by_cases here : other = addr
    · subst addr
      exact allocated (by rw [modify_heap_self, unallocated, Option.map_none])
    · exact allocated (by rw [modify_heap_other s change here, unallocated])

/-! ## Taking an entry out -/

theorem unlinkEntry_spec (s : Cache) (front back : List Addr) (addr : Addr)
    (linked : Chain s.heap CacheEntry.next s.cache (front ++ addr :: back)) :
    ∃ after, s.unlinkEntry addr front.getLast? = .ok after ∧
      Chain after.heap CacheEntry.next after.cache (front ++ back) ∧
      after.heap addr = none ∧ (∀ other, other ≠ addr → after.view other = s.view other) ∧
      after.cacheSize = s.cacheSize := by
  have distinct := linked.nodup
  rw [List.nodup_append, List.nodup_cons] at distinct
  obtain ⟨_, ⟨notBack, _⟩, apart⟩ := distinct
  obtain ⟨entry, loaded⟩ := linked.allocated addr (by simp)
  rcases List.eq_nil_or_concat front with isHead | ⟨init, before, split⟩
  · subst front
    obtain ⟨_, headEntry, headLoaded, tail⟩ := linked
    rw [loaded, Option.some.injEq] at headLoaded
    subst headEntry
    refine ⟨{ s with heap := Function.update s.heap addr none, cache := entry.next }, ?_,
      tail.update_off addr none notBack, Function.update_self _ _ _, ?_, rfl⟩
    · simp [unlinkEntry, load_of_some loaded, ok_bind, free, loaded]
    · intro other different
      simp [view, Function.update_of_ne different]
  · rw [List.concat_eq_append] at split
    subst front
    have beforeNe : before ≠ addr := apart before (by simp) addr (by simp)
    obtain ⟨beforeEntry, beforeLoaded⟩ := linked.allocated before (by simp)
    rw [List.append_assoc, List.singleton_append] at linked
    have unlinked := linked.unlink { beforeEntry with next := entry.next } loaded rfl
    refine ⟨{ s with heap := Function.update (Function.update s.heap before
      (some { beforeEntry with next := entry.next })) addr none }, ?_, ?_,
      Function.update_self _ _ _, ?_, rfl⟩
    · simp [unlinkEntry, load_of_some loaded, load_of_some beforeLoaded, ok_bind, free, store,
        Function.update_of_ne beforeNe.symm, loaded]
    · rw [List.append_assoc, List.singleton_append]
      exact unlinked
    · intro other different
      by_cases isBefore : other = before
      · subst other
        simp [view, Function.update_of_ne different, beforeLoaded]
      · simp [view, Function.update_of_ne different, Function.update_of_ne isBefore]

/-- The entry and its count taken out: what `removeOldest` and `deleteEntry` do
to the entry they have found. -/
theorem unlinkEntry_represents (s : Cache) (front back : List Addr) (addr : Addr)
    (represents : s.Represents (front ++ addr :: back)) :
    ∃ removed, s.unlinkEntry addr front.getLast? = .ok removed ∧
      Represents { removed with cacheSize := removed.cacheSize - 1 } (front ++ back) ∧
      Removed s { removed with cacheSize := removed.cacheSize - 1 } addr := by
  obtain ⟨removed, ran, linked, freed, others, counted⟩ :=
    unlinkEntry_spec s front back addr represents.linked
  refine ⟨removed, ran, ⟨linked, ?_, ?_⟩, ⟨freed, others, by rw [counted]⟩⟩
  · have size := represents.counted
    simp only [List.length_append, List.length_cons] at size
    simp only [counted, size, List.length_append]
    omega
  · intro other allocated
    have different : other ≠ addr := by
      intro same
      exact allocated (by rw [same]; exact freed)
    have before : s.heap other ≠ none := by
      intro unallocated
      have seen := others other different
      rw [(view_eq_none_iff s other).mpr unallocated, view_eq_none_iff] at seen
      exact allocated seen
    have member := represents.onlyChain other before
    simp only [List.mem_append, List.mem_cons, different, false_or] at member ⊢
    exact member

/-! ## removeOldest -/

/-- `lastAccessTime` of an allocated entry. -/
def timeOf (s : Cache) (addr : Addr) : Int :=
  match s.heap addr with
  | some entry => entry.lastAccessTime
  | none => 0

theorem timeOf_of_some {s : Cache} {addr : Addr} {entry : CacheEntry}
    (loaded : s.heap addr = some entry) : s.timeOf addr = entry.lastAccessTime := by
  simp [timeOf, loaded]

theorem timeOf_of_view {s other : Cache} {addr : Addr} (same : other.view addr = s.view addr) :
    other.timeOf addr = s.timeOf addr := by
  cases loaded : s.heap addr with
  | none =>
      rw [(view_eq_none_iff s addr).mpr loaded, view_eq_none_iff] at same
      simp [timeOf, loaded, same]
  | some entry =>
      simp only [view, loaded, Option.map_some, Option.map_eq_some_iff] at same
      obtain ⟨otherEntry, otherLoaded, apart⟩ := same
      have sameTime := congrArg CacheEntry.lastAccessTime apart
      rw [timeOf_of_some loaded, timeOf_of_some otherLoaded]
      exact sameTime

/-- `oldest` stands between `front` and `back`, and it is the first of the
entries with the smallest time. -/
structure FirstOldest (s : Cache) (front : List Addr) (oldest : Addr) (back : List Addr) :
    Prop where
  newerBefore : ∀ addr ∈ front, s.timeOf oldest < s.timeOf addr
  notOlderAfter : ∀ addr ∈ back, s.timeOf oldest ≤ s.timeOf addr

theorem FirstOldest.skip {s : Cache} {front middle : List Addr} {oldest : Addr}
    (first : s.FirstOldest front oldest middle) (addr : Addr)
    (notOlder : s.timeOf oldest ≤ s.timeOf addr) :
    s.FirstOldest front oldest (middle ++ [addr]) := by
  refine ⟨first.newerBefore, ?_⟩
  intro other member
  rcases List.mem_append.mp member with inMiddle | isAddr
  · exact first.notOlderAfter other inMiddle
  · rw [List.mem_singleton.mp isAddr]
    exact notOlder

theorem FirstOldest.replace {s : Cache} {front middle : List Addr} {oldest : Addr}
    (first : s.FirstOldest front oldest middle) (addr : Addr)
    (older : s.timeOf addr < s.timeOf oldest) :
    s.FirstOldest (front ++ oldest :: middle) addr [] := by
  refine ⟨?_, by simp⟩
  intro other member
  rcases List.mem_append.mp member with inFront | inRest
  · have newer := first.newerBefore other inFront
    omega
  · rcases List.mem_cons.mp inRest with isOldest | inMiddle
    · rw [isOldest]
      exact older
    · have notOlder := first.notOlderAfter other inMiddle
      omega

/-- The scan over `rest`, after `front`, the oldest so far, and `middle`. -/
theorem scanOldest_spec (s : Cache) (rest : List Addr) (fuel : Nat) (entry : Option Addr)
    (front middle : List Addr) (oldest : Addr) (enough : rest.length < fuel)
    (linked : Chain s.heap CacheEntry.next entry rest) (allocated : s.heap oldest ≠ none)
    (first : s.FirstOldest front oldest middle) :
    ∃ front' oldest' back', s.scanOldest fuel entry (front ++ oldest :: middle).getLast? oldest
        front.getLast? = .ok (oldest', front'.getLast?) ∧
      front' ++ oldest' :: back' = front ++ oldest :: middle ++ rest ∧
      s.FirstOldest front' oldest' back' := by
  induction rest generalizing fuel entry front middle oldest with
  | nil =>
      obtain ⟨fuel, rfl⟩ : ∃ n, fuel = n + 1 := ⟨fuel - 1, by omega⟩
      have isNone : entry = none := linked
      subst entry
      exact ⟨front, oldest, middle, rfl, by simp, first⟩
  | cons addr rest ih =>
      obtain ⟨fuel, rfl⟩ : ∃ n, fuel = n + 1 := ⟨fuel - 1, by simp at enough; omega⟩
      have shorter : rest.length < fuel := by simpa using enough
      obtain ⟨isAddr, cell, loaded, tail⟩ := linked
      obtain ⟨oldestCell, oldestLoaded⟩ := Option.ne_none_iff_exists'.mp allocated
      subst entry
      simp only [scanOldest, load_of_some loaded, load_of_some oldestLoaded, ok_bind]
      by_cases older : cell.lastAccessTime < oldestCell.lastAccessTime
      · have replaced := first.replace addr
          (by rwa [timeOf_of_some loaded, timeOf_of_some oldestLoaded])
        have found := ih fuel cell.next (front ++ oldest :: middle) [] addr shorter tail
          (by simp [loaded]) replaced
        rw [List.getLast?_concat] at found
        rw [if_pos older]
        simpa using found
      · have skipped := first.skip addr
          (by rw [timeOf_of_some loaded, timeOf_of_some oldestLoaded]; omega)
        have found := ih fuel cell.next front (middle ++ [addr]) oldest shorter tail allocated
          skipped
        rw [← List.cons_append, ← List.append_assoc, List.getLast?_concat] at found
        rw [if_neg older]
        simpa using found

/-- The scan over the whole list. -/
theorem scanOldest_chain (fuel : Nat) (s : Cache) (head : Addr) (rest : List Addr)
    (linked : Chain s.heap CacheEntry.next (some head) (head :: rest))
    (enough : (head :: rest).length < fuel) :
    ∃ front oldest back,
      s.scanOldest fuel (some head) none head none = .ok (oldest, front.getLast?) ∧
        head :: rest = front ++ oldest :: back ∧ s.FirstOldest front oldest back := by
  obtain ⟨fuel, rfl⟩ : ∃ n, fuel = n + 1 := ⟨fuel - 1, by simp at enough; omega⟩
  have shorter : rest.length < fuel := by simpa using enough
  obtain ⟨_, cell, loaded, tail⟩ := linked
  obtain ⟨front, oldest, back, scanned, split, first⟩ :=
    scanOldest_spec s rest fuel cell.next [] [] head shorter tail (by simp [loaded])
      ⟨by simp, by simp⟩
  refine ⟨front, oldest, back, ?_, by simpa using split.symm, first⟩
  -- the first pass compares the head with itself
  simp only [scanOldest, load_of_some loaded, ok_bind]
  simpa using scanned

/-- `removeOldest` takes out the first entry with the smallest time. -/
theorem removeOldest_spec (fuel : Nat) (s : Cache) (chain : List Addr)
    (represents : s.Represents chain) (nonempty : chain ≠ []) (enough : chain.length < fuel) :
    ∃ front oldest back after, removeOldest fuel s = .ok after ∧
      chain = front ++ oldest :: back ∧ s.FirstOldest front oldest back ∧
      after.Represents (front ++ back) ∧ Removed s after oldest := by
  cases chain with
  | nil => exact absurd rfl nonempty
  | cons head rest =>
      have isHead := represents.linked.1
      have linked := represents.linked
      rw [isHead] at linked
      obtain ⟨front, oldest, back, scan, split, first⟩ :=
        scanOldest_chain fuel s head rest linked enough
      rw [split] at represents
      obtain ⟨removed, ran, shorterChain, removal⟩ :=
        unlinkEntry_represents s front back oldest represents
      refine ⟨front, oldest, back, { removed with cacheSize := removed.cacheSize - 1 }, ?_,
        split, first, shorterChain, removal⟩
      simp only [removeOldest, isHead, scan, ok_bind, ran]

/-! ## getCacheEntry -/

def holdsUrl (s : Cache) (url : List Byte) (addr : Addr) : Bool :=
  (s.heap addr).any fun entry => entry.hasUrl url

/-- An access at time `now`. -/
def touch (s : Cache) (addr : Addr) (now : Int) : Cache :=
  s.modify addr fun entry => { entry with lastAccessTime := now }

theorem findUrl_spec (s : Cache) (url : List Byte) (now : Int) (chain : List Addr)
    (fuel : Nat) (head : Option Addr) (enough : chain.length < fuel)
    (linked : Chain s.heap CacheEntry.next head chain) :
    s.findUrl url now fuel head =
      match chain.find? (s.holdsUrl url) with
      | some hit => .ok (some hit, s.touch hit now)
      | none => .ok (none, s) := by
  induction chain generalizing fuel head with
  | nil =>
      obtain ⟨fuel, rfl⟩ : ∃ n, fuel = n + 1 := ⟨fuel - 1, by simp at enough; omega⟩
      have isNone : head = none := linked
      subst head
      rfl
  | cons addr rest ih =>
      obtain ⟨fuel, rfl⟩ : ∃ n, fuel = n + 1 := ⟨fuel - 1, by simp at enough; omega⟩
      have shorter : rest.length < fuel := by simpa using enough
      obtain ⟨isHead, entry, loaded, tail⟩ := linked
      subst head
      have same : s.holdsUrl url addr = entry.hasUrl url := by simp [holdsUrl, loaded]
      simp only [findUrl, load_of_some loaded, ok_bind, List.find?_cons, same]
      cases found : entry.hasUrl url with
      | true => simp [touch, modify, loaded]
      | false => simpa using ih fuel entry.next shorter tail

theorem getCacheEntry_spec (fuel : Nat) (s : Cache) (url : List Byte) (now : Int)
    (chain : List Addr) (represents : s.Represents chain) (enough : chain.length < fuel) :
    getCacheEntry fuel s url now =
      match chain.find? (s.holdsUrl url) with
      | some hit => .ok (some hit, s.touch hit now)
      | none => .ok (none, s) :=
  findUrl_spec s url now chain fuel s.cache enough represents.linked

theorem touch_represents {s : Cache} {chain : List Addr} (represents : s.Represents chain)
    (addr : Addr) (now : Int) : (s.touch addr now).Represents chain :=
  modify_represents represents addr fun _ => rfl

/-! ## addNewEntry -/

/-- After the eviction there is room for one entry more. -/
theorem makeRoom_spec (fuel : Nat) (s : Cache) (chain : List Addr)
    (represents : s.Represents chain) (short : chain.length ≤ cacheMaxSize)
    (enough : cacheMaxSize < fuel) :
    ∃ roomy rest, makeRoom fuel s = .ok roomy ∧ roomy.Represents rest ∧
      rest.length < cacheMaxSize ∧ rest.Sublist chain ∧
      ∀ addr ∈ rest, roomy.view addr = s.view addr := by
  unfold makeRoom
  by_cases full : cacheMaxSize ≤ s.cacheSize
  · have length : chain.length = cacheMaxSize :=
      Nat.le_antisymm short (by rw [← represents.counted]; exact full)
    have nonempty : chain ≠ [] := by
      intro isEmpty
      rw [isEmpty] at length
      simp [cacheMaxSize] at length
    obtain ⟨front, oldest, back, after, ran, split, _, shorter, removal⟩ :=
      removeOldest_spec fuel s chain represents nonempty (by omega)
    refine ⟨after, front ++ back, by rw [if_pos full, ran], shorter, ?_, ?_, ?_⟩
    · rw [split] at length
      simp only [List.length_append, List.length_cons] at length ⊢
      omega
    · rw [split]
      exact (List.sublist_cons_self oldest back).append_left front
    · intro addr member
      apply removal.others
      intro isOldest
      subst addr
      exact (shorter.mem_iff oldest).mp member removal.freed
  · refine ⟨s, chain, by rw [if_neg full], represents, ?_, List.Sublist.refl _, fun _ _ => rfl⟩
    rw [← represents.counted]
    omega

theorem malloc_unused {s : Cache} {offered : Option Addr} {addr : Addr}
    (allocated : s.malloc offered = some addr) : s.heap addr = none := by
  rw [malloc, Option.filter_eq_some_iff] at allocated
  simpa using allocated.2

theorem linkNewEntry_none {s : Cache} {offered : Option Addr} (url : List Byte) (now : Int)
    (failed : s.malloc offered = none) : s.linkNewEntry url now offered = (none, s) := by
  simp [linkNewEntry, failed]

theorem linkNewEntry_some {s : Cache} {offered : Option Addr} {addr : Addr} (url : List Byte)
    (now : Int) (allocated : s.malloc offered = some addr) :
    s.linkNewEntry url now offered =
      (some addr, { s.store addr (newEntry url now s.cache) with
        cache := some addr, cacheSize := s.cacheSize + 1 }) := by
  simp [linkNewEntry, allocated]

theorem linked_represents {s : Cache} {chain : List Addr} (represents : s.Represents chain)
    (addr : Addr) (unused : s.heap addr = none) (url : List Byte) (now : Int) :
    Represents { s.store addr (newEntry url now s.cache) with
      cache := some addr, cacheSize := s.cacheSize + 1 } (addr :: chain) := by
  have off : addr ∉ chain := fun member => (represents.mem_iff addr).mp member unused
  refine ⟨represents.linked.push addr _ off rfl, ?_, ?_⟩
  · simp [represents.counted]
  · intro other allocated
    by_cases here : other = addr
    · simp [here]
    · simp only [store, Function.update_of_ne here] at allocated
      exact List.mem_cons_of_mem _ (represents.onlyChain other allocated)

/-! ## deleteEntry -/

theorem deleteFrom_spec (s : Cache) (target : Option Addr) (rest front : List Addr) (fuel : Nat)
    (current : Option Addr) (represents : s.Represents (front ++ rest))
    (linked : Chain s.heap CacheEntry.next current rest) (enough : rest.length < fuel)
    (notBefore : ∀ addr ∈ front, some addr ≠ target) :
    (∃ addr ∈ rest, some addr = target ∧
        ∃ after, s.deleteFrom target fuel current front.getLast? = .ok after ∧
          after.Represents ((front ++ rest).erase addr) ∧ Removed s after addr) ∨
      (∀ addr ∈ rest, some addr ≠ target) ∧
        s.deleteFrom target fuel current front.getLast? = .ok s := by
  induction rest generalizing front fuel current with
  | nil =>
      obtain ⟨fuel, rfl⟩ : ∃ n, fuel = n + 1 := ⟨fuel - 1, by simp at enough; omega⟩
      have isNone : current = none := linked
      subst current
      exact Or.inr ⟨by simp, rfl⟩
  | cons addr rest ih =>
      obtain ⟨fuel, rfl⟩ : ∃ n, fuel = n + 1 := ⟨fuel - 1, by simp at enough; omega⟩
      have shorter : rest.length < fuel := by simpa using enough
      obtain ⟨isHead, entry, loaded, tail⟩ := linked
      subst current
      by_cases isTarget : some addr = target
      · obtain ⟨removed, ran, shorterChain, removal⟩ :=
          unlinkEntry_represents s front rest addr represents
        have notFront : addr ∉ front := fun member => notBefore addr member isTarget
        refine Or.inl ⟨addr, by simp, isTarget,
          { removed with cacheSize := removed.cacheSize - 1 }, ?_, ?_, removal⟩
        · simp only [deleteFrom, if_pos isTarget, ran, ok_bind]
        · rw [List.erase_append_right _ notFront, List.erase_cons_head]
          exact shorterChain
      · have further := ih (front ++ [addr]) fuel entry.next (by simpa using represents) tail
          shorter (by
            intro other member
            rcases List.mem_append.mp member with inFront | isAddr
            · exact notBefore other inFront
            · rw [List.mem_singleton.mp isAddr]
              exact isTarget)
        rw [List.getLast?_concat, List.append_assoc, List.singleton_append] at further
        simp only [deleteFrom, if_neg isTarget, load_of_some loaded, ok_bind]
        rcases further with ⟨other, member, found⟩ | ⟨absent, same⟩
        · exact Or.inl ⟨other, by simp [member], found⟩
        · refine Or.inr ⟨?_, same⟩
          intro other member
          rcases List.mem_cons.mp member with isAddr | inRest
          · rw [isAddr]
            exact isTarget
          · exact absent other inRest

/-- `deleteEntry` removes the entry if its address is on the list, whatever it
was the address of before, and otherwise does nothing. -/
theorem deleteEntry_spec (fuel : Nat) (s : Cache) (entry : Option Addr) (chain : List Addr)
    (represents : s.Represents chain) (enough : chain.length < fuel) :
    (∃ addr ∈ chain, entry = some addr ∧ ∃ after, deleteEntry fuel s entry = .ok after ∧
        after.Represents (chain.erase addr) ∧ Removed s after addr) ∨
      (∀ addr ∈ chain, entry ≠ some addr) ∧ deleteEntry fuel s entry = .ok s := by
  have found := deleteFrom_spec s entry chain [] fuel s.cache represents represents.linked
    enough (by simp)
  rcases found with ⟨addr, member, isTarget, after⟩ | ⟨absent, same⟩
  · exact Or.inl ⟨addr, member, isTarget.symm, after⟩
  · exact Or.inr ⟨fun addr member isTarget => absent addr member isTarget.symm, same⟩

/-! ## cacheCleanUp -/

theorem freeAll_spec (chain : List Addr) (fuel : Nat) (s : Cache) (head : Option Addr)
    (linked : Chain s.heap CacheEntry.next head chain) (enough : chain.length < fuel) :
    ∃ after, freeAll fuel s head = .ok after ∧
      ∀ addr, after.heap addr = if addr ∈ chain then none else s.heap addr := by
  induction chain generalizing fuel s head with
  | nil =>
      obtain ⟨fuel, rfl⟩ : ∃ n, fuel = n + 1 := ⟨fuel - 1, by simp at enough; omega⟩
      have isNone : head = none := linked
      subst head
      exact ⟨s, rfl, by simp⟩
  | cons addr rest ih =>
      obtain ⟨fuel, rfl⟩ : ∃ n, fuel = n + 1 := ⟨fuel - 1, by simp at enough; omega⟩
      have shorter : rest.length < fuel := by simpa using enough
      have distinct := linked.nodup
      rw [List.nodup_cons] at distinct
      obtain ⟨isHead, entry, loaded, tail⟩ := linked
      subst head
      obtain ⟨after, ran, freed⟩ := ih fuel { s with heap := Function.update s.heap addr none }
        entry.next (tail.update_off addr none distinct.1) shorter
      refine ⟨after, ?_, ?_⟩
      · simp only [freeAll, load_of_some loaded, ok_bind, free, loaded, ran]
      · intro other
        rw [freed other]
        by_cases here : other = addr
        · subst other
          simp
        · simp [here]

theorem cacheCleanUp_spec (fuel : Nat) (s : Cache) (chain : List Addr)
    (represents : s.Represents chain) (enough : chain.length < fuel) :
    ∃ after, cacheCleanUp fuel s = .ok after ∧ after.Represents [] := by
  obtain ⟨freed, ran, gone⟩ := freeAll_spec chain fuel s s.cache represents.linked enough
  refine ⟨{ freed with cache := none, cacheSize := 0 }, ?_, rfl, rfl, ?_⟩
  · simp only [cacheCleanUp, ran, ok_bind]
  · intro addr allocated
    simp only [gone addr] at allocated
    split at allocated
    · exact absurd rfl allocated
    · rename_i off
      exact absurd (represents.onlyChain addr allocated) off

end Cache

end OsLabs.Proxy
