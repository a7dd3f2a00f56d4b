import OsLabs.Proxy.CacheInvariant
import OsLabs.Proxy.Threads

/-!
# What a critical section does

`Payload` is what an entry means to the threads: its URL, its bytes and whether
it is complete.  Each operation has one lemma that gives its effect in these
terms, and `Sound` is the invariant under which no critical section faults: the
cache is well formed, identities from `nextId` on are unused, and a mutex is
owned by the thread that stands in a critical section of it.
-/

set_option autoImplicit false

namespace OsLabs.Proxy

open OsLabs.CString OsLabs.Linked OsLabs.Transition

structure Payload where
  url : Url
  data : List Byte
  isComplete : Bool
  deriving DecidableEq

def CacheEntry.payload (entry : CacheEntry) : Payload :=
  ⟨entry.url, entry.data, entry.isComplete⟩

namespace Cache

def payload (s : Cache) (addr : Addr) : Option Payload :=
  (s.heap addr).map CacheEntry.payload

theorem payload_of_some {s : Cache} {addr : Addr} {entry : CacheEntry}
    (loaded : s.heap addr = some entry) : s.payload addr = some entry.payload := by
  simp [payload, loaded]

@[simp] theorem payload_eq_none_iff (s : Cache) (addr : Addr) :
    s.payload addr = none ↔ s.heap addr = none := by
  simp [payload]

theorem payload_of_view {s other : Cache} {addr : Addr} (same : other.view addr = s.view addr) :
    other.payload addr = s.payload addr := by
  have ofView : ∀ c : Cache, c.payload addr = (c.view addr).map CacheEntry.payload := by
    intro c
    simp only [payload, view, Option.map_map]
    rfl
  rw [ofView other, ofView s, same]

theorem payload_removed {s after : Cache} {addr : Addr} (removal : Removed s after addr) :
    after.payload = Function.update s.payload addr none := by
  funext other
  by_cases here : other = addr
  · rw [here, Function.update_self, payload_eq_none_iff]
    exact removal.freed
  · rw [Function.update_of_ne here]
    exact payload_of_view (removal.others other here)

theorem payload_modify (s : Cache) (addr : Addr) (change : CacheEntry → CacheEntry)
    (meaning : Payload → Payload)
    (changes : ∀ entry, (change entry).payload = meaning entry.payload) :
    (s.modify addr change).payload =
      Function.update s.payload addr ((s.payload addr).map meaning) := by
  funext other
  by_cases here : other = addr
  · rw [here, Function.update_self]
    simp only [payload, modify_heap_self, Option.map_map]
    exact congrArg (fun f => Option.map f (s.heap addr)) (funext changes)
  · rw [Function.update_of_ne here]
    simp only [payload, modify_heap_other s change here]

/-- A change to one entry leaves unused addresses unused. -/
theorem unused_of_update {s after : Cache} {entry : Addr} {value : Option Payload}
    (changed : after.payload = Function.update s.payload entry value)
    (inPlace : s.payload entry = none → value = none) {addr : Addr}
    (unused : s.heap addr = none) : after.heap addr = none := by
  rw [← payload_eq_none_iff] at unused ⊢
  rw [changed]
  by_cases here : addr = entry
  · rw [here, Function.update_self]
    exact inPlace (here ▸ unused)
  · rw [Function.update_of_ne here]
    exact unused

theorem payload_touch (s : Cache) (addr : Addr) (now : Int) :
    (s.touch addr now).payload = s.payload := by
  have changed := payload_modify s addr (fun entry => { entry with lastAccessTime := now }) id
    (fun _ => rfl)
  rw [Option.map_id, id, Function.update_eq_self] at changed
  exact changed

end Cache

/-- `realloc` succeeds or nothing is stored. -/
def Payload.insert (allocated : Bool) (data : List Byte) (payload : Payload) : Payload :=
  { payload with data := payload.data ++ (if allocated then data else []) }

def Payload.complete (payload : Payload) : Payload := { payload with isComplete := true }

theorem cacheInsertData_payload (entry : CacheEntry) (allocated : Bool) (data : List Byte) :
    (entry.cacheInsertData allocated data).payload = entry.payload.insert allocated data := by
  cases allocated <;> simp [CacheEntry.cacheInsertData, CacheEntry.payload, Payload.insert]

/-! ## The effect of each operation -/

section Effects

variable (choices : Choices) {memory : Cache} (nextId : Addr) (holds : memory.Holds)

include holds

theorem getCacheEntry_effect (url : Url) :
    ∃ found after, (Op.getCacheEntry url).effect choices memory nextId =
        .ok ⟨after, nextId, none, [], .returns found⟩ ∧
      after.Holds ∧ after.payload = memory.payload ∧
      ∀ entry, found = some entry → memory.payload entry ≠ none := by
  obtain ⟨chain, represents, short⟩ := holds
  have ran := Cache.getCacheEntry_spec traversalFuel memory url.bytes choices.now chain represents
    (Nat.lt_succ_of_le short)
  cases searched : chain.find? (memory.holdsUrl url.bytes) with
  | none =>
      rw [searched] at ran
      exact ⟨none, memory, by simp only [Op.effect, ran, Cache.ok_bind],
        ⟨chain, represents, short⟩, rfl, by simp⟩
  | some hit =>
      rw [searched] at ran
      refine ⟨some hit, memory.touch hit choices.now, by simp only [Op.effect, ran, Cache.ok_bind],
        ⟨chain, Cache.touch_represents represents hit _, short⟩, Cache.payload_touch _ _ _, ?_⟩
      intro entry isHit
      cases isHit
      rw [Ne, Cache.payload_eq_none_iff]
      exact (represents.mem_iff hit).mp (List.mem_of_find?_eq_some searched)

omit holds in
theorem addNewEntry_effect_full (url : Url) (full : cacheMaxSize ≤ memory.cacheSize) :
    (Op.addNewEntry url).effect choices memory nextId =
      .ok ⟨memory, nextId, none, [], .evicts⟩ := by
  simp [Op.effect, full]

theorem addNewEntry_effect_room (url : Url) (room : memory.cacheSize < cacheMaxSize)
    (unused : memory.heap nextId = none) :
    (choices.allocated = false ∧ (Op.addNewEntry url).effect choices memory nextId =
        .ok ⟨memory, nextId, none, [], .returns none⟩) ∨
      (choices.allocated = true ∧ ∃ after, (Op.addNewEntry url).effect choices memory nextId =
          .ok ⟨after, nextId + 1, none, [], .returns (some nextId)⟩ ∧ after.Holds ∧
        after.payload = Function.update memory.payload nextId (some ⟨url, [], false⟩)) := by
  obtain ⟨chain, represents, short⟩ := holds
  have roomy : chain.length < cacheMaxSize := by rwa [← represents.counted]
  have notFull : ¬ cacheMaxSize ≤ memory.cacheSize := by omega
  cases allocated : choices.allocated with
  | false =>
      refine Or.inl ⟨rfl, ?_⟩
      have failed : memory.malloc none = none := rfl
      simp [Op.effect, notFull, allocated, Cache.linkNewEntry_none url.bytes choices.now failed]
  | true =>
      have given : memory.malloc (some nextId) = some nextId := by simp [Cache.malloc, unused]
      have linked := Cache.linkNewEntry_some url.bytes choices.now given
      refine Or.inr ⟨rfl, (memory.linkNewEntry url.bytes choices.now (some nextId)).2, ?_,
        Cache.linkNewEntry_holds represents roomy url.bytes choices.now (some nextId), ?_⟩
      · simp [Op.effect, notFull, allocated, linked]
      · rw [linked]
        funext addr
        by_cases here : addr = nextId
        · subst addr
          simp [Cache.payload, Cache.store, newEntry, CacheEntry.payload, snprintfUrl_bytes]
        · simp [Cache.payload, Cache.store, Function.update_of_ne here]

theorem deleteEntry_effect (entry : Addr) :
    ∃ after, (Op.deleteEntry entry).effect choices memory nextId =
        .ok ⟨after, nextId, none, [], .returns none⟩ ∧
      after.Holds ∧ after.payload = Function.update memory.payload entry none := by
  obtain ⟨chain, represents, short⟩ := holds
  rcases Cache.deleteEntry_spec traversalFuel memory (some entry) chain represents
    (Nat.lt_succ_of_le short) with ⟨addr, _, isAddr, after, ran, shorter, removal⟩ | ⟨absent, same⟩
  · cases isAddr
    exact ⟨after, by simp only [Op.effect, ran, Cache.ok_bind],
      ⟨chain.erase entry, shorter, List.length_erase_le.trans short⟩,
      Cache.payload_removed removal⟩
  · refine ⟨memory, by simp only [Op.effect, same, Cache.ok_bind],
      ⟨chain, represents, short⟩, ?_⟩
    have freed : memory.payload entry = none := by
      rw [Cache.payload_eq_none_iff]
      by_contra allocated
      exact absent entry (represents.onlyChain entry allocated) rfl
    rw [← freed, Function.update_eq_self]

theorem removeOldest_frees :
    ∃ after, memory.removeOldest traversalFuel = .ok after ∧ after.Holds ∧
      ∀ addr, memory.heap addr = none → after.heap addr = none := by
  obtain ⟨chain, represents, short⟩ := holds
  cases chain with
  | nil =>
      have isNone : memory.cache = none := represents.linked
      exact ⟨memory, by simp [Cache.removeOldest, isNone], ⟨[], represents, short⟩, fun _ h => h⟩
  | cons head rest =>
      obtain ⟨front, oldest, back, after, ran, split, _, shorter, removal⟩ :=
        Cache.removeOldest_spec traversalFuel memory (head :: rest) represents (by simp)
          (Nat.lt_succ_of_le short)
      refine ⟨after, ran, ⟨front ++ back, shorter, ?_⟩, ?_⟩
      · rw [split] at short
        simp only [List.length_append, List.length_cons] at short ⊢
        omega
      · intro addr unused
        rw [← Cache.payload_eq_none_iff, Cache.payload_removed removal]
        by_cases here : addr = oldest
        · rw [here, Function.update_self]
        · rw [Function.update_of_ne here, Cache.payload_eq_none_iff]
          exact unused

theorem cacheCleanUp_frees :
    ∃ after, memory.cacheCleanUp traversalFuel = .ok after ∧ after.Holds ∧
      ∀ addr, memory.heap addr = none → after.heap addr = none := by
  obtain ⟨chain, represents, short⟩ := holds
  obtain ⟨after, ran, cleared⟩ :=
    Cache.cacheCleanUp_spec traversalFuel memory chain represents (Nat.lt_succ_of_le short)
  refine ⟨after, ran, ⟨[], cleared, Nat.zero_le _⟩, ?_⟩
  intro addr _
  by_contra allocated
  exact absurd (cleared.onlyChain addr allocated) (by simp)

theorem modify_holds (entry : Addr) (change : CacheEntry → CacheEntry)
    (keepsNext : ∀ e, (change e).next = e.next) : (memory.modify entry change).Holds := by
  obtain ⟨chain, represents, short⟩ := holds
  exact ⟨chain, Cache.modify_represents represents entry keepsNext, short⟩

end Effects

theorem cacheInsertData_next (allocated : Bool) (data : List Byte) (entry : CacheEntry) :
    (entry.cacheInsertData allocated data).next = entry.next := by
  cases allocated <;> rfl

/-- The reads of `serve`: the handler sends from a complete entry, waits on an
incomplete one, and does either on a freed one. -/
theorem serve_effect (choices : Choices) (memory : Cache) (nextId entry : Addr) :
    (∃ record, (Op.serve entry).effect choices memory nextId =
        .ok ⟨memory, nextId, none, [record], .returns none⟩ ∧ record.entry = entry ∧
      (record.live = true → ∃ e, memory.heap entry = some e ∧ e.isComplete = true ∧
        record.sent = sendIfAny e) ∧
      (record.live = false → memory.heap entry = none)) ∨
    ((Op.serve entry).effect choices memory nextId = .ok ⟨memory, nextId, none, [], .waits⟩ ∧
      ∀ e, memory.heap entry = some e → e.isComplete = false) := by
  simp only [Op.effect]
  cases loaded : memory.heap entry with
  | some e =>
      cases complete : e.isComplete with
      | true =>
          refine Or.inl ⟨⟨entry, sendIfAny e, true⟩, by simp [complete], rfl, ?_, by simp⟩
          intro _
          exact ⟨e, rfl, complete, rfl⟩
      | false =>
          refine Or.inr ⟨by simp [complete], ?_⟩
          intro other isOther
          cases isOther
          exact complete
  | none =>
      cases choices.stale with
      | some bytes => exact Or.inl ⟨⟨entry, some bytes, false⟩, rfl, rfl, by simp, fun _ => rfl⟩
      | none => exact Or.inr ⟨rfl, by simp⟩

/-! ## The invariant of every run -/

def Thread.owns : Thread → Option Mutex
  | .inside _ op => some op.mutex
  | .evicting _ _ | .evictInside _ _ => some .cacheMutex
  | _ => none

structure Sound (s : State) : Prop where
  cache : s.memory.Holds
  fresh : ∀ addr, s.nextId ≤ addr → s.memory.heap addr = none
  owners : ∀ mutex tid, s.owner mutex = some tid ↔ (s.thread tid).owns = some mutex
  noNested : ∀ tid caller url, s.thread tid ≠ .evictInside caller url

theorem start_sound : Sound .start :=
  ⟨Cache.empty_holds, fun _ _ => rfl, by simp [State.start, Thread.owns], by simp [State.start]⟩

/-- No critical section faults, and identities in use stay below `nextId`. -/
theorem effect_total (op : Op) (choices : Choices) {memory : Cache} {nextId : Addr}
    (holds : memory.Holds) (fresh : ∀ addr, nextId ≤ addr → memory.heap addr = none) :
    ∃ effect, op.effect choices memory nextId = .ok effect ∧ effect.memory.Holds ∧
      ∀ addr, effect.nextId ≤ addr → effect.memory.heap addr = none := by
  cases op with
  | getCacheEntry url =>
      obtain ⟨found, after, ran, still, same, _⟩ := getCacheEntry_effect choices nextId holds url
      refine ⟨_, ran, still, ?_⟩
      intro addr beyond
      rw [← Cache.payload_eq_none_iff, same, Cache.payload_eq_none_iff]
      exact fresh addr beyond
  | addNewEntry url =>
      by_cases full : cacheMaxSize ≤ memory.cacheSize
      · exact ⟨_, addNewEntry_effect_full choices nextId url full, holds, fresh⟩
      · rcases addNewEntry_effect_room choices nextId holds url (by omega) (fresh nextId le_rfl)
          with ⟨_, ran⟩ | ⟨_, after, ran, still, linked⟩
        · exact ⟨_, ran, holds, fresh⟩
        · refine ⟨_, ran, still, ?_⟩
          intro addr beyond
          have later : nextId < addr := beyond
          rw [← Cache.payload_eq_none_iff, linked, Function.update_of_ne later.ne',
            Cache.payload_eq_none_iff]
          exact fresh addr later.le
  | deleteEntry entry =>
      obtain ⟨after, ran, still, gone⟩ := deleteEntry_effect choices nextId holds entry
      exact ⟨_, ran, still,
        fun addr beyond => Cache.unused_of_update gone (fun _ => rfl) (fresh addr beyond)⟩
  | removeOldest =>
      obtain ⟨after, ran, still, frees⟩ := removeOldest_frees holds
      exact ⟨⟨after, nextId, none, [], .returns none⟩, by simp only [Op.effect, ran, Cache.ok_bind],
        still, fun addr beyond => frees addr (fresh addr beyond)⟩
  | cacheInsertData entry data =>
      have changed := Cache.payload_modify memory entry _ _ fun e =>
        cacheInsertData_payload e choices.allocated data
      exact ⟨_, rfl, modify_holds holds entry _ (cacheInsertData_next _ _), fun addr beyond =>
        Cache.unused_of_update changed (fun freed => by rw [freed, Option.map_none])
          (fresh addr beyond)⟩
  | cacheMarkComplete entry =>
      have changed := Cache.payload_modify memory entry CacheEntry.cacheMarkComplete
        Payload.complete fun _ => rfl
      exact ⟨_, rfl, modify_holds holds entry _ fun _ => rfl, fun addr beyond =>
        Cache.unused_of_update changed (fun freed => by rw [freed, Option.map_none])
          (fresh addr beyond)⟩
  | cacheCleanUp =>
      obtain ⟨after, ran, still, frees⟩ := cacheCleanUp_frees holds
      exact ⟨⟨after, nextId, none, [], .returns none⟩, by simp only [Op.effect, ran, Cache.ok_bind],
        still, fun addr beyond => frees addr (fresh addr beyond)⟩
  | serve entry =>
      rcases serve_effect choices memory nextId entry with ⟨_, ran, _⟩ | ⟨ran, _⟩
      · exact ⟨_, ran, holds, fresh⟩
      · exact ⟨_, ran, holds, fresh⟩

@[simp] theorem broadcast_owns (entry : Option Addr) (thread : Thread) :
    (thread.broadcast entry).owns = thread.owns := by
  apply broadcast_elim (P := fun other => other.owns = thread.owns) entry rfl
  intro waited asleep
  rw [asleep]
  rfl

@[simp] theorem downloadNext_owns (entry : Addr) (pending : List (List Byte))
    (loop : Option LoopState) : (downloadNext entry pending loop).owns = none :=
  downloadNext_elim (P := fun thread => thread.owns = none) (fun _ _ _ => rfl) (fun _ => rfl) rfl
    pending loop

@[simp] theorem resume_owns (caller : Caller) (op : Op) (result : Option Addr) :
    (resume caller op result).owns = none := by
  unfold resume
  split <;> try rfl
  exact downloadNext_owns _ _ _

@[simp] theorem stage_advance_owns (entry : Addr) (ok : Bool) (headerBuffer : List Byte)
    (stage : Stage) : (stage.advance entry ok headerBuffer).owns = none := by
  cases stage <;> cases ok <;> rfl

@[simp] theorem receive_owns (entry : Addr) (loop : LoopState) (received : Option Chunk) :
    (receive entry loop received).owns = none :=
  receive_elim (P := fun thread => thread.owns = none) (downloadNext_owns entry) loop received

/-- A thread moves on without locking or unlocking. -/
theorem Sound.move {s : State} (sound : Sound s) {tid : Tid} {thread : Thread}
    (before : (s.thread tid).owns = none) (after : thread.owns = none) :
    Sound (s.setThread tid thread) where
  cache := sound.cache
  fresh := sound.fresh
  owners mutex other := by
    by_cases here : other = tid
    · have free := sound.owners mutex tid
      rw [before] at free
      simpa [here, State.setThread, after] using free
    · simpa [State.setThread, Function.update_of_ne here] using sound.owners mutex other
  noNested other caller url := by
    by_cases here : other = tid
    · intro nested
      simp only [State.setThread, here, Function.update_self] at nested
      simp [nested, Thread.owns] at after
    · simpa [State.setThread, Function.update_of_ne here] using sound.noNested other caller url

/-- `addNewEntry` keeps `cacheMutex` for its call of `removeOldest`. -/
theorem Sound.keep {s : State} (sound : Sound s) {tid : Tid} {caller : Caller} {url : Url}
    (held : (s.thread tid).owns = some .cacheMutex) :
    Sound (s.setThread tid (.evicting caller url)) where
  cache := sound.cache
  fresh := sound.fresh
  owners mutex other := by
    by_cases here : other = tid
    · have kept := sound.owners mutex tid
      rw [held] at kept
      simpa [here, State.setThread, Thread.owns] using kept
    · simpa [State.setThread, Function.update_of_ne here] using sound.owners mutex other
  noNested other outer inner := by
    by_cases here : other = tid
    · simp [State.setThread, here]
    · simpa [State.setThread, Function.update_of_ne here] using sound.noNested other outer inner

theorem Sound.grant {s : State} (sound : Sound s) {tid : Tid} {mutex : Mutex} {caller : Caller}
    {op : Op} (isMutex : op.mutex = mutex) (before : (s.thread tid).owns = none)
    (free : s.owner mutex = none) :
    Sound
      { s with
        owner := Function.update s.owner mutex (some tid)
        thread := Function.update s.thread tid (.inside caller op) } where
  cache := sound.cache
  fresh := sound.fresh
  owners wanted other := by
    have atOther := sound.owners wanted other
    by_cases here : other = tid
    · subst other
      by_cases same : wanted = mutex
      · simp [same, Thread.owns, isMutex]
      · rw [before] at atOther
        simpa [Function.update_of_ne same, Thread.owns, isMutex, Ne.symm same] using atOther
    · by_cases same : wanted = mutex
      · rw [same, free] at atOther
        simpa [same, Function.update_of_ne here, Ne.symm here] using atOther
      · simpa [Function.update_of_ne same, Function.update_of_ne here] using atOther
  noNested other outer url := by
    by_cases here : other = tid
    · simp [here]
    · simpa [Function.update_of_ne here] using sound.noNested other outer url

/-- The memory and the sleepers change, the locks do not. -/
theorem Sound.apply {s : State} (sound : Sound s) {effect : Effect} (cache : effect.memory.Holds)
    (fresh : ∀ addr, effect.nextId ≤ addr → effect.memory.heap addr = none) :
    Sound (s.apply effect) where
  cache := cache
  fresh := fresh
  owners mutex tid := by simpa [State.apply] using sound.owners mutex tid
  noNested tid caller url := by
    intro nested
    have before := sound.noNested tid
    cases thread : s.thread tid with
    | evictInside outer inner => exact before outer inner thread
    | sleeping waited =>
        simp only [State.apply, thread, Thread.broadcast] at nested
        split at nested <;> cases nested
    | _ => simp [State.apply, thread, Thread.broadcast] at nested

theorem Sound.release {s : State} (sound : Sound s) {tid : Tid} {mutex : Mutex} {thread : Thread}
    (held : (s.thread tid).owns = some mutex) (after : thread.owns = none) :
    Sound ((s.unlock mutex).setThread tid thread) where
  cache := sound.cache
  fresh := sound.fresh
  owners wanted other := by
    have atOther := sound.owners wanted other
    by_cases here : other = tid
    · rw [here, held] at atOther
      by_cases same : wanted = mutex
      · simp [State.setThread, State.unlock, here, same, after]
      · simpa [State.setThread, State.unlock, here, after, Function.update_of_ne same,
          Ne.symm same] using atOther
    · by_cases same : wanted = mutex
      · have owned := (sound.owners mutex tid).mpr held
        rw [same, owned] at atOther
        have notOther : (s.thread other).owns ≠ some mutex := by
          intro also
          exact here (Option.some.inj (atOther.mpr also)).symm
        simp [State.setThread, State.unlock, same, Function.update_of_ne here, notOther]
      · simpa [State.setThread, State.unlock, Function.update_of_ne same,
          Function.update_of_ne here] using atOther
  noNested other caller url := by
    by_cases here : other = tid
    · intro nested
      simp only [State.setThread, here, Function.update_self] at nested
      simp [nested, Thread.owns] at after
    · simpa [State.setThread, State.unlock, Function.update_of_ne here] using
        sound.noNested other caller url

theorem threadStep_sound {s next : State} {action : Action} (sound : Sound s)
    (stepped : threadStep s action = some next) : Sound next := by
  cases threadStep_move stepped with
  | accept born => exact sound.move (by rw [born]; rfl) rfl
  | call free =>
      refine sound.move ?_ rfl
      rcases free with born | idle
      · rw [born]; rfl
      · rw [idle]; rfl
  | lock waiting free => exact sound.grant rfl (by rw [waiting]; rfl) free
  | nestedLock waiting free =>
      -- the thread owns the mutex it asks for
      have owned := (sound.owners .cacheMutex _).mpr (by rw [waiting]; rfl)
      rw [free] at owned
      cases owned
  | returns here ran _ =>
      obtain ⟨effect, sameRan, cache, fresh⟩ := effect_total _ _ sound.cache sound.fresh
      rw [ran] at sameRan
      cases sameRan
      refine (sound.apply cache fresh).release ?_ (resume_owns _ _ _)
      simp only [State.apply, broadcast_owns, here]
      rfl
  | evicts here _ => exact sound.keep (by rw [here]; rfl)
  | waits here _ => exact sound.release (by rw [here]; rfl) rfl
  | nestedBody here ran => exact absurd here (sound.noNested _ _ _)
  | createFailed here => exact sound.move (by rw [here]; rfl) rfl
  | created here born =>
      refine (sound.move (by rw [here]; rfl) rfl).move ?_ rfl
      simp only [State.setThread, Function.update_apply]
      split
      · rfl
      · rw [born]; rfl
  | advance here => exact sound.move (by rw [here]; rfl) (stage_advance_owns _ _ _ _)
  | recv here => exact sound.move (by rw [here]; rfl) (receive_owns _ _ _)
  | wake here => exact sound.move (by rw [here]; rfl) rfl

end OsLabs.Proxy
