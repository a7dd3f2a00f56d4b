import OsLabs.Proxy.CriticalSections

/-!
# Room in the cache

An `addNewEntry` call that gets `cacheMutex` on a full cache never leaves it, so
what matters is that each such call meets a cache that is not full.  `KeepsRoom`
is the condition on a step; the runs whose steps meet it stay `Roomy`: nobody
adds to a full cache, and where a call waits there is room, at the latest when
the critical section under way has ended.
-/

set_option autoImplicit false

namespace OsLabs.Proxy

open OsLabs.CString OsLabs.Transition

/-! ## The condition -/

def Thread.inAddNewEntry : Thread → Prop
  | .locking _ (.addNewEntry _) | .inside _ (.addNewEntry _) => True
  | .evicting _ _ | .evictInside _ _ => True
  | _ => False

/-- The critical section takes an entry out of a full cache. -/
def Op.MakesRoom (memory : Cache) : Op → Prop
  | .deleteEntry entry => memory.heap entry ≠ none
  | .removeOldest | .cacheCleanUp => True
  | _ => False

/-- There is room for an entry, at the latest after the critical section under way. -/
def RoomSoon (s : State) : Prop :=
  s.memory.cacheSize < cacheMaxSize ∨
    ∃ tid caller op, s.thread tid = .inside caller op ∧ op.MakesRoom s.memory

theorem Op.MakesRoom.mutex {memory : Cache} {op : Op} (makes : op.MakesRoom memory) :
    op.mutex = .cacheMutex := by
  cases op <;> first | rfl | exact makes.elim

/-- Other critical sections than those of `cacheMutex` leave every entry. -/
theorem effect_keeps_entries {op : Op} {choices : Choices} {memory : Cache} {nextId : Addr}
    {effect : Effect} (ran : op.effect choices memory nextId = .ok effect)
    (apart : op.mutex ≠ .cacheMutex) (addr : Addr) (there : memory.heap addr ≠ none) :
    effect.memory.heap addr ≠ none := by
  have modified : ∀ entry change, (memory.modify entry change).heap addr ≠ none := by
    intro entry change
    by_cases here : addr = entry
    · subst here
      rw [Cache.modify_heap_self]
      simpa using there
    · rwa [Cache.modify_heap_other memory change here]
  cases op with
  | cacheInsertData entry data =>
      cases ran
      exact modified entry _
  | cacheMarkComplete entry =>
      cases ran
      exact modified entry _
  | serve entry =>
      rcases serve_effect choices memory nextId entry with ⟨_, same, _⟩ | ⟨same, _⟩ <;>
        (rw [ran] at same; cases same; exact there)
  | _ => exact absurd rfl apart

theorem addNewEntry_cacheSize {choices : Choices} {memory : Cache} {nextId : Addr} {url : Url}
    {effect : Effect} (unused : memory.heap nextId = none)
    (room : memory.cacheSize < cacheMaxSize)
    (ran : (Op.addNewEntry url).effect choices memory nextId = .ok effect) :
    effect.memory.cacheSize = memory.cacheSize + choices.allocated.toNat := by
  have notFull : ¬ cacheMaxSize ≤ memory.cacheSize := Nat.not_le_of_lt room
  cases allocated : choices.allocated with
  | false =>
      have failed : memory.malloc none = none := rfl
      simp only [Op.effect, if_neg notFull, allocated, Bool.false_eq_true, if_false,
        Cache.linkNewEntry_none url.bytes choices.now failed] at ran
      cases ran
      rfl
  | true =>
      have given : memory.malloc (some nextId) = some nextId := by simp [Cache.malloc, unused]
      simp only [Op.effect, if_neg notFull, allocated, if_true,
        Cache.linkNewEntry_some url.bytes choices.now given] at ran
      cases ran
      rfl

/-- The sections that make room leave a cache that is not full, and those that
neither make room nor add leave its size. -/
theorem effect_cacheSize {op : Op} {choices : Choices} {memory : Cache} {nextId : Addr}
    {effect : Effect} (holds : memory.Holds) (adds : ∀ url, op ≠ .addNewEntry url)
    (ran : op.effect choices memory nextId = .ok effect) :
    (op.MakesRoom memory ∧ effect.memory.cacheSize < cacheMaxSize) ∨
      (¬ op.MakesRoom memory ∧ effect.memory.cacheSize = memory.cacheSize) := by
  obtain ⟨chain, represents, short⟩ := holds
  have enough : chain.length < traversalFuel := Nat.lt_succ_of_le short
  cases op with
  | getCacheEntry url =>
      refine Or.inr ⟨id, ?_⟩
      have searched := Cache.getCacheEntry_spec traversalFuel memory url.bytes choices.now chain
        represents enough
      simp only [Op.effect] at ran
      split at searched
      · rw [searched] at ran
        cases ran
        exact Cache.modify_cacheSize _ _ _
      · rw [searched] at ran
        cases ran
        rfl
  | addNewEntry url => exact absurd rfl (adds url)
  | deleteEntry entry =>
      rcases Cache.deleteEntry_spec traversalFuel memory (some entry) chain represents enough with
        ⟨addr, member, isAddr, after, deleted, shorter, _⟩ | ⟨absent, deleted⟩
      · cases isAddr
        simp only [Op.effect, deleted, Cache.ok_bind] at ran
        cases ran
        refine Or.inl ⟨(represents.mem_iff entry).mp member, ?_⟩
        change after.cacheSize < cacheMaxSize
        have positive : 0 < chain.length := List.length_pos_of_mem member
        rw [shorter.counted, List.length_erase_of_mem member]
        omega
      · simp only [Op.effect, deleted, Cache.ok_bind] at ran
        cases ran
        refine Or.inr ⟨fun there => ?_, rfl⟩
        exact absent entry ((represents.mem_iff entry).mpr there) rfl
  | removeOldest =>
      refine Or.inl ⟨trivial, ?_⟩
      by_cases nothing : chain = []
      · subst nothing
        have isNone : memory.cache = none := represents.linked
        simp only [Op.effect, Cache.removeOldest, isNone, Cache.ok_bind] at ran
        cases ran
        rw [represents.counted]
        decide
      · obtain ⟨front, oldest, back, after, removed, split, _, shorter, _⟩ :=
          Cache.removeOldest_spec traversalFuel memory chain represents nothing enough
        simp only [Op.effect, removed, Cache.ok_bind] at ran
        cases ran
        change after.cacheSize < cacheMaxSize
        rw [split, List.length_append, List.length_cons] at short
        rw [shorter.counted, List.length_append]
        omega
  | cacheCleanUp =>
      obtain ⟨after, cleaned, cleared⟩ :=
        Cache.cacheCleanUp_spec traversalFuel memory chain represents enough
      simp only [Op.effect, cleaned, Cache.ok_bind] at ran
      cases ran
      refine Or.inl ⟨trivial, ?_⟩
      change after.cacheSize < cacheMaxSize
      rw [cleared.counted]
      decide
  | cacheInsertData entry data =>
      cases ran
      exact Or.inr ⟨id, Cache.modify_cacheSize _ _ _⟩
  | cacheMarkComplete entry =>
      cases ran
      exact Or.inr ⟨id, Cache.modify_cacheSize _ _ _⟩
  | serve entry =>
      rcases serve_effect choices memory nextId entry with ⟨_, same, _⟩ | ⟨same, _⟩ <;>
        (rw [ran] at same; cases same; exact Or.inr ⟨id, rfl⟩)

/-! ## Runs that keep room -/

def Thread.HasRoom (size : Nat) : Thread → Prop
  | .inside _ (.addNewEntry _) => size < cacheMaxSize
  | .evicting _ _ => False
  | _ => True

/-- An `addNewEntry` call that asks for `cacheMutex`. -/
def Thread.AwaitsAdding : Thread → Prop
  | .locking _ (.addNewEntry _) => True
  | _ => False

theorem Thread.AwaitsAdding.place {thread : Thread} (awaits : thread.AwaitsAdding) :
    ∃ caller url, thread = .locking caller (.addNewEntry url) := by
  cases thread with
  | locking caller op =>
      cases op with
      | addNewEntry url => exact ⟨caller, url, rfl⟩
      | _ => exact awaits.elim
  | _ => exact awaits.elim

theorem Thread.AwaitsAdding.inAddNewEntry {thread : Thread} (awaits : thread.AwaitsAdding) :
    thread.inAddNewEntry := by
  obtain ⟨caller, url, rfl⟩ := awaits.place
  trivial

/-- In `addNewEntry` a thread waits for `cacheMutex` or owns it. -/
theorem Thread.awaits_of_inAddNewEntry {thread : Thread} (inCall : thread.inAddNewEntry)
    (apart : thread.owns ≠ some .cacheMutex) : thread.AwaitsAdding := by
  cases thread with
  | locking caller op => cases op <;> trivial
  | inside caller op =>
      cases op with
      | addNewEntry url => exact absurd rfl apart
      | _ => exact inCall.elim
  | evicting caller url => exact absurd rfl apart
  | evictInside caller url => exact absurd rfl apart
  | _ => exact inCall.elim

structure Roomy (s : State) : Prop where
  sound : Sound s
  room : ∀ tid, (s.thread tid).HasRoom s.memory.cacheSize
  soon : ∀ tid, (s.thread tid).AwaitsAdding → RoomSoon s

/-- Only one thread is in a critical section of `cacheMutex`. -/
theorem Sound.alone {s : State} (sound : Sound s) {tid other : Tid}
    (owns : (s.thread tid).owns = some .cacheMutex)
    (also : (s.thread other).owns = some .cacheMutex) : other = tid := by
  have owned := (sound.owners .cacheMutex tid).mpr owns
  rw [(sound.owners .cacheMutex other).mpr also] at owned
  exact Option.some.inj owned

theorem RoomSoon.setThread {s : State} (soon : RoomSoon s) {tid : Tid} (thread : Thread)
    (apart : (s.thread tid).owns ≠ some .cacheMutex) : RoomSoon (s.setThread tid thread) := by
  rcases soon with room | ⟨maker, caller, op, inside, makes⟩
  · exact Or.inl room
  · refine Or.inr ⟨maker, caller, op, ?_, makes⟩
    have different : maker ≠ tid := by
      intro same
      rw [← same, inside] at apart
      exact apart (congrArg some makes.mutex)
    simpa [State.setThread, Function.update_of_ne different] using inside

/-- In a critical section of `cacheMutex` it is this one that makes room. -/
theorem RoomSoon.at_section {s : State} (soon : RoomSoon s) (sound : Sound s) {tid : Tid}
    {caller : Caller} {op : Op} (here : s.thread tid = .inside caller op)
    (global : op.mutex = .cacheMutex) :
    s.memory.cacheSize < cacheMaxSize ∨ op.MakesRoom s.memory := by
  rcases soon with room | ⟨maker, other, making, inside, makes⟩
  · exact Or.inl room
  · have same : maker = tid := sound.alone (by rw [here]; exact congrArg some global)
      (by rw [inside]; exact congrArg some makes.mutex)
    rw [same, here, Thread.inside.injEq] at inside
    rw [← inside.2] at makes
    exact Or.inr makes

theorem RoomSoon.room {s : State} (soon : RoomSoon s) (sound : Sound s)
    (free : s.owner .cacheMutex = none) : s.memory.cacheSize < cacheMaxSize := by
  rcases soon with room | ⟨maker, caller, op, inside, makes⟩
  · exact room
  · have owned := (sound.owners .cacheMutex maker).mpr
      (by rw [inside]; exact congrArg some makes.mutex)
    rw [free] at owned
    cases owned

/-- A critical section of `cacheMutex` leaves room, if adding leaves room. -/
theorem RoomSoon.behind_section {s : State} (soon : RoomSoon s) (sound : Sound s) {tid : Tid}
    {choices : Choices} {caller : Caller} {op : Op} {effect : Effect}
    (here : s.thread tid = .inside caller op) (global : op.mutex = .cacheMutex)
    (ran : op.effect choices s.memory s.nextId = .ok effect)
    (adding : ∀ url, op = .addNewEntry url → effect.memory.cacheSize < cacheMaxSize) :
    effect.memory.cacheSize < cacheMaxSize := by
  by_cases adds : ∃ url, op = .addNewEntry url
  · obtain ⟨url, isAdd⟩ := adds
    exact adding url isAdd
  · rcases effect_cacheSize sound.cache (fun url isAdd => adds ⟨url, isAdd⟩) ran with
      ⟨_, room⟩ | ⟨makesNone, same⟩
    · exact room
    · rw [same]
      exact (soon.at_section sound here global).resolve_right makesNone

/-- After a critical section that returns there is room for a call that waits,
unless it was the section that added the last entry. -/
theorem RoomSoon.returns {s : State} (soon : RoomSoon s) (sound : Sound s) {tid : Tid}
    {choices : Choices} {caller : Caller} {op : Op} {effect : Effect} {thread : Thread}
    (here : s.thread tid = .inside caller op)
    (ran : op.effect choices s.memory s.nextId = .ok effect)
    (adding : ∀ url, op = .addNewEntry url → effect.memory.cacheSize < cacheMaxSize) :
    RoomSoon (((s.apply effect).unlock op.mutex).setThread tid thread) := by
  by_cases global : op.mutex = .cacheMutex
  · exact Or.inl (soon.behind_section sound here global ran adding)
  · have makesNone : ¬ op.MakesRoom s.memory := fun makes => global makes.mutex
    have notAdding : ∀ url, op ≠ .addNewEntry url := by
      intro url isAdd
      rw [isAdd] at global
      exact global rfl
    have size := (effect_cacheSize sound.cache notAdding ran).resolve_left
      fun makes => makesNone makes.1
    rcases soon with room | ⟨maker, outer, making, inside, makes⟩
    · exact Or.inl (size.2 ▸ room)
    · refine Or.inr ⟨maker, outer, making, ?_, ?_⟩
      · have different : maker ≠ tid := by
          intro same
          rw [same, here, Thread.inside.injEq] at inside
          exact global (inside.2 ▸ makes.mutex)
        simp [State.setThread, State.unlock, State.apply, Function.update_of_ne different, inside,
          Thread.broadcast]
      · change making.MakesRoom effect.memory
        cases making with
        | deleteEntry entry => exact effect_keeps_entries ran global entry makes
        | removeOldest => trivial
        | cacheCleanUp => trivial
        | _ => exact makes.elim

end OsLabs.Proxy
