import OsLabs.Lib.Locks
import OsLabs.Proxy.CacheRoom

/-!
# Lock discipline of the cache

`addNewEntry` calls `removeOldest` while it owns `cacheMutex`, and
`removeOldest` locks it again.  On a full cache the thread therefore waits for
itself.  As long as no `addNewEntry` call meets a full cache, neither where it
begins nor while it waits, no thread ever requests a mutex while it owns one,
and every call can return.
-/

set_option autoImplicit false

namespace OsLabs.Proxy

open OsLabs.CString OsLabs.Locks OsLabs.Transition

def Thread.requests : Thread → Option Mutex
  | .locking _ op => some op.mutex
  | .evicting _ _ => some .cacheMutex
  | _ => none

def State.requests (s : State) (tid : Tid) (mutex : Mutex) : Prop :=
  (s.thread tid).requests = some mutex

/-- The thread gets from one state to the other by steps of its own. -/
def RunsAlone (tid : Tid) (s next : State) : Prop :=
  ∃ actions : List Action, (∀ action ∈ actions, action.actor = tid) ∧
    cacheSystem.run s actions = some next

/-- The critical section of `cacheMutex` under way, if there is one, has ended. -/
def Released (s between : State) : Prop :=
  between.owner .cacheMutex = none ∧
    (between = s ∨ ∃ owner choices, s.owner .cacheMutex = some owner ∧
      threadStep s (.body owner choices) = some between)

/-- Once `cacheMutex` is free, the call runs to its return by steps of its own. -/
def Returns (tid : Tid) (s : State) : Prop :=
  ∃ between next, Released s between ∧ RunsAlone tid between next ∧
    ¬ (next.thread tid).inAddNewEntry

theorem resume_leaves_addNewEntry (caller : Caller) (url : Url) (result : Option Addr) :
    ¬ (resume caller (.addNewEntry url) result).inAddNewEntry := by
  cases caller with
  | handler => cases result <;> exact id
  | _ => exact id

/-- A critical section ends with its next step, whatever the environment answers. -/
theorem Roomy.body {s : State} (roomy : Roomy s) {tid : Tid} {caller : Caller} {op : Op}
    (here : s.thread tid = .inside caller op) (choices : Choices) :
    ∃ effect, op.effect choices s.memory s.nextId = .ok effect ∧
      threadStep s (.body tid choices) = some (s.finish tid caller op effect) ∧
      (s.finish tid caller op effect).owner op.mutex = none ∧
      (s.finish tid caller op effect).memory = effect.memory ∧
      (∀ url, op = .addNewEntry url →
        ¬ ((s.finish tid caller op effect).thread tid).inAddNewEntry) ∧
      ∀ other ≠ tid, (s.thread other).AwaitsAdding →
        (s.finish tid caller op effect).thread other = s.thread other := by
  have room := roomy.room tid
  rw [here] at room
  obtain ⟨effect, ran, _⟩ := effect_total op choices roomy.sound.cache roomy.sound.fresh
  have stepped : threadStep s (.body tid choices) = some (s.finish tid caller op effect) := by
    simp only [threadStep, State.stepBody, here, ran]
  have still : ∀ other, (s.thread other).AwaitsAdding →
      (s.thread other).broadcast effect.woken = s.thread other := by
    intro other awaits
    cases thread : s.thread other with
    | sleeping waited =>
        rw [thread] at awaits
        exact awaits.elim
    | _ => rfl
  refine ⟨effect, ran, stepped, ?_⟩
  rcases effect_outcome ran with ⟨result, returns⟩ | ⟨url, isAdd, full, _⟩ |
    ⟨entry, isServe, _, waits⟩
  · simp only [State.finish, returns, State.setThread, State.unlock, State.apply,
      Function.update_self, true_and]
    refine ⟨?_, ?_⟩
    · intro url isAdd
      rw [isAdd]
      exact resume_leaves_addNewEntry caller url result
    · intro other different awaits
      rw [Function.update_of_ne different, still other awaits]
  · subst isAdd
    exact absurd full (Nat.not_le_of_lt room)
  · subst isServe waits
    refine ⟨by simp [State.finish, State.setThread, State.unlock, Op.mutex], rfl,
      (fun _ isAdd => by cases isAdd), ?_⟩
    intro other different awaits
    simp only [State.finish, State.setThread, State.unlock, State.apply]
    rw [Function.update_of_ne different]
    exact still other awaits

theorem Roomy.inside_of_owns {s : State} (roomy : Roomy s) {tid : Tid} {mutex : Mutex}
    (owns : (s.thread tid).owns = some mutex) :
    ∃ caller op, s.thread tid = .inside caller op ∧ op.mutex = mutex := by
  have room := roomy.room tid
  cases thread : s.thread tid with
  | inside caller op =>
      rw [thread] at owns
      exact ⟨caller, op, rfl, Option.some.inj owns⟩
  | evicting caller url =>
      rw [thread] at room
      exact room.elim
  | evictInside caller url => exact absurd thread (roomy.sound.noNested tid caller url)
  | _ =>
      rw [thread] at owns
      cases owns

/-- A waiting call that finds `cacheMutex` free and the cache not full returns. -/
theorem returns_alone {s : State} (sound : Sound s) {tid : Tid}
    (awaits : (s.thread tid).AwaitsAdding) (free : s.owner .cacheMutex = none)
    (room : s.memory.cacheSize < cacheMaxSize) :
    ∃ next, RunsAlone tid s next ∧ ¬ (next.thread tid).inAddNewEntry := by
  obtain ⟨caller, url, waiting⟩ := awaits.place
  let granted : State :=
    { s with
      owner := Function.update s.owner .cacheMutex (some tid)
      thread := Function.update s.thread tid (.inside caller (.addNewEntry url)) }
  have locked : threadStep s (.lock tid) = some granted := by
    simp [threadStep, State.stepLock, waiting, State.acquire, Op.mutex, free, granted]
  have inside : granted.thread tid = .inside caller (.addNewEntry url) :=
    Function.update_self _ _ _
  have failing :
      (Op.addNewEntry url).effect ⟨0, false, none⟩ granted.memory granted.nextId =
        .ok ⟨s.memory, s.nextId, none, [], .returns none⟩ :=
    (addNewEntry_effect_room ⟨0, false, none⟩ s.nextId sound.cache url room
      (sound.fresh _ le_rfl)).elim And.right fun made => Bool.noConfusion made.1
  have left : threadStep granted (.body tid ⟨0, false, none⟩) =
      some (granted.finish tid caller (.addNewEntry url)
        ⟨s.memory, s.nextId, none, [], .returns none⟩) := by
    simp only [threadStep, State.stepBody, inside, failing]
  refine ⟨granted.finish tid caller (.addNewEntry url)
    ⟨s.memory, s.nextId, none, [], .returns none⟩,
    ⟨[.lock tid, .body tid ⟨0, false, none⟩], by simp [Action.actor], ?_⟩, ?_⟩
  · simp only [System.run, cacheSystem, locked, left]
  · simp only [State.finish, State.setThread, Function.update_self]
    exact resume_leaves_addNewEntry caller url none

/-- While a call waits, the owner of `cacheMutex` leaves a cache that is not full. -/
theorem Roomy.section_ends {s : State} (roomy : Roomy s) {tid owner : Tid}
    (awaits : (s.thread tid).AwaitsAdding) (owned : s.owner .cacheMutex = some owner) :
    ∃ choices between, threadStep s (.body owner choices) = some between ∧
      between.owner .cacheMutex = none ∧ (between.thread tid).AwaitsAdding ∧
      between.memory.cacheSize < cacheMaxSize := by
  obtain ⟨outer, op, inside, isMutex⟩ :=
    roomy.inside_of_owns ((roomy.sound.owners .cacheMutex owner).mp owned)
  obtain ⟨effect, ran, stepped, freed, isMemory, _, still⟩ := roomy.body inside ⟨0, false, none⟩
  have different : tid ≠ owner := by
    intro same
    rw [same, inside] at awaits
    exact awaits
  refine ⟨_, _, stepped, isMutex ▸ freed, ?_, ?_⟩
  · rw [still tid different awaits]
    exact awaits
  · rw [isMemory]
    refine (roomy.soon tid awaits).behind_section roomy.sound inside isMutex ran
      fun added isAdd => ?_
    have hasRoom := roomy.room owner
    rw [inside, isAdd] at hasRoom
    rw [isAdd] at ran
    rw [addNewEntry_cacheSize (roomy.sound.fresh _ le_rfl) hasRoom ran]
    exact hasRoom

theorem Roomy.returns {s : State} (roomy : Roomy s) {tid : Tid}
    (inCall : (s.thread tid).inAddNewEntry) : Returns tid s := by
  cases here : s.thread tid with
  | inside caller op =>
      rw [here] at inCall
      cases op with
      | addNewEntry url =>
          have owned := (roomy.sound.owners .cacheMutex tid).mpr (by rw [here]; rfl)
          obtain ⟨effect, _, stepped, freed, _, left, _⟩ := roomy.body here ⟨0, true, none⟩
          exact ⟨_, _, ⟨freed, Or.inr ⟨tid, _, owned, stepped⟩⟩, ⟨[], by simp, rfl⟩, left url rfl⟩
      | _ => exact inCall.elim
  | locking caller op =>
      have awaits := Thread.awaits_of_inAddNewEntry inCall (by rw [here]; simp [Thread.owns])
      cases owned : s.owner .cacheMutex with
      | none =>
          have room := (roomy.soon tid awaits).room roomy.sound owned
          obtain ⟨next, alone, left⟩ := returns_alone roomy.sound awaits owned room
          exact ⟨s, next, ⟨owned, Or.inl rfl⟩, alone, left⟩
      | some owner =>
          obtain ⟨choices, between, stepped, freed, stillAwaits, room⟩ :=
            roomy.section_ends awaits owned
          obtain ⟨next, alone, left⟩ :=
            returns_alone (threadStep_sound roomy.sound stepped) stillAwaits freed room
          exact ⟨between, next, ⟨freed, Or.inr ⟨owner, choices, owned, stepped⟩⟩, alone, left⟩
  | evicting caller url =>
      have room := roomy.room tid
      rw [here] at room
      exact room.elim
  | evictInside caller url => exact absurd here (roomy.sound.noNested tid caller url)
  | _ =>
      rw [here] at inCall
      exact inCall.elim

/-- The thread asks for `cacheMutex` to add an entry to a full cache, owns it
there, or waits for the mutex it owns. -/
def Wedged (tid : Tid) (s : State) : Prop :=
  ∃ caller url,
    (cacheMaxSize ≤ s.memory.cacheSize ∧ s.owner .cacheMutex = none ∧
      s.thread tid = .locking caller (.addNewEntry url)) ∨
    (cacheMaxSize ≤ s.memory.cacheSize ∧ s.owner .cacheMutex = some tid ∧
      s.thread tid = .inside caller (.addNewEntry url)) ∨
    (s.owner .cacheMutex = some tid ∧ s.thread tid = .evicting caller url)

theorem Wedged.inAddNewEntry {tid : Tid} {s : State} (wedged : Wedged tid s) :
    (s.thread tid).inAddNewEntry := by
  obtain ⟨caller, url, ⟨_, _, here⟩ | ⟨_, _, here⟩ | ⟨_, here⟩⟩ := wedged <;>
    (rw [here]; trivial)

end OsLabs.Proxy
