import OsLabs.Lib.Transition
import OsLabs.Proxy.Cache
import OsLabs.Proxy.Download
import OsLabs.Proxy.ParseURL

/-!
# The threads of the proxy

Any number of threads on one cache: handlers run `handleRequest` from the
lookup on, downloaders run `downloadData`, clients call any operation of
`cache.c` in any order.  A step takes a thread from one point of its code to
the next; a critical section up to its unlock is one step.  Every answer of the
environment is part of the action; `parseURL` answers what it computes.  An
entry is an identity that is never used again after it is freed; accesses to a
freed entry read anything and write nothing.
-/

set_option autoImplicit false

namespace OsLabs.Proxy

open OsLabs.CString OsLabs.Transition

abbrev Tid := Nat

/-- `cacheMutex`, and `entry->mutex` of every entry; none of them is recursive. -/
inductive Mutex where
  | cacheMutex
  | entryMutex (entry : Addr)
  deriving DecidableEq

/-- The calls that take a mutex.  `serve` is the end of `handleRequest`, from
its `pthread_mutex_lock` on. -/
inductive Op where
  | getCacheEntry (url : Url)
  | addNewEntry (url : Url)
  | deleteEntry (entry : Addr)
  | removeOldest
  | cacheInsertData (entry : Addr) (data : List Byte)
  | cacheMarkComplete (entry : Addr)
  | cacheCleanUp
  | serve (entry : Addr)

def Op.mutex : Op → Mutex
  | .getCacheEntry _ | .addNewEntry _ | .deleteEntry _ | .removeOldest | .cacheCleanUp =>
      .cacheMutex
  | .cacheInsertData entry _ | .cacheMarkComplete entry | .serve entry => .entryMutex entry

/-- Who called an operation.  A downloader has the ranges it will insert next
and the state of its receive loop, or none when the loop is left. -/
inductive Caller where
  | client
  | handler
  | downloader (pending : List (List Byte)) (resume : Option LoopState)

/-- The calls of `downloadData` before its receive loop. -/
inductive Stage where
  | parseURL
  | gethostbyname
  | socket
  | connect

inductive Thread where
  | unborn
  | idle
  | spawning (entry : Addr)
  | connecting (entry : Addr) (stage : Stage)
  | receiving (entry : Addr) (loop : LoopState)
  | locking (caller : Caller) (op : Op)
  | inside (caller : Caller) (op : Op)
  | evicting (caller : Caller) (url : Url)
  | evictInside (caller : Caller) (url : Url)
  | sleeping (entry : Addr)
  | returned

/-- What a handler passed to `send` (nothing when `downloadedSize` is 0), and
whether the entry it read was still allocated. -/
structure Served where
  entry : Addr
  sent : Option (List Byte)
  live : Bool
  deriving DecidableEq

structure State where
  memory : Cache
  nextId : Addr
  owner : Mutex → Option Tid
  thread : Tid → Thread
  served : List Served

/-- The answers of the environment inside a critical section: the time, whether
memory is allocated, and what a read of a freed entry gives. -/
structure Choices where
  now : Int
  allocated : Bool
  stale : Option (List Byte)

inductive Action where
  | accept (tid : Tid) (url : Url)
  | call (tid : Tid) (op : Op)
  | lock (tid : Tid)
  | body (tid : Tid) (choices : Choices)
  | pthreadCreate (tid : Tid) (child : Option Tid)
  | advance (tid : Tid) (ok : Bool) (headerBuffer : List Byte)
  | recv (tid : Tid) (received : Option Chunk)
  | wake (tid : Tid)

def Action.actor : Action → Tid
  | .accept tid _ | .call tid _ | .lock tid | .body tid _ | .pthreadCreate tid _
  | .advance tid _ _ | .recv tid _ | .wake tid => tid

/-! ## Critical sections -/

inductive Outcome where
  | returns (result : Option Addr)
  | evicts
  | waits

/-- What a critical section does: `woken` is the entry whose `cond` it
broadcasts. -/
structure Effect where
  memory : Cache
  nextId : Addr
  woken : Option Addr
  served : List Served
  outcome : Outcome

def sendIfAny (entry : CacheEntry) : Option (List Byte) :=
  if 0 < entry.downloadedSize then some entry.content else none

def Op.effect (choices : Choices) (memory : Cache) (nextId : Addr) : Op → Except Fault Effect
  | .getCacheEntry url => do
      let (found, after) ← memory.getCacheEntry traversalFuel url.bytes choices.now
      .ok ⟨after, nextId, none, [], .returns found⟩
  | .addNewEntry url =>
      if cacheMaxSize ≤ memory.cacheSize then .ok ⟨memory, nextId, none, [], .evicts⟩
      else
        let offered := if choices.allocated then some nextId else none
        let (added, after) := memory.linkNewEntry url.bytes choices.now offered
        .ok ⟨after, if added.isSome then nextId + 1 else nextId, none, [], .returns added⟩
  | .deleteEntry entry => do
      let after ← memory.deleteEntry traversalFuel (some entry)
      .ok ⟨after, nextId, none, [], .returns none⟩
  | .removeOldest => do
      let after ← memory.removeOldest traversalFuel
      .ok ⟨after, nextId, none, [], .returns none⟩
  | .cacheInsertData entry data =>
      let after := memory.modify entry fun e => e.cacheInsertData choices.allocated data
      .ok ⟨after, nextId, none, [], .returns none⟩
  | .cacheMarkComplete entry =>
      let after := memory.modify entry CacheEntry.cacheMarkComplete
      .ok ⟨after, nextId, some entry, [], .returns none⟩
  | .cacheCleanUp => do
      let after ← memory.cacheCleanUp traversalFuel
      .ok ⟨after, nextId, none, [], .returns none⟩
  | .serve entry =>
      match memory.heap entry with
      | some e =>
          if e.isComplete then .ok ⟨memory, nextId, none, [⟨entry, sendIfAny e, true⟩], .returns none⟩
          else .ok ⟨memory, nextId, none, [], .waits⟩
      | none =>
          match choices.stale with
          | some bytes => .ok ⟨memory, nextId, none, [⟨entry, some bytes, false⟩], .returns none⟩
          | none => .ok ⟨memory, nextId, none, [], .waits⟩

/-! ## Between critical sections -/

/-- The downloader's next call: the ranges still to insert, then the next
`recv`, or the completion mark when the loop is left. -/
def downloadNext (entry : Addr) : List (List Byte) → Option LoopState → Thread
  | range :: pending, resume => .locking (.downloader pending resume) (.cacheInsertData entry range)
  | [], some loop => .receiving entry loop
  | [], none => .locking (.downloader [] none) (.cacheMarkComplete entry)

/-- Where a thread goes on after a call.  A handler whose `addNewEntry` failed
dereferences NULL and is not heard of again. -/
def resume : Caller → Op → Option Addr → Thread
  | .client, _, _ => .idle
  | .handler, .getCacheEntry _, some entry => .locking .handler (.serve entry)
  | .handler, .getCacheEntry url, none => .locking .handler (.addNewEntry url)
  | .handler, .addNewEntry _, some entry => .spawning entry
  | .downloader pending loop, .cacheInsertData entry _, _ => downloadNext entry pending loop
  | _, _, _ => .returned

def Stage.advance (entry : Addr) (ok : Bool) (headerBuffer : List Byte) : Stage → Thread
  | .parseURL =>
      if ok then .connecting entry .gethostbyname
      else .locking (.downloader [] none) (.deleteEntry entry)
  | .gethostbyname => if ok then .connecting entry .socket else .returned
  | .socket => if ok then .connecting entry .connect else .returned
  | .connect => if ok then .receiving entry (.start headerBuffer) else .returned

/-- The thread after one `recv`; 0 and -1 both leave the loop. -/
def receive (entry : Addr) (loop : LoopState) : Option Chunk → Thread
  | some chunk =>
      let iteration := loopBody loop chunk.bytes
      downloadNext entry iteration.ranges (if iteration.leaves then none else some iteration.state)
  | none => downloadNext entry [] none

/-- A sleeper that is woken asks for `entry->mutex` and tests `isComplete` again. -/
def Thread.broadcast (entry : Option Addr) : Thread → Thread
  | .sleeping waited => if entry = some waited then .locking .handler (.serve waited)
      else .sleeping waited
  | thread => thread

namespace State

def setThread (s : State) (tid : Tid) (thread : Thread) : State :=
  { s with thread := Function.update s.thread tid thread }

/-- A mutex is granted to a thread that asks for it while nobody owns it. -/
def acquire (s : State) (mutex : Mutex) (tid : Tid) (thread : Thread) : Option State :=
  match s.owner mutex with
  | none => some
      { s with
        owner := Function.update s.owner mutex (some tid)
        thread := Function.update s.thread tid thread }
  | some _ => none

def unlock (s : State) (mutex : Mutex) : State :=
  { s with owner := Function.update s.owner mutex none }

/-- The memory and the sleepers after a critical section. -/
def apply (s : State) (effect : Effect) : State :=
  { s with
    memory := effect.memory
    nextId := effect.nextId
    thread := fun tid => (s.thread tid).broadcast effect.woken
    served := s.served ++ effect.served }

/-- `evicts` keeps the mutex, the other outcomes give it back. -/
def finish (s : State) (tid : Tid) (caller : Caller) (op : Op) (effect : Effect) : State :=
  match effect.outcome, op with
  | .returns result, op => ((s.apply effect).unlock op.mutex).setThread tid (resume caller op result)
  | .evicts, .addNewEntry url => (s.apply effect).setThread tid (.evicting caller url)
  | .waits, .serve entry => ((s.apply effect).unlock op.mutex).setThread tid (.sleeping entry)
  | _, _ => s.apply effect

def stepBody (s : State) (tid : Tid) (choices : Choices) : Option State :=
  match s.thread tid with
  | .inside caller op =>
      match op.effect choices s.memory s.nextId with
      | .ok effect => some (s.finish tid caller op effect)
      | .error _ => none
  | .evictInside caller url =>
      match s.memory.removeOldest traversalFuel with
      | .ok after =>
          some (({ s with memory := after }.unlock .cacheMutex).setThread tid
            (.inside caller (.addNewEntry url)))
      | .error _ => none
  | _ => none

def stepLock (s : State) (tid : Tid) : Option State :=
  match s.thread tid with
  | .locking caller op => s.acquire op.mutex tid (.inside caller op)
  | .evicting caller url => s.acquire .cacheMutex tid (.evictInside caller url)
  | _ => none

/-- Whatever `pthread_create` answers, the handler goes on to wait. -/
def stepCreate (s : State) (tid : Tid) (child : Option Tid) : Option State :=
  match s.thread tid, child with
  | .spawning entry, none => some (s.setThread tid (.locking .handler (.serve entry)))
  | .spawning entry, some new =>
      match s.thread new with
      | .unborn => some ((s.setThread tid (.locking .handler (.serve entry))).setThread new
          (.connecting entry .parseURL))
      | _ => none
  | _, _ => none

/-- The answers of the call at a stage: `parseURL` depends on the URL of the entry,
where it is still allocated, the others on the environment. -/
def mayAnswer (s : State) (entry : Addr) (ok : Bool) : Stage → Bool
  | .parseURL =>
      match s.memory.heap entry with
      | some e => ok == e.url.parses
      | none => true
  | _ => true

end State

def Op.isServe : Op → Bool
  | .serve _ => true
  | _ => false

def threadStep (s : State) : Action → Option State
  | .accept tid url =>
      match s.thread tid with
      | .unborn => some (s.setThread tid (.locking .handler (.getCacheEntry url)))
      | _ => none
  | .call tid op =>
      if op.isServe then none
      else
        match s.thread tid with
        | .unborn | .idle => some (s.setThread tid (.locking .client op))
        | _ => none
  | .lock tid => s.stepLock tid
  | .body tid choices => s.stepBody tid choices
  | .pthreadCreate tid child => s.stepCreate tid child
  | .advance tid ok headerBuffer =>
      match s.thread tid with
      | .connecting entry stage =>
          if s.mayAnswer entry ok stage then
            some (s.setThread tid (stage.advance entry ok headerBuffer))
          else none
      | _ => none
  | .recv tid received =>
      match s.thread tid with
      | .receiving entry loop => some (s.setThread tid (receive entry loop received))
      | _ => none
  | .wake tid =>
      match s.thread tid with
      | .sleeping entry => some (s.setThread tid (.locking .handler (.serve entry)))
      | _ => none

def State.start : State where
  memory := .empty
  nextId := 0
  owner := fun _ => none
  thread := fun _ => .unborn
  served := []

/-- All threads, clients of the cache included. -/
def cacheSystem : System State Action := ⟨.start, threadStep⟩

def Action.isCall : Action → Bool
  | .call _ _ => true
  | _ => false

/-- The proxy: handlers and the downloaders they start. -/
def proxySystem : System State Action := cacheSystem.restrict fun action => !action.isCall

/-! ## Facts about all threads -/

theorem downloadNext_elim {P : Thread → Prop} {entry : Addr}
    (inserts : ∀ range pending loop,
      P (.locking (.downloader pending loop) (.cacheInsertData entry range)))
    (receives : ∀ loop, P (.receiving entry loop))
    (marks : P (.locking (.downloader [] none) (.cacheMarkComplete entry)))
    (pending : List (List Byte)) (loop : Option LoopState) :
    P (downloadNext entry pending loop) := by
  cases pending with
  | cons range rest => exact inserts range rest loop
  | nil =>
      cases loop with
      | some state => exact receives state
      | none => exact marks

theorem receive_elim {P : Thread → Prop} {entry : Addr}
    (next : ∀ pending loop, P (downloadNext entry pending loop)) (loop : LoopState)
    (received : Option Chunk) : P (receive entry loop received) := by
  cases received with
  | some chunk => exact next _ _
  | none => exact next [] none

theorem broadcast_elim {P : Thread → Prop} (entry : Option Addr) {thread : Thread}
    (same : P thread)
    (woken : ∀ waited, thread = .sleeping waited → P (.locking .handler (.serve waited))) :
    P (thread.broadcast entry) := by
  cases thread with
  | sleeping waited =>
      simp only [Thread.broadcast]
      split
      · exact woken waited rfl
      · exact same
  | _ => exact same

theorem setThread_all {P : Thread → Prop} {s : State} (all : ∀ tid, P (s.thread tid))
    (tid : Tid) {thread : Thread} (new : P thread) (other : Tid) :
    P ((s.setThread tid thread).thread other) := by
  by_cases here : other = tid
  · simpa [State.setThread, here] using new
  · simpa [State.setThread, Function.update_of_ne here] using all other

/-- After a critical section that returns: its own thread is the new one, the
others may have been woken. -/
theorem returns_all {P : Thread → Prop} {s : State} {effect : Effect} {mutex : Mutex}
    {tid : Tid} {thread : Thread}
    (all : ∀ other, other ≠ tid → P ((s.thread other).broadcast effect.woken)) (new : P thread)
    (other : Tid) : P ((((s.apply effect).unlock mutex).setThread tid thread).thread other) := by
  by_cases here : other = tid
  · simpa [State.setThread, here] using new
  · simpa [State.setThread, State.unlock, State.apply, Function.update_of_ne here]
      using all other here

/-! ## The steps, one rule each -/

inductive Move (s : State) : Action → State → Prop where
  | accept {tid : Tid} {url : Url} (born : s.thread tid = .unborn) :
      Move s (.accept tid url) (s.setThread tid (.locking .handler (.getCacheEntry url)))
  | call {tid : Tid} {op : Op} (free : s.thread tid = .unborn ∨ s.thread tid = .idle) :
      Move s (.call tid op) (s.setThread tid (.locking .client op))
  | lock {tid : Tid} {caller : Caller} {op : Op} (waiting : s.thread tid = .locking caller op)
      (free : s.owner op.mutex = none) :
      Move s (.lock tid)
        { s with
          owner := Function.update s.owner op.mutex (some tid)
          thread := Function.update s.thread tid (.inside caller op) }
  | nestedLock {tid : Tid} {caller : Caller} {url : Url}
      (waiting : s.thread tid = .evicting caller url) (free : s.owner .cacheMutex = none) :
      Move s (.lock tid)
        { s with
          owner := Function.update s.owner .cacheMutex (some tid)
          thread := Function.update s.thread tid (.evictInside caller url) }
  | returns {tid : Tid} {choices : Choices} {caller : Caller} {op : Op} {effect : Effect}
      {result : Option Addr} (here : s.thread tid = .inside caller op)
      (ran : op.effect choices s.memory s.nextId = .ok effect)
      (outcome : effect.outcome = .returns result) :
      Move s (.body tid choices)
        (((s.apply effect).unlock op.mutex).setThread tid (resume caller op result))
  | evicts {tid : Tid} {choices : Choices} {caller : Caller} {url : Url}
      (here : s.thread tid = .inside caller (.addNewEntry url))
      (full : cacheMaxSize ≤ s.memory.cacheSize) :
      Move s (.body tid choices) (s.setThread tid (.evicting caller url))
  | waits {tid : Tid} {choices : Choices} {caller : Caller} {entry : Addr}
      (here : s.thread tid = .inside caller (.serve entry))
      (incomplete : ∀ e, s.memory.heap entry = some e → e.isComplete = false) :
      Move s (.body tid choices)
        ((s.unlock (.entryMutex entry)).setThread tid (.sleeping entry))
  | nestedBody {tid : Tid} {choices : Choices} {caller : Caller} {url : Url} {after : Cache}
      (here : s.thread tid = .evictInside caller url)
      (ran : s.memory.removeOldest traversalFuel = .ok after) :
      Move s (.body tid choices)
        (({ s with memory := after }.unlock .cacheMutex).setThread tid
          (.inside caller (.addNewEntry url)))
  | createFailed {tid : Tid} {entry : Addr} (here : s.thread tid = .spawning entry) :
      Move s (.pthreadCreate tid none) (s.setThread tid (.locking .handler (.serve entry)))
  | created {tid new : Tid} {entry : Addr} (here : s.thread tid = .spawning entry)
      (born : s.thread new = .unborn) :
      Move s (.pthreadCreate tid (some new))
        ((s.setThread tid (.locking .handler (.serve entry))).setThread new
          (.connecting entry .parseURL))
  | advance {tid : Tid} {entry : Addr} {stage : Stage} {ok : Bool} {headerBuffer : List Byte}
      (here : s.thread tid = .connecting entry stage)
      (answers : s.mayAnswer entry ok stage = true) :
      Move s (.advance tid ok headerBuffer)
        (s.setThread tid (stage.advance entry ok headerBuffer))
  | recv {tid : Tid} {entry : Addr} {loop : LoopState} {received : Option Chunk}
      (here : s.thread tid = .receiving entry loop) :
      Move s (.recv tid received) (s.setThread tid (receive entry loop received))
  | wake {tid : Tid} {entry : Addr} (here : s.thread tid = .sleeping entry) :
      Move s (.wake tid) (s.setThread tid (.locking .handler (.serve entry)))

theorem acquire_some {s next : State} {mutex : Mutex} {tid : Tid} {thread : Thread}
    (granted : s.acquire mutex tid thread = some next) :
    s.owner mutex = none ∧ next =
      { s with
        owner := Function.update s.owner mutex (some tid)
        thread := Function.update s.thread tid thread } := by
  unfold State.acquire at granted
  split at granted
  · exact ⟨by assumption, (Option.some.inj granted).symm⟩
  · cases granted

theorem State.apply_idle (s : State) (outcome : Outcome) :
    s.apply ⟨s.memory, s.nextId, none, [], outcome⟩ = s := by
  have asleep : ∀ thread : Thread, thread.broadcast none = thread := by
    intro thread
    cases thread <;> simp [Thread.broadcast]
  simp [State.apply, asleep]

/-- Only `addNewEntry` on a full cache evicts, and only `serve` waits, on an
entry that is incomplete or freed. -/
theorem effect_outcome {op : Op} {choices : Choices} {memory : Cache} {nextId : Addr}
    {effect : Effect} (ran : op.effect choices memory nextId = .ok effect) :
    (∃ result, effect.outcome = .returns result) ∨
      (∃ url, op = .addNewEntry url ∧ cacheMaxSize ≤ memory.cacheSize ∧
        effect = ⟨memory, nextId, none, [], .evicts⟩) ∨
      (∃ entry, op = .serve entry ∧
        (∀ e, memory.heap entry = some e → e.isComplete = false) ∧
        effect = ⟨memory, nextId, none, [], .waits⟩) := by
  cases op with
  | addNewEntry url =>
      simp only [Op.effect] at ran
      split at ran
      · cases ran
        exact Or.inr (Or.inl ⟨url, rfl, by assumption, rfl⟩)
      · cases ran
        exact Or.inl ⟨_, rfl⟩
  | serve entry =>
      simp only [Op.effect] at ran
      split at ran
      · rename_i e loaded
        split at ran
        · cases ran
          exact Or.inl ⟨_, rfl⟩
        · cases ran
          rename_i incomplete
          refine Or.inr (Or.inr ⟨entry, rfl, ?_, rfl⟩)
          intro other isOther
          rw [loaded, Option.some.injEq] at isOther
          rw [← isOther]
          simpa using incomplete
      · rename_i freed
        split at ran
        · cases ran
          exact Or.inl ⟨_, rfl⟩
        · cases ran
          refine Or.inr (Or.inr ⟨entry, rfl, ?_, rfl⟩)
          intro other isOther
          rw [freed] at isOther
          cases isOther
  | cacheInsertData entry data =>
      cases ran
      exact Or.inl ⟨_, rfl⟩
  | cacheMarkComplete entry =>
      cases ran
      exact Or.inl ⟨_, rfl⟩
  | _ =>
      simp only [Op.effect] at ran
      obtain ⟨_, _, done⟩ := bind_ok ran
      cases done
      exact Or.inl ⟨_, rfl⟩

theorem finish_move {s : State} {tid : Tid} {choices : Choices} {caller : Caller} {op : Op}
    {effect : Effect} (here : s.thread tid = .inside caller op)
    (ran : op.effect choices s.memory s.nextId = .ok effect) :
    Move s (.body tid choices) (s.finish tid caller op effect) := by
  rcases effect_outcome ran with ⟨result, returns⟩ | ⟨url, isAdd, full, evicts⟩ |
    ⟨entry, isServe, incomplete, waits⟩
  · simp only [State.finish, returns]
    exact .returns here ran returns
  · subst isAdd evicts
    simp only [State.finish, State.apply_idle]
    exact .evicts here full
  · subst isServe waits
    simp only [State.finish, State.apply_idle]
    exact .waits here incomplete

theorem threadStep_move {s next : State} {action : Action}
    (stepped : threadStep s action = some next) : Move s action next := by
  cases action with
  | accept tid url =>
      simp only [threadStep] at stepped
      split at stepped
      · cases stepped
        exact .accept (by assumption)
      · cases stepped
  | call tid op =>
      simp only [threadStep] at stepped
      split at stepped
      · cases stepped
      · split at stepped
        · cases stepped
          exact .call (Or.inl (by assumption))
        · cases stepped
          exact .call (Or.inr (by assumption))
        · cases stepped
  | lock tid =>
      simp only [threadStep, State.stepLock] at stepped
      split at stepped
      · obtain ⟨free, isNext⟩ := acquire_some stepped
        subst isNext
        exact .lock (by assumption) free
      · obtain ⟨free, isNext⟩ := acquire_some stepped
        subst isNext
        exact .nestedLock (by assumption) free
      · cases stepped
  | body tid choices =>
      simp only [threadStep, State.stepBody] at stepped
      split at stepped
      · split at stepped
        · cases stepped
          exact finish_move (by assumption) (by assumption)
        · cases stepped
      · split at stepped
        · cases stepped
          exact .nestedBody (by assumption) (by assumption)
        · cases stepped
      · cases stepped
  | pthreadCreate tid child =>
      simp only [threadStep, State.stepCreate] at stepped
      split at stepped
      · cases stepped
        exact .createFailed (by assumption)
      · split at stepped
        · cases stepped
          exact .created (by assumption) (by assumption)
        · cases stepped
      · cases stepped
  | advance tid ok headerBuffer =>
      simp only [threadStep] at stepped
      split at stepped
      · split at stepped
        · cases stepped
          exact .advance (by assumption) (by assumption)
        · cases stepped
      · cases stepped
  | recv tid received =>
      simp only [threadStep] at stepped
      split at stepped
      · cases stepped
        exact .recv (by assumption)
      · cases stepped
  | wake tid =>
      simp only [threadStep] at stepped
      split at stepped
      · cases stepped
        exact .wake (by assumption)
      · cases stepped

end OsLabs.Proxy
