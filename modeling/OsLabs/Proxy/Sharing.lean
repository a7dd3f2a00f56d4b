import OsLabs.Proxy.CriticalSections

/-!
# How the threads of the proxy share entries

The abstract model forgets locks, list and code positions: it keeps what the
entries contain, which entry each handler holds and which entry each thread is
to fill.  An entry is filled by one thread from its creation on; the right to
do so passes from the handler that added it to the downloader, and ends with
the completion mark, with `deleteEntry` or with a failure.  Every step of the
proxy is an event of this model or changes nothing in it.
-/

set_option autoImplicit false

namespace OsLabs.Proxy

open OsLabs.CString OsLabs.Transition

/-- What a handler sends from a complete entry. -/
def Payload.reply (payload : Payload) : Option (List Byte) :=
  if 0 < payload.data.length then some payload.data else none

structure Shared where
  entries : Addr → Option Payload
  nextId : Addr
  holds : Tid → Option Addr
  writes : Tid → Option Addr
  served : List Served

inductive Event where
  | quiet
  | hit (tid : Tid) (entry : Addr)
  | added (tid : Tid) (url : Url)
  | created (tid child : Tid) (entry : Addr)
  | abandoned (tid : Tid)
  | deleted (tid : Tid) (entry : Addr)
  | inserted (tid : Tid) (entry : Addr) (allocated : Bool) (data : List Byte)
  | completed (tid : Tid) (entry : Addr)
  | served (tid : Tid) (record : Served)

namespace Shared

def Enabled (m : Shared) : Event → Prop
  | .quiet => True
  | .hit tid entry => m.entries entry ≠ none ∧ m.holds tid = none
  | .added tid _ => m.entries m.nextId = none ∧ m.holds tid = none ∧ m.writes tid = none
  | .created tid child entry => m.writes tid = some entry ∧ m.writes child = none
  | .abandoned _ => True
  | .deleted tid entry | .inserted tid entry _ _ | .completed tid entry => m.writes tid = some entry
  | .served tid record => m.holds tid = some record.entry ∧
      (record.live = true → ∃ p, m.entries record.entry = some p ∧ p.isComplete = true ∧
        record.sent = p.reply) ∧
      (record.live = false → m.entries record.entry = none)

def after (m : Shared) : Event → Shared
  | .quiet => m
  | .hit tid entry => { m with holds := Function.update m.holds tid (some entry) }
  | .added tid url =>
      { m with
        entries := Function.update m.entries m.nextId (some ⟨url, [], false⟩)
        nextId := m.nextId + 1
        holds := Function.update m.holds tid (some m.nextId)
        writes := Function.update m.writes tid (some m.nextId) }
  | .created tid child entry =>
      { m with writes := Function.update (Function.update m.writes tid none) child (some entry) }
  | .abandoned tid => { m with writes := Function.update m.writes tid none }
  | .deleted tid entry =>
      { m with
        entries := Function.update m.entries entry none
        writes := Function.update m.writes tid none }
  | .inserted _ entry allocated data =>
      let payload := (m.entries entry).map (Payload.insert allocated data)
      { m with entries := Function.update m.entries entry payload }
  | .completed tid entry =>
      { m with
        entries := Function.update m.entries entry ((m.entries entry).map Payload.complete)
        writes := Function.update m.writes tid none }
  | .served tid record =>
      { m with
        holds := Function.update m.holds tid none
        served := m.served ++ [record] }

end Shared

/-! ## The abstraction -/

/-- The entry a handler has in hand, from the return of `getCacheEntry` or
`addNewEntry` to its final unlock. -/
def Thread.holds : Thread → Option Addr
  | .spawning entry | .sleeping entry => some entry
  | .locking _ (.serve entry) | .inside _ (.serve entry) => some entry
  | _ => none

def Op.target : Op → Option Addr
  | .deleteEntry entry | .cacheInsertData entry _ | .cacheMarkComplete entry => some entry
  | _ => none

/-- The entry of a `downloadData` that has not returned and will still use it. -/
def Thread.downloads : Thread → Option Addr
  | .connecting entry _ | .receiving entry _ => some entry
  | .locking (.downloader _ _) op | .inside (.downloader _ _) op => op.target
  | _ => none

/-- The entry whose download the thread runs or is about to start. -/
def Thread.writes : Thread → Option Addr
  | .spawning entry => some entry
  | thread => thread.downloads

theorem downloads_writes {thread : Thread} {entry : Addr}
    (downloads : thread.downloads = some entry) : thread.writes = some entry := by
  cases thread with
  | spawning other => cases downloads
  | _ => exact downloads

def State.shared (s : State) : Shared where
  entries := s.memory.payload
  nextId := s.nextId
  holds tid := (s.thread tid).holds
  writes tid := (s.thread tid).writes
  served := s.served

@[simp] theorem broadcast_holds (entry : Option Addr) (thread : Thread) :
    (thread.broadcast entry).holds = thread.holds := by
  apply broadcast_elim (P := fun other => other.holds = thread.holds) entry rfl
  intro waited asleep
  rw [asleep]
  rfl

@[simp] theorem broadcast_writes (entry : Option Addr) (thread : Thread) :
    (thread.broadcast entry).writes = thread.writes := by
  apply broadcast_elim (P := fun other => other.writes = thread.writes) entry rfl
  intro waited asleep
  rw [asleep]
  rfl

@[simp] theorem downloadNext_holds (entry : Addr) (pending : List (List Byte))
    (loop : Option LoopState) : (downloadNext entry pending loop).holds = none :=
  downloadNext_elim (P := fun thread => thread.holds = none) (fun _ _ _ => rfl) (fun _ => rfl) rfl
    pending loop

@[simp] theorem downloadNext_writes (entry : Addr) (pending : List (List Byte))
    (loop : Option LoopState) : (downloadNext entry pending loop).writes = some entry :=
  downloadNext_elim (P := fun thread => thread.writes = some entry) (fun _ _ _ => rfl)
    (fun _ => rfl) rfl pending loop

theorem update_comp {α β : Type} (f : α → β) (thread : Tid → α) (tid : Tid) (value : α) :
    (fun other => f (Function.update thread tid value other)) =
      Function.update (fun other => f (thread other)) tid (f value) := by
  funext other
  by_cases here : other = tid
  · simp [here]
  · simp [Function.update_of_ne here]

theorem shared_setThread (s : State) (tid : Tid) (thread : Thread) :
    (s.setThread tid thread).shared =
      { s.shared with
        holds := Function.update s.shared.holds tid thread.holds
        writes := Function.update s.shared.writes tid thread.writes } := by
  simp only [State.shared, State.setThread, update_comp]

@[simp] theorem shared_unlock (s : State) (mutex : Mutex) : (s.unlock mutex).shared = s.shared :=
  rfl

theorem shared_apply (s : State) (effect : Effect) :
    (s.apply effect).shared =
      { s.shared with
        entries := effect.memory.payload
        nextId := effect.nextId
        served := s.served ++ effect.served } := by
  simp only [State.shared, State.apply, broadcast_holds, broadcast_writes]

theorem holds_kept {s : State} {tid : Tid} {entry : Option Addr}
    (same : (s.thread tid).holds = entry) :
    Function.update s.shared.holds tid entry = s.shared.holds := by
  rw [← same]
  exact Function.update_eq_self tid s.shared.holds

theorem writes_kept {s : State} {tid : Tid} {entry : Option Addr}
    (same : (s.thread tid).writes = entry) :
    Function.update s.shared.writes tid entry = s.shared.writes := by
  rw [← same]
  exact Function.update_eq_self tid s.shared.writes

/-- A thread that keeps what it holds and writes changes nothing. -/
theorem shared_same {s : State} {tid : Tid} {thread : Thread}
    (holds : (s.thread tid).holds = thread.holds)
    (writes : (s.thread tid).writes = thread.writes) :
    (s.setThread tid thread).shared = s.shared := by
  rw [shared_setThread, holds_kept holds, writes_kept writes]

theorem shared_returns (s : State) (effect : Effect) (mutex : Mutex) (tid : Tid)
    (thread : Thread) :
    (((s.apply effect).unlock mutex).setThread tid thread).shared =
      { entries := effect.memory.payload
        nextId := effect.nextId
        holds := Function.update s.shared.holds tid thread.holds
        writes := Function.update s.shared.writes tid thread.writes
        served := s.served ++ effect.served } := by
  rw [shared_setThread, shared_unlock, shared_apply]

/-! ## Threads of the proxy -/

/-- The calls of `handleRequest` and of `downloadData`. -/
def Caller.Runs : Caller → Op → Prop
  | .handler, .getCacheEntry _ | .handler, .addNewEntry _ | .handler, .serve _ => True
  | .downloader _ _, .deleteEntry _ | .downloader _ _, .cacheInsertData _ _
  | .downloader _ _, .cacheMarkComplete _ => True
  | _, _ => False

def Thread.FromProxy : Thread → Prop
  | .idle => False
  | .locking caller op | .inside caller op => caller.Runs op
  | _ => True

theorem downloadNext_fromProxy (entry : Addr) (pending : List (List Byte))
    (loop : Option LoopState) : (downloadNext entry pending loop).FromProxy :=
  downloadNext_elim (fun _ _ _ => trivial) (fun _ => trivial) trivial pending loop

theorem advance_fromProxy (entry : Addr) (ok : Bool) (headerBuffer : List Byte) (stage : Stage) :
    (stage.advance entry ok headerBuffer).FromProxy := by
  cases stage <;> cases ok <;> trivial

theorem resume_fromProxy {caller : Caller} {op : Op} (runs : caller.Runs op)
    (result : Option Addr) : (resume caller op result).FromProxy := by
  cases caller with
  | client => cases op <;> exact runs.elim
  | handler => cases op <;> first | exact runs.elim | (cases result <;> trivial)
  | downloader pending loop =>
      cases op <;> first | exact runs.elim | exact downloadNext_fromProxy _ _ _ | trivial

structure Proxied (s : State) : Prop where
  sound : Sound s
  threads : ∀ tid, (s.thread tid).FromProxy

theorem start_proxied : Proxied .start := ⟨start_sound, fun _ => trivial⟩

theorem Proxied.runs {s : State} (proxied : Proxied s) {tid : Tid} {caller : Caller} {op : Op}
    (here : s.thread tid = .inside caller op) : caller.Runs op := by
  have from_ := proxied.threads tid
  rwa [here] at from_

theorem proxyStep_cases {s next : State} {action : Action}
    (stepped : proxySystem.step s action = some next) :
    threadStep s action = some next ∧ action.isCall = false := by
  obtain ⟨allowed, stepped⟩ := cacheSystem.restrict_step _ s next action stepped
  exact ⟨stepped, by simpa using allowed⟩

theorem proxyStep_proxied {s next : State} {action : Action} (proxied : Proxied s)
    (stepped : proxySystem.step s action = some next) : Proxied next := by
  obtain ⟨stepped, noCall⟩ := proxyStep_cases stepped
  refine ⟨threadStep_sound proxied.sound stepped, ?_⟩
  have all := proxied.threads
  cases threadStep_move stepped with
  | accept born => exact setThread_all all _ trivial
  | call free => cases noCall
  | @lock tid caller op waiting free =>
      have runs := all tid
      rw [waiting] at runs
      exact setThread_all all tid runs
  | nestedLock waiting free => exact setThread_all all _ trivial
  | returns here ran outcome =>
      exact returns_all (fun other _ => broadcast_elim _ (all other) fun _ _ => trivial)
        (resume_fromProxy (proxied.runs here) _)
  | evicts here full => exact setThread_all all _ trivial
  | waits here incomplete => exact setThread_all all _ trivial
  | nestedBody here ran => exact absurd here (proxied.sound.noNested _ _ _)
  | createFailed here => exact setThread_all all _ trivial
  | created here born => exact setThread_all (setThread_all all _ (by trivial)) _ trivial
  | advance here => exact setThread_all all _ (advance_fromProxy _ _ _ _)
  | recv here => exact setThread_all all _ (receive_elim (downloadNext_fromProxy _) _ _)
  | wake here => exact setThread_all all _ trivial

/-! ## The refinement -/

/-- The step behind an event that creates, deletes or gives up an entry. -/
def Cause (s : State) (action : Action) : Event → Prop
  | .added tid url => ∃ choices caller, action = .body tid choices ∧
      s.thread tid = .inside caller (.addNewEntry url) ∧ choices.allocated = true ∧
      s.memory.cacheSize < cacheMaxSize
  | .abandoned tid => action = .pthreadCreate tid none ∨
      ∃ headerBuffer, action = .advance tid false headerBuffer
  | .deleted tid entry => ∃ choices caller, action = .body tid choices ∧
      s.thread tid = .inside caller (.deleteEntry entry)
  | _ => True

/-- The event is possible, it leads where the step leads, and the step is of its
kind. -/
structure Happens (s : State) (action : Action) (next : State) (event : Event) : Prop where
  enabled : s.shared.Enabled event
  after : next.shared = s.shared.after event
  cause : Cause s action event

theorem happens_quiet {s next : State} {action : Action} (same : next.shared = s.shared) :
    ∃ event, Happens s action next event :=
  ⟨.quiet, trivial, same, trivial⟩

theorem sendIfAny_reply (entry : CacheEntry) : sendIfAny entry = entry.payload.reply := by
  simp [sendIfAny, Payload.reply, CacheEntry.payload, entry.filled]

section Returns

variable {s : State} {tid : Tid} {choices : Choices} {effect : Effect} {result : Option Addr}

theorem service_happens {entry : Addr} (here : s.thread tid = .inside .handler (.serve entry))
    (ran : (Op.serve entry).effect choices s.memory s.nextId = .ok effect)
    (outcome : effect.outcome = .returns result) :
    ∃ event, Happens s (.body tid choices)
      (((s.apply effect).unlock (.entryMutex entry)).setThread tid
        (resume .handler (.serve entry) result)) event := by
  have noWrite : (s.thread tid).writes = none := by rw [here]; rfl
  rcases serve_effect choices s.memory s.nextId entry with ⟨record, same, isEntry, live, freed⟩ |
    ⟨same, _⟩
  · rw [ran] at same
    cases same
    refine ⟨.served tid record, ⟨?_, ?_, ?_⟩, ?_, trivial⟩
    · rw [isEntry]
      simp only [State.shared, here]
      rfl
    · intro isLive
      obtain ⟨e, loaded, complete, sent⟩ := live isLive
      rw [isEntry]
      exact ⟨e.payload, Cache.payload_of_some loaded, complete, by rw [sent, sendIfAny_reply]⟩
    · intro notLive
      rw [isEntry]
      exact (Cache.payload_eq_none_iff _ _).mpr (freed notLive)
    · rw [shared_returns]
      show Shared.mk s.memory.payload s.nextId (Function.update s.shared.holds tid none)
        (Function.update s.shared.writes tid none) (s.served ++ [record]) = _
      rw [writes_kept noWrite]
      rfl
  · rw [ran] at same
    cases same
    cases outcome

theorem insertion_happens {entry : Addr} {data : List Byte} {pending : List (List Byte)}
    {loop : Option LoopState}
    (here : s.thread tid = .inside (.downloader pending loop) (.cacheInsertData entry data))
    (ran : (Op.cacheInsertData entry data).effect choices s.memory s.nextId = .ok effect) :
    ∃ event, Happens s (.body tid choices)
      (((s.apply effect).unlock (.entryMutex entry)).setThread tid
        (downloadNext entry pending loop)) event := by
  cases ran
  have changed := Cache.payload_modify s.memory entry _ _ fun e =>
    cacheInsertData_payload e choices.allocated data
  have noHold : (s.thread tid).holds = none := by rw [here]; rfl
  have writing : (s.thread tid).writes = some entry := by rw [here]; rfl
  refine ⟨.inserted tid entry choices.allocated data, writing, ?_, trivial⟩
  rw [shared_returns, downloadNext_holds, downloadNext_writes, holds_kept noHold,
    writes_kept writing, List.append_nil, changed]
  rfl

theorem completion_happens {entry : Addr} {pending : List (List Byte)} {loop : Option LoopState}
    (here : s.thread tid = .inside (.downloader pending loop) (.cacheMarkComplete entry))
    (ran : (Op.cacheMarkComplete entry).effect choices s.memory s.nextId = .ok effect) :
    ∃ event, Happens s (.body tid choices)
      (((s.apply effect).unlock (.entryMutex entry)).setThread tid
        (resume (.downloader pending loop) (.cacheMarkComplete entry) result)) event := by
  cases ran
  have changed := Cache.payload_modify s.memory entry CacheEntry.cacheMarkComplete
    Payload.complete fun _ => rfl
  have noHold : (s.thread tid).holds = none := by rw [here]; rfl
  have writing : (s.thread tid).writes = some entry := by rw [here]; rfl
  refine ⟨.completed tid entry, writing, ?_, trivial⟩
  rw [shared_returns]
  show Shared.mk (s.memory.modify entry CacheEntry.cacheMarkComplete).payload s.nextId
    (Function.update s.shared.holds tid none) (Function.update s.shared.writes tid none)
    (s.served ++ []) = _
  rw [holds_kept noHold, List.append_nil, changed]
  rfl

variable (proxied : Proxied s)

include proxied

theorem lookup_happens {url : Url} (here : s.thread tid = .inside .handler (.getCacheEntry url))
    (ran : (Op.getCacheEntry url).effect choices s.memory s.nextId = .ok effect)
    (outcome : effect.outcome = .returns result) :
    ∃ event, Happens s (.body tid choices)
      (((s.apply effect).unlock .cacheMutex).setThread tid
        (resume .handler (.getCacheEntry url) result)) event := by
  obtain ⟨found, after, same, _, entries, present⟩ :=
    getCacheEntry_effect choices s.nextId proxied.sound.cache url
  rw [ran] at same
  cases same
  cases outcome
  have noHold : (s.thread tid).holds = none := by rw [here]; rfl
  have noWrite : (s.thread tid).writes = none := by rw [here]; rfl
  cases result with
  | none =>
      apply happens_quiet
      rw [shared_returns]
      show Shared.mk after.payload s.nextId (Function.update s.shared.holds tid none)
        (Function.update s.shared.writes tid none) (s.served ++ []) = s.shared
      rw [holds_kept noHold, writes_kept noWrite, List.append_nil, entries]
      rfl
  | some entry =>
      refine ⟨.hit tid entry, ⟨present entry rfl, noHold⟩, ?_, trivial⟩
      rw [shared_returns]
      show Shared.mk after.payload s.nextId (Function.update s.shared.holds tid (some entry))
        (Function.update s.shared.writes tid none) (s.served ++ []) = _
      rw [writes_kept noWrite, List.append_nil, entries]
      rfl

theorem addition_happens {url : Url} (here : s.thread tid = .inside .handler (.addNewEntry url))
    (ran : (Op.addNewEntry url).effect choices s.memory s.nextId = .ok effect)
    (outcome : effect.outcome = .returns result) :
    ∃ event, Happens s (.body tid choices)
      (((s.apply effect).unlock .cacheMutex).setThread tid
        (resume .handler (.addNewEntry url) result)) event := by
  have noHold : (s.thread tid).holds = none := by rw [here]; rfl
  have noWrite : (s.thread tid).writes = none := by rw [here]; rfl
  by_cases full : cacheMaxSize ≤ s.memory.cacheSize
  · rw [addNewEntry_effect_full choices s.nextId url full] at ran
    cases ran
    cases outcome
  have room : s.memory.cacheSize < cacheMaxSize := Nat.lt_of_not_le full
  have unused := proxied.sound.fresh s.nextId le_rfl
  rcases addNewEntry_effect_room choices s.nextId proxied.sound.cache url room unused with
    ⟨_, same⟩ | ⟨allocated, after, same, _, linked⟩
  · rw [ran] at same
    cases same
    cases outcome
    apply happens_quiet
    rw [shared_returns]
    show Shared.mk s.memory.payload s.nextId (Function.update s.shared.holds tid none)
      (Function.update s.shared.writes tid none) (s.served ++ []) = s.shared
    rw [holds_kept noHold, writes_kept noWrite, List.append_nil]
    rfl
  · rw [ran] at same
    cases same
    cases outcome
    refine ⟨.added tid url, ⟨(Cache.payload_eq_none_iff _ _).mpr unused, noHold, noWrite⟩, ?_,
      choices, .handler, rfl, here, allocated, room⟩
    rw [shared_returns, List.append_nil, linked]
    rfl

theorem deletion_happens {entry : Addr} {pending : List (List Byte)} {loop : Option LoopState}
    (here : s.thread tid = .inside (.downloader pending loop) (.deleteEntry entry))
    (ran : (Op.deleteEntry entry).effect choices s.memory s.nextId = .ok effect) :
    ∃ event, Happens s (.body tid choices)
      (((s.apply effect).unlock .cacheMutex).setThread tid
        (resume (.downloader pending loop) (.deleteEntry entry) result)) event := by
  obtain ⟨after, same, _, gone⟩ := deleteEntry_effect choices s.nextId proxied.sound.cache entry
  rw [ran] at same
  cases same
  have noHold : (s.thread tid).holds = none := by rw [here]; rfl
  refine ⟨.deleted tid entry, ?_, ?_, choices, _, rfl, here⟩
  · simp only [Shared.Enabled, State.shared, here]
    rfl
  · rw [shared_returns]
    show Shared.mk after.payload s.nextId (Function.update s.shared.holds tid none)
      (Function.update s.shared.writes tid none) (s.served ++ []) = _
    rw [holds_kept noHold, List.append_nil, gone]
    rfl

end Returns

theorem returns_happens {s : State} (proxied : Proxied s) {tid : Tid} {choices : Choices}
    {caller : Caller} {op : Op} {effect : Effect} {result : Option Addr}
    (here : s.thread tid = .inside caller op)
    (ran : op.effect choices s.memory s.nextId = .ok effect)
    (outcome : effect.outcome = .returns result) :
    ∃ event, Happens s (.body tid choices)
      (((s.apply effect).unlock op.mutex).setThread tid (resume caller op result)) event := by
  have runs := proxied.runs here
  cases caller with
  | client => cases op <;> exact runs.elim
  | handler =>
      cases op with
      | getCacheEntry url => exact lookup_happens proxied here ran outcome
      | addNewEntry url => exact addition_happens proxied here ran outcome
      | serve entry => exact service_happens here ran outcome
      | _ => exact runs.elim
  | downloader pending loop =>
      cases op with
      | deleteEntry entry => exact deletion_happens proxied here ran
      | cacheInsertData entry data => exact insertion_happens here ran
      | cacheMarkComplete entry => exact completion_happens here ran
      | _ => exact runs.elim

theorem advance_happens {s : State} {tid : Tid} {entry : Addr} {stage : Stage} {ok : Bool}
    {headerBuffer : List Byte} (here : s.thread tid = .connecting entry stage) :
    ∃ event, Happens s (.advance tid ok headerBuffer)
      (s.setThread tid (stage.advance entry ok headerBuffer)) event := by
  have noHold : (s.thread tid).holds = none := by rw [here]; rfl
  have writing : (s.thread tid).writes = some entry := by rw [here]; rfl
  have abandons : ∀ headerBuffer, Happens s (.advance tid false headerBuffer)
      (s.setThread tid .returned) (.abandoned tid) := by
    intro headerBuffer
    refine ⟨trivial, ?_, Or.inr ⟨headerBuffer, rfl⟩⟩
    rw [shared_setThread]
    simp only [Thread.holds, holds_kept noHold]
    rfl
  cases stage with
  | parseURL => cases ok <;> exact happens_quiet (shared_same noHold writing)
  | connect =>
      cases ok with
      | true => exact happens_quiet (shared_same noHold writing)
      | false => exact ⟨_, abandons headerBuffer⟩
  | _ =>
      cases ok with
      | true => exact happens_quiet (shared_same noHold writing)
      | false => exact ⟨_, abandons headerBuffer⟩

theorem create_happens {s : State} {tid new : Tid} {entry : Addr}
    (here : s.thread tid = .spawning entry) (born : s.thread new = .unborn) :
    ∃ event, Happens s (.pthreadCreate tid (some new))
      ((s.setThread tid (.locking .handler (.serve entry))).setThread new
        (.connecting entry .parseURL)) event := by
  have holding : (s.thread tid).holds = some entry := by rw [here]; rfl
  have writing : (s.thread tid).writes = some entry := by rw [here]; rfl
  have different : new ≠ tid := by
    intro same
    rw [same, here] at born
    cases born
  refine ⟨.created tid new entry, ⟨writing, ?_⟩, ?_, trivial⟩
  · simp only [State.shared, born]
    rfl
  · have idle : Function.update s.shared.holds new none = s.shared.holds :=
      holds_kept (by rw [born]; rfl)
    rw [shared_setThread, shared_setThread]
    simp only [Thread.holds, holds_kept holding, idle]
    rfl

/-- Every step of the proxy is an event of the abstract model. -/
theorem proxyStep_happens {s next : State} {action : Action} (proxied : Proxied s)
    (stepped : proxySystem.step s action = some next) :
    ∃ event, Happens s action next event := by
  obtain ⟨stepped, noCall⟩ := proxyStep_cases stepped
  cases threadStep_move stepped with
  | accept born => exact happens_quiet (shared_same (by rw [born]; rfl) (by rw [born]; rfl))
  | call free => cases noCall
  | @lock tid caller op waiting free =>
      have same : (s.setThread tid (.inside caller op)).shared = s.shared := by
        apply shared_same <;> rw [waiting]
        · cases op <;> rfl
        · cases caller <;> rfl
      exact happens_quiet same
  | @nestedLock tid caller url waiting free =>
      have same : (s.setThread tid (.evictInside caller url)).shared = s.shared :=
        shared_same (by rw [waiting]; rfl) (by rw [waiting]; rfl)
      exact happens_quiet same
  | returns here ran outcome => exact returns_happens proxied here ran outcome
  | @evicts tid choices caller url here full =>
      apply happens_quiet
      apply shared_same <;> rw [here]
      · rfl
      · cases caller <;> rfl
  | @waits tid choices caller entry here incomplete =>
      have same : (s.setThread tid (.sleeping entry)).shared = s.shared := by
        apply shared_same <;> rw [here]
        · rfl
        · cases caller <;> rfl
      exact happens_quiet same
  | nestedBody here ran => exact absurd here (proxied.sound.noNested _ _ _)
  | @createFailed tid entry here =>
      have holding : (s.thread tid).holds = some entry := by rw [here]; rfl
      refine ⟨.abandoned tid, trivial, ?_, Or.inl rfl⟩
      rw [shared_setThread]
      simp only [Thread.holds, holds_kept holding]
      rfl
  | created here born => exact create_happens here born
  | advance here => exact advance_happens here
  | @recv tid entry loop received here =>
      apply happens_quiet
      cases received with
      | none => exact shared_same (by rw [here]; rfl) (by rw [here]; rfl)
      | some chunk =>
          refine shared_same ?_ ?_ <;> rw [here]
          · exact (downloadNext_holds _ _ _).symm
          · exact (downloadNext_writes _ _ _).symm
  | wake here => exact happens_quiet (shared_same (by rw [here]; rfl) (by rw [here]; rfl))

end OsLabs.Proxy
