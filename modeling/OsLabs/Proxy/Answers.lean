import OsLabs.Proxy.Grounded

/-!
# Which handlers can still be answered

A handler leaves its entry by the critical section that finds `isComplete` set.
Whether the threads can still get there depends on the entry alone: it is
complete, or a thread is left that can bring its download to the completion
mark, which one that has yet to call `parseURL` can only do for a URL that
`parseURL` accepts.  Who owns which mutex does not matter, not even that `cacheMutex` may be
locked for good.
-/

set_option autoImplicit false

namespace OsLabs.Proxy

open OsLabs.CString OsLabs.Transition

def Op.completes : Op → Option Addr
  | .cacheInsertData entry _ | .cacheMarkComplete entry => some entry
  | _ => none

/-- The entry a thread can still bring to its completion mark; a downloader
whose `parseURL` has failed cannot. -/
def Thread.completes : Thread → Option Addr
  | .spawning entry | .connecting entry _ | .receiving entry _ => some entry
  | .locking (.downloader _ _) op | .inside (.downloader _ _) op => op.completes
  | _ => none

/-- The thread has `parseURL` before it. -/
def Thread.BeforeParse : Thread → Prop
  | .spawning _ | .connecting _ .parseURL => True
  | _ => False

/-- `parseURL` accepts the URL of the entry. -/
def Parsable (s : State) (entry : Addr) : Prop :=
  ∀ e, s.memory.heap entry = some e → e.url.parses = true

def CanComplete (s : State) (other : Tid) (entry : Addr) : Prop :=
  (s.thread other).completes = some entry ∧ ((s.thread other).BeforeParse → Parsable s entry)

def Promised (s : State) (entry : Addr) : Prop :=
  (∃ e, s.memory.heap entry = some e ∧ e.isComplete = true) ∨
    ∃ other, CanComplete s other entry

/-- The critical section of the handler is its last, and the entry it sends from
is allocated. -/
def Answers (tid : Tid) (entry : Addr) (s : State) : Prop :=
  ∃ choices next sent, proxySystem.step s (.body tid choices) = some next ∧
    next.thread tid = .returned ∧ next.served = s.served ++ [⟨entry, sent, true⟩]

def CanAnswer (s : State) (tid : Tid) (entry : Addr) : Prop :=
  proxySystem.Can (Answers tid entry) s

theorem completes_writes {thread : Thread} {entry : Addr}
    (completes : thread.completes = some entry) : thread.writes = some entry := by
  cases thread with
  | locking caller op =>
      cases caller with
      | downloader pending loop => cases op <;> first | exact completes | cases completes
      | _ => cases completes
  | inside caller op =>
      cases caller with
      | downloader pending loop => cases op <;> first | exact completes | cases completes
      | _ => cases completes
  | _ => exact completes

@[simp] theorem broadcast_completes (entry : Option Addr) (thread : Thread) :
    (thread.broadcast entry).completes = thread.completes := by
  apply broadcast_elim (P := fun other => other.completes = thread.completes) entry rfl
  intro waited asleep
  rw [asleep]
  rfl

@[simp] theorem downloadNext_completes (entry : Addr) (pending : List (List Byte))
    (loop : Option LoopState) : (downloadNext entry pending loop).completes = some entry :=
  downloadNext_elim (P := fun thread => thread.completes = some entry) (fun _ _ _ => rfl)
    (fun _ => rfl) rfl pending loop

/-! ## The URL of an entry -/

theorem parsable_iff {s : State} {entry : Addr} :
    Parsable s entry ↔
      ∀ payload, s.shared.entries entry = some payload → payload.url.parses = true := by
  constructor
  · intro parsable payload stored
    obtain ⟨e, loaded, isPayload⟩ := Option.map_eq_some_iff.mp stored
    rw [← isPayload]
    exact parsable e loaded
  · intro parsable e loaded
    exact parsable e.payload (Cache.payload_of_some loaded)

/-! ## An entry that nobody completes -/

/-- The critical sections other than the completion mark leave an incomplete
entry incomplete. -/
theorem effect_incomplete {op : Op} {choices : Choices} {memory : Cache} {nextId entry : Addr}
    {effect : Effect} (holds : memory.Holds) (fresh : memory.heap nextId = none)
    (ran : op.effect choices memory nextId = .ok effect) (handedOut : entry < nextId)
    (evictsNothing : op ≠ .removeOldest) (cleansNothing : op ≠ .cacheCleanUp)
    (incomplete : ∀ payload, memory.payload entry = some payload → payload.isComplete = false)
    (marksNothing : op ≠ .cacheMarkComplete entry) :
    ∀ payload, effect.memory.payload entry = some payload → payload.isComplete = false := by
  cases op with
  | getCacheEntry url =>
      obtain ⟨found, after, same, _, entries, _⟩ := getCacheEntry_effect choices nextId holds url
      rw [ran, Except.ok.injEq] at same
      rw [same, entries]
      exact incomplete
  | addNewEntry url =>
      by_cases full : cacheMaxSize ≤ memory.cacheSize
      · rw [addNewEntry_effect_full choices nextId url full, Except.ok.injEq] at ran
        rw [← ran]
        exact incomplete
      · rcases addNewEntry_effect_room choices nextId holds url (Nat.lt_of_not_le full) fresh with
          ⟨_, same⟩ | ⟨_, after, same, _, linked⟩
        · rw [ran, Except.ok.injEq] at same
          rw [same]
          exact incomplete
        · rw [ran, Except.ok.injEq] at same
          rw [same, linked]
          intro payload stored
          rw [Function.update_of_ne handedOut.ne] at stored
          exact incomplete payload stored
  | deleteEntry other =>
      obtain ⟨after, same, _, gone⟩ := deleteEntry_effect choices nextId holds other
      rw [ran, Except.ok.injEq] at same
      rw [same, gone]
      intro payload stored
      rcases update_eq_some stored with ⟨_, freed⟩ | ⟨_, before⟩
      · cases freed
      · exact incomplete payload before
  | removeOldest => exact absurd rfl evictsNothing
  | cacheInsertData other data =>
      cases ran
      rw [Cache.payload_modify memory other _ _ fun e =>
        cacheInsertData_payload e choices.allocated data]
      intro payload stored
      rcases update_eq_some stored with ⟨here, changed⟩ | ⟨_, before⟩
      · obtain ⟨old, was, isPayload⟩ := Option.map_eq_some_iff.mp changed
        rw [← isPayload]
        exact incomplete old (here ▸ was)
      · exact incomplete payload before
  | cacheMarkComplete other =>
      cases ran
      rw [Cache.payload_modify memory other CacheEntry.cacheMarkComplete Payload.complete
        fun _ => rfl]
      intro payload stored
      rcases update_eq_some stored with ⟨here, _⟩ | ⟨_, before⟩
      · exact absurd (by rw [here]) marksNothing
      · exact incomplete payload before
  | cacheCleanUp => exact absurd rfl cleansNothing
  | serve other =>
      rcases serve_effect choices memory nextId other with ⟨_, same, _⟩ | ⟨same, _⟩ <;>
        (rw [ran, Except.ok.injEq] at same; rw [same]; exact incomplete)

theorem resume_completes {caller : Caller} {op : Op} {result : Option Addr} {entry : Addr}
    (runs : caller.Runs op) (after : (resume caller op result).completes = some entry) :
    (Thread.inside caller op).completes = some entry ∨
      ∃ url, op = .addNewEntry url ∧ result = some entry := by
  cases caller with
  | client => cases op <;> exact runs.elim
  | handler =>
      cases op with
      | addNewEntry url =>
          cases result with
          | none => cases after
          | some new => exact Or.inr ⟨url, rfl, after⟩
      | getCacheEntry url => cases result <;> cases after
      | serve other => cases after
      | _ => exact runs.elim
  | downloader pending loop =>
      cases op with
      | cacheInsertData other data =>
          exact Or.inl ((downloadNext_completes other pending loop).symm.trans after)
      | deleteEntry other => cases after
      | cacheMarkComplete other => cases after
      | _ => exact runs.elim

/-- If the thread completes the entry, then so did some thread before the step;
where that one had `parseURL` before it, this one has it still, or the URL is
accepted. -/
def ComesFrom (s : State) (entry : Addr) (thread : Thread) : Prop :=
  thread.completes = some entry → ∃ other, (s.thread other).completes = some entry ∧
    ((s.thread other).BeforeParse → thread.BeforeParse ∨ Parsable s entry)

theorem comesFrom_none {s : State} {entry : Addr} {thread : Thread}
    (idle : thread.completes = none) : ComesFrom s entry thread := by
  intro completes
  rw [idle] at completes
  cases completes

/-- A thread that is past `parseURL` before the step. -/
theorem comesFrom_parsed {s : State} {entry : Addr} {thread : Thread} (tid : Tid)
    (same : thread.completes = some entry → (s.thread tid).completes = some entry)
    (parsed : ¬ (s.thread tid).BeforeParse) : ComesFrom s entry thread :=
  fun completes => ⟨tid, same completes, fun before => absurd before parsed⟩

theorem comesFrom_advance {s : State} {tid : Tid} {entry other : Addr} {stage : Stage} {ok : Bool}
    (headerBuffer : List Byte) (here : s.thread tid = .connecting other stage)
    (answers : s.mayAnswer other ok stage = true) :
    ComesFrom s entry (stage.advance other ok headerBuffer) := by
  cases ok with
  | false => exact comesFrom_none (by cases stage <;> rfl)
  | true =>
      cases stage with
      | parseURL =>
          intro completes
          cases completes
          refine ⟨tid, by rw [here]; rfl, fun _ => Or.inr fun e loaded => ?_⟩
          simpa [State.mayAnswer, loaded] using answers
      | _ => exact comesFrom_parsed tid (by rw [here]; exact id) (by rw [here]; exact id)

/-- Nobody becomes able to complete an entry that was handed out before. -/
theorem completes_before {s next : State} {action : Action} (shares : Shares s)
    (move : Move s action next) {entry : Addr} (handedOut : entry < s.nextId)
    (noCall : action.isCall = false) (tid : Tid) : ComesFrom s entry (next.thread tid) := by
  have same : ∀ other, ComesFrom s entry (s.thread other) :=
    fun other completes => ⟨other, completes, Or.inl⟩
  have moved : ∀ actor thread, ComesFrom s entry thread →
      ∀ other, ComesFrom s entry ((s.setThread actor thread).thread other) :=
    fun actor thread => setThread_all (P := ComesFrom s entry) same actor
  have sound := shares.proxied.sound
  cases move with
  | accept born => exact moved _ _ (comesFrom_none rfl) tid
  | call free => cases noCall
  | @lock actor caller op waiting free =>
      refine moved actor (.inside caller op) (comesFrom_parsed actor ?_ ?_) tid
      · rw [waiting]
        cases caller <;> exact id
      · rw [waiting]
        exact id
  | @nestedLock actor caller url waiting free =>
      exact moved actor (.evictInside caller url) (comesFrom_none rfl) tid
  | @returns actor choices caller op effect result here ran outcome =>
      refine returns_all (P := ComesFrom s entry)
        (fun other _ => broadcast_elim (P := ComesFrom s entry) _ (same other)
          fun _ _ => comesFrom_none rfl) ?_ tid
      intro after
      rcases resume_completes (shares.proxied.runs here) after with before | ⟨url, isAdd, isEntry⟩
      · refine ⟨actor, by rw [here]; exact before, fun unparsed => ?_⟩
        rw [here] at unparsed
        exact unparsed.elim
      · -- `addNewEntry` returns the next identity
        subst isAdd isEntry
        by_cases full : cacheMaxSize ≤ s.memory.cacheSize
        · rw [addNewEntry_effect_full choices s.nextId url full, Except.ok.injEq] at ran
          rw [← ran] at outcome
          cases outcome
        · rcases addNewEntry_effect_room choices s.nextId sound.cache url (Nat.lt_of_not_le full)
            (sound.fresh s.nextId le_rfl) with ⟨_, same⟩ | ⟨_, _, same, _⟩
          · rw [ran, Except.ok.injEq] at same
            rw [same] at outcome
            cases outcome
          · rw [ran, Except.ok.injEq] at same
            rw [same] at outcome
            cases outcome
            exact absurd handedOut (Nat.lt_irrefl _)
  | evicts here full => exact moved _ _ (comesFrom_none rfl) tid
  | @waits actor choices caller other here incomplete =>
      exact moved actor (.sleeping other) (comesFrom_none rfl) tid
  | nestedBody here ran => exact absurd here (sound.noNested _ _ _)
  | createFailed here => exact moved _ _ (comesFrom_none rfl) tid
  | @created actor new other here born =>
      refine setThread_all (P := ComesFrom s entry) (moved actor _ (comesFrom_none rfl)) new ?_ tid
      exact fun completes => ⟨actor, by rw [here]; exact completes, fun _ => Or.inl trivial⟩
  | advance here answers => exact moved _ _ (comesFrom_advance _ here answers) tid
  | @recv actor other loop received here =>
      refine moved actor _ (receive_elim (P := ComesFrom s entry) (fun pending resumed => ?_)
        loop received) tid
      refine comesFrom_parsed actor ?_ (by rw [here]; exact id)
      rw [downloadNext_completes, here]
      exact id
  | wake here => exact moved _ _ (comesFrom_none rfl) tid

structure Hopeless (entry : Addr) (s : State) : Prop where
  grounded : Grounded s
  handedOut : entry < s.nextId
  incomplete : ∀ payload, s.memory.payload entry = some payload → payload.isComplete = false
  nobody : ∀ other, ¬ CanComplete s other entry

/-- Only critical sections change entries. -/
theorem Hopeless.incomplete_after {s next : State} {action : Action} {entry : Addr}
    (hopeless : Hopeless entry s) (move : Move s action next) :
    ∀ payload, next.memory.payload entry = some payload → payload.isComplete = false := by
  have sound := hopeless.grounded.shares.proxied.sound
  cases move with
  | @returns tid choices caller op effect result here ran outcome =>
      have runs := hopeless.grounded.shares.proxied.runs here
      refine effect_incomplete sound.cache (sound.fresh s.nextId le_rfl) ran hopeless.handedOut
        ?_ ?_ hopeless.incomplete ?_
      · rintro rfl
        cases caller <;> exact runs
      · rintro rfl
        cases caller <;> exact runs
      · rintro rfl
        apply hopeless.nobody tid
        rw [CanComplete, here]
        cases caller with
        | downloader pending loop => exact ⟨rfl, False.elim⟩
        | _ => exact runs.elim
  | nestedBody here ran => exact absurd here (sound.noNested _ _ _)
  | _ => exact hopeless.incomplete

theorem handedOut_after {m : Shared} {event : Event} {entry : Addr} (handedOut : entry < m.nextId) :
    entry < (m.after event).nextId := by
  cases event with
  | added tid url => exact Nat.lt_succ_of_lt handedOut
  | _ => exact handedOut

/-- The URL of an entry that is still there after the step is the one before it. -/
theorem parsable_before {s next : State} {action : Action} {event : Event} {entry : Addr}
    (happens : Happens s action next event) (handedOut : entry < s.nextId)
    (there : next.shared.entries entry ≠ none) (parsable : Parsable next entry) :
    Parsable s entry := by
  rw [parsable_iff] at parsable ⊢
  intro payload stored
  obtain ⟨later, isLater⟩ := Option.ne_none_iff_exists'.mp there
  have accepted := parsable later isLater
  rw [happens.after] at isLater
  rcases url_origin isLater with ⟨other, alsoStored, sameUrl⟩ | ⟨isNew, _⟩
  · rw [stored, Option.some.injEq] at alsoStored
    rwa [alsoStored, ← sameUrl]
  · exact absurd handedOut (Nat.not_lt.mpr (Nat.le_of_eq isNew.symm))

theorem proxyStep_hopeless {entry : Addr} (s : State) (action : Action) (next : State)
    (hopeless : Hopeless entry s) (stepped : proxySystem.step s action = some next) :
    Hopeless entry next := by
  have move := threadStep_move (proxyStep_cases stepped).1
  have grounded := proxyStep_grounded s action next hopeless.grounded stepped
  obtain ⟨event, happens⟩ := proxyStep_happens hopeless.grounded.shares.proxied stepped
  refine ⟨grounded, ?_, hopeless.incomplete_after move, ?_⟩
  · have later : entry < (s.shared.after event).nextId := handedOut_after hopeless.handedOut
    rw [← happens.after] at later
    exact later
  · rintro other ⟨completes, parsable⟩
    obtain ⟨former, completed, unparsed⟩ := completes_before hopeless.grounded.shares move
      hopeless.handedOut (proxyStep_cases stepped).2 other completes
    refine hopeless.nobody former ⟨completed, fun before => ?_⟩
    rcases unparsed before with still | accepted
    · exact parsable_before happens hopeless.handedOut
        (grounded.backed other entry (completes_writes completes)) (parsable still)
    · exact accepted

theorem Hopeless.unanswered {entry : Addr} {s : State} (hopeless : Hopeless entry s) (tid : Tid) :
    ¬ Answers tid entry s := by
  rintro ⟨choices, next, sent, stepped, _, served⟩
  rcases hopeless.grounded.shares.sendsComplete stepped with none | ⟨record, sends, live⟩
  · rw [served] at none
    simp at none
  · rw [served, List.append_cancel_left_eq, List.singleton_inj] at sends
    subst sends
    obtain ⟨e, loaded, complete, _⟩ := live rfl
    have incomplete : e.isComplete = false :=
      hopeless.incomplete e.payload (Cache.payload_of_some loaded)
    rw [complete] at incomplete
    cases incomplete

/-! ## Every mutex of an entry is given back -/

theorem proxy_steps {s next : State} {action : Action} (noCall : action.isCall = false)
    (stepped : threadStep s action = some next) : proxySystem.step s action = some next := by
  simp [proxySystem, System.restrict, cacheSystem, noCall, stepped]

/-- The answers that the environment can always give. -/
def easy : Choices := ⟨0, true, none⟩

/-- A handler that is inside its last section leaves it by one step, and only
its own place changes. -/
theorem serve_body {s : State} {tid : Tid} {caller : Caller} {entry : Addr}
    (here : s.thread tid = .inside caller (.serve entry)) :
    ∃ next, proxySystem.step s (.body tid easy) = some next ∧
      next.owner (.entryMutex entry) = none ∧ next.memory = s.memory ∧
      ∀ other, other ≠ tid → next.thread other = s.thread other := by
  have asleep : ∀ thread : Thread, thread.broadcast none = thread := by
    intro thread
    cases thread <;> simp [Thread.broadcast]
  have leaves : ∀ effect, (Op.serve entry).effect easy s.memory s.nextId = .ok effect →
      proxySystem.step s (.body tid easy) = some (s.finish tid caller (.serve entry) effect) := by
    intro effect ran
    apply proxy_steps rfl
    simp only [threadStep, State.stepBody, here, ran]
  rcases serve_effect easy s.memory s.nextId entry with ⟨record, ran, _⟩ | ⟨ran, _⟩
  · refine ⟨_, leaves _ ran,
      by simp [State.finish, State.setThread, State.unlock, Op.mutex], rfl, ?_⟩
    intro other different
    simp [State.finish, State.setThread, State.unlock, State.apply, different, asleep]
  · refine ⟨_, leaves _ ran,
      by simp [State.finish, State.setThread, State.unlock, Op.mutex], rfl, ?_⟩
    intro other different
    simp [State.finish, State.setThread, State.unlock, State.apply, different, asleep]

/-- Whoever is inside a section of an entry's mutex is its downloader or about
to leave it. -/
theorem Shares.owner_serves {s : State} (shares : Shares s) {tid : Tid} {entry : Addr}
    (owned : s.owner (.entryMutex entry) = some tid)
    (noWriter : (s.thread tid).writes ≠ some entry) :
    ∃ caller, s.thread tid = .inside caller (.serve entry) := by
  have owns := (shares.proxied.sound.owners _ tid).mp owned
  cases here : s.thread tid with
  | inside caller op =>
      rw [here] at owns noWriter
      have runs := shares.proxied.runs here
      have isMutex : op.mutex = .entryMutex entry := Option.some.inj owns
      cases op with
      | serve other =>
          cases isMutex
          exact ⟨caller, rfl⟩
      | cacheInsertData other data =>
          cases isMutex
          cases caller with
          | downloader pending loop => exact absurd rfl noWriter
          | _ => exact runs.elim
      | cacheMarkComplete other =>
          cases isMutex
          cases caller with
          | downloader pending loop => exact absurd rfl noWriter
          | _ => exact runs.elim
      | _ => cases isMutex
  | _ =>
      rw [here] at owns
      cases owns

/-- The mutex of an entry is free, or becomes so by one step of its owner. -/
theorem Shares.opens {s : State} (shares : Shares s) (entry : Addr)
    (noWriter : ∀ tid, (s.thread tid).writes = some entry → (s.thread tid).owns = none) :
    s.owner (.entryMutex entry) = none ∨
      ∃ holder next, proxySystem.step s (.body holder easy) = some next ∧
        next.owner (.entryMutex entry) = none ∧ next.memory = s.memory ∧
        ∀ other, (s.thread other).owns = none → next.thread other = s.thread other := by
  cases owned : s.owner (.entryMutex entry) with
  | none => exact Or.inl rfl
  | some holder =>
      have owns := (shares.proxied.sound.owners _ holder).mp owned
      have apart : (s.thread holder).writes ≠ some entry := by
        intro writes
        rw [noWriter holder writes] at owns
        cases owns
      obtain ⟨caller, here⟩ := shares.owner_serves owned apart
      obtain ⟨next, stepped, freed, same, others⟩ := serve_body here
      refine Or.inr ⟨holder, next, stepped, freed, same, fun other outside => others other ?_⟩
      rintro rfl
      rw [outside] at owns
      cases owns

theorem lock_steps {s : State} {tid : Tid} {caller : Caller} {op : Op}
    (waiting : s.thread tid = .locking caller op) (free : s.owner op.mutex = none) :
    ∃ next, proxySystem.step s (.lock tid) = some next ∧ next.memory = s.memory ∧
      next.thread tid = .inside caller op := by
  have granted : proxySystem.step s (.lock tid) = some
      { s with
        owner := Function.update s.owner op.mutex (some tid)
        thread := Function.update s.thread tid (.inside caller op) } := by
    apply proxy_steps rfl
    simp only [threadStep, State.stepLock, waiting, State.acquire, free]
  exact ⟨_, granted, rfl, Function.update_self _ _ _⟩

/-! ## From the completion mark to the answer -/

structure Completed (tid : Tid) (entry : Addr) (s : State) : Prop where
  grounded : Grounded s
  holds : (s.thread tid).holds = some entry
  complete : ∃ e, s.memory.heap entry = some e ∧ e.isComplete = true

theorem Completed.unwritten {tid : Tid} {entry : Addr} {s : State}
    (completed : Completed tid entry s) (other : Tid) : (s.thread other).writes ≠ some entry := by
  intro writes
  obtain ⟨e, loaded, complete⟩ := completed.complete
  have incomplete := completed.grounded.shares.one.incomplete other entry e.payload writes
    (Cache.payload_of_some loaded)
  rw [show e.payload.isComplete = true from complete] at incomplete
  cases incomplete

theorem Completed.inside {tid : Tid} {entry : Addr} {s : State} (completed : Completed tid entry s)
    (here : s.thread tid = .inside .handler (.serve entry)) : Answers tid entry s := by
  obtain ⟨e, loaded, complete⟩ := completed.complete
  have ran : (Op.serve entry).effect easy s.memory s.nextId =
      .ok ⟨s.memory, s.nextId, none, [⟨entry, sendIfAny e, true⟩], .returns none⟩ := by
    simp [Op.effect, loaded, complete]
  have stepped : proxySystem.step s (.body tid easy) = some (s.finish tid .handler (.serve entry)
      ⟨s.memory, s.nextId, none, [⟨entry, sendIfAny e, true⟩], .returns none⟩) := by
    apply proxy_steps rfl
    simp only [threadStep, State.stepBody, here, ran]
  exact ⟨easy, _, sendIfAny e, stepped, Function.update_self _ _ _, rfl⟩

theorem Completed.locking {tid : Tid} {entry : Addr} {s : State} (completed : Completed tid entry s)
    (here : s.thread tid = .locking .handler (.serve entry)) : CanAnswer s tid entry := by
  have granted : ∀ t : State, Grounded t → t.memory = s.memory → t.thread tid = s.thread tid →
      t.owner (.entryMutex entry) = none → CanAnswer t tid entry := by
    intro t grounded same place free
    have isFree : t.owner (Op.serve entry).mutex = none := free
    obtain ⟨next, stepped, memory, inside⟩ := lock_steps (place.trans here) isFree
    refine System.Can.step stepped (System.Can.now (Completed.inside ⟨?_, ?_, ?_⟩ inside))
    · exact proxyStep_grounded _ _ _ grounded stepped
    · rw [inside]
      rfl
    · rw [memory, same]
      exact completed.complete
  rcases completed.grounded.shares.opens entry
    (fun other writes => absurd writes (completed.unwritten other)) with free |
    ⟨holder, next, stepped, free, same, others⟩
  · exact granted s completed.grounded rfl rfl free
  · have grounded := proxyStep_grounded _ _ _ completed.grounded stepped
    exact System.Can.step stepped
      (granted next grounded same (others tid (by rw [here]; rfl)) free)

/-- Asleep or on its way to the mutex, the handler gets to its answer. -/
theorem Completed.answers {tid : Tid} {entry : Addr} {s : State}
    (completed : Completed tid entry s) : CanAnswer s tid entry := by
  have proxied := completed.grounded.shares.proxied
  have holds := completed.holds
  cases here : s.thread tid with
  | spawning other =>
      rw [here] at holds
      exact absurd (by rw [here]; exact holds) (completed.unwritten tid)
  | sleeping other =>
      rw [here] at holds
      cases holds
      have stepped : proxySystem.step s (.wake tid) =
          some (s.setThread tid (.locking .handler (.serve entry))) :=
        proxy_steps rfl (by simp only [threadStep, here])
      have awake : (s.setThread tid (.locking .handler (.serve entry))).thread tid =
          .locking .handler (.serve entry) := Function.update_self _ _ _
      refine System.Can.step stepped (Completed.locking ⟨?_, ?_, completed.complete⟩ awake)
      · exact proxyStep_grounded _ _ _ completed.grounded stepped
      · rw [awake]
        rfl
  | locking caller op =>
      rw [here] at holds
      have runs := proxied.threads tid
      rw [here] at runs
      cases op with
      | serve other =>
          cases holds
          cases caller with
          | handler => exact completed.locking here
          | _ => exact runs.elim
      | _ => cases holds
  | inside caller op =>
      rw [here] at holds
      have runs := proxied.runs here
      cases op with
      | serve other =>
          cases holds
          cases caller with
          | handler => exact System.Can.now (completed.inside here)
          | _ => exact runs.elim
      | _ => cases holds
  | _ =>
      rw [here] at holds
      cases holds

/-! ## From the download to the completion mark -/

/-- How many steps of its own, and of the threads it starts, a download takes at
most when the environment makes it as short as it can. -/
def Thread.toMark : Thread → Nat
  | .spawning _ => 7
  | .connecting _ .parseURL => 6
  | .connecting _ .gethostbyname => 5
  | .connecting _ .socket => 4
  | .connecting _ .connect => 3
  | .receiving _ _ => 2
  | .locking (.downloader pending _) (.cacheInsertData _ _) => 2 * pending.length + 4
  | .inside (.downloader pending _) (.cacheInsertData _ _) => 2 * pending.length + 3
  | .locking _ (.cacheMarkComplete _) => 1
  | _ => 0

structure Awaited (tid : Tid) (entry : Addr) (work : Nat) (s : State) : Prop where
  grounded : Grounded s
  holds : (s.thread tid).holds = some entry
  completer : ∃ other, CanComplete s other entry ∧ (s.thread other).toMark = work

theorem downloadNext_toMark (entry : Addr) (pending : List (List Byte)) (loop : Option LoopState) :
    (downloadNext entry pending loop).toMark < 2 * pending.length + 3 := by
  cases pending with
  | cons range rest =>
      simp only [downloadNext, Thread.toMark, List.length_cons]
      omega
  | nil => cases loop <;> simp [downloadNext, Thread.toMark]

theorem canComplete_at {s : State} {tid : Tid} {entry : Addr} {thread : Thread}
    (place : s.thread tid = thread) (completes : thread.completes = some entry)
    (parsable : thread.BeforeParse → Parsable s entry) : CanComplete s tid entry := by
  rw [CanComplete, place]
  exact ⟨completes, parsable⟩

theorem downloadNext_parsed (entry : Addr) (pending : List (List Byte))
    (loop : Option LoopState) : ¬ (downloadNext entry pending loop).BeforeParse :=
  downloadNext_elim (P := fun thread => ¬ thread.BeforeParse) (fun _ _ _ => id) (fun _ => id) id
    pending loop

section Download

variable {tid other : Tid} {entry : Addr} {s : State}

/-- A handler that waits for the download keeps its entry whatever happens next. -/
theorem waits_on {next : State} {action : Action} (grounded : Grounded s)
    (holds : (s.thread tid).holds = some entry) (writes : (s.thread other).writes = some entry)
    (stepped : proxySystem.step s action = some next) : (next.thread tid).holds = some entry := by
  obtain ⟨payload, stored⟩ := Option.ne_none_iff_exists'.mp (grounded.backed other entry writes)
  obtain ⟨event, happens⟩ := proxyStep_happens grounded.shares.proxied stepped
  have kept := holds_after happens.enabled (show s.shared.holds tid = some entry from holds) stored
    (grounded.shares.one.incomplete other entry payload writes stored)
  rwa [← happens.after] at kept

theorem Awaited.goes {next : State} {action : Action} {less work : Nat} (later : Tid)
    (grounded : Grounded s) (holds : (s.thread tid).holds = some entry)
    (completes : (s.thread other).completes = some entry)
    (stepped : proxySystem.step s action = some next)
    (still : CanComplete next later entry) (shorter : (next.thread later).toMark = less)
    (below : less < work) :
    proxySystem.Can (fun after => Completed tid entry after ∨
      ∃ less < work, Awaited tid entry less after) s := by
  refine System.Can.step stepped
    (System.Can.now (Or.inr ⟨less, below, ?_, ?_, later, still, shorter⟩))
  · exact proxyStep_grounded _ _ _ grounded stepped
  · exact waits_on grounded holds (completes_writes completes) stepped

variable (grounded : Grounded s) (holds : (s.thread tid).holds = some entry)

include grounded holds

theorem mark_completes {pending : List (List Byte)} {loop : Option LoopState}
    (here : s.thread other = .inside (.downloader pending loop) (.cacheMarkComplete entry)) :
    proxySystem.Can (Completed tid entry) s := by
  have writes : (s.thread other).writes = some entry := by rw [here]; rfl
  have ran : (Op.cacheMarkComplete entry).effect easy s.memory s.nextId =
      .ok ⟨s.memory.modify entry CacheEntry.cacheMarkComplete, s.nextId, some entry, [],
        .returns none⟩ := rfl
  have stepped : proxySystem.step s (.body other easy) = some (s.finish other
      (.downloader pending loop) (.cacheMarkComplete entry)
      ⟨s.memory.modify entry CacheEntry.cacheMarkComplete, s.nextId, some entry, [],
        .returns none⟩) := by
    apply proxy_steps rfl
    simp only [threadStep, State.stepBody, here, ran]
  obtain ⟨e, loaded⟩ := Option.ne_none_iff_exists'.mp
    (mt (Cache.payload_eq_none_iff s.memory entry).mpr (grounded.backed other entry writes))
  refine System.Can.step stepped (System.Can.now ⟨?_, ?_, e.cacheMarkComplete, ?_, rfl⟩)
  · exact proxyStep_grounded _ _ _ grounded stepped
  · exact waits_on grounded holds writes stepped
  · show (s.memory.modify entry CacheEntry.cacheMarkComplete).heap entry = _
    rw [Cache.modify_heap_self, loaded]
    rfl

theorem inserts {data : List Byte} {pending : List (List Byte)} {loop : Option LoopState}
    (here : s.thread other = .inside (.downloader pending loop) (.cacheInsertData entry data)) :
    proxySystem.Can (fun after => Completed tid entry after ∨
      ∃ less < 2 * pending.length + 3, Awaited tid entry less after) s := by
  have ran : (Op.cacheInsertData entry data).effect easy s.memory s.nextId =
      .ok ⟨s.memory.modify entry fun e => e.cacheInsertData true data, s.nextId, none, [],
        .returns none⟩ := rfl
  have stepped : proxySystem.step s (.body other easy) = some (s.finish other
      (.downloader pending loop) (.cacheInsertData entry data)
      ⟨s.memory.modify entry fun e => e.cacheInsertData true data, s.nextId, none, [],
        .returns none⟩) := by
    apply proxy_steps rfl
    simp only [threadStep, State.stepBody, here, ran]
  have place : (s.finish other (.downloader pending loop) (.cacheInsertData entry data)
      ⟨s.memory.modify entry fun e => e.cacheInsertData true data, s.nextId, none, [],
        .returns none⟩).thread other = downloadNext entry pending loop := Function.update_self _ _ _
  exact Awaited.goes other grounded holds (by rw [here]; rfl) stepped
    (canComplete_at place (downloadNext_completes _ _ _)
      fun before => absurd before (downloadNext_parsed _ _ _)) rfl
    (by rw [place]; exact downloadNext_toMark _ _ _)

/-- The downloader gets the mutex of its entry, at the latest when the handler
inside has gone to sleep. -/
theorem enters {op : Op} {pending : List (List Byte)} {loop : Option LoopState} {less work : Nat}
    (here : s.thread other = .locking (.downloader pending loop) op)
    (completes : op.completes = some entry) (isMutex : op.mutex = .entryMutex entry)
    (shorter : (Thread.inside (.downloader pending loop) op).toMark = less) (below : less < work) :
    proxySystem.Can (fun after => Completed tid entry after ∨
      ∃ less < work, Awaited tid entry less after) s := by
  have writes : (s.thread other).writes = some entry :=
    completes_writes (by rw [here]; exact completes)
  have granted : ∀ t : State, Grounded t → (t.thread tid).holds = some entry →
      t.thread other = s.thread other → t.owner (.entryMutex entry) = none →
      proxySystem.Can (fun after => Completed tid entry after ∨
        ∃ less < work, Awaited tid entry less after) t := by
    intro t groundedT holdsT place free
    obtain ⟨next, stepped, _, inside⟩ := lock_steps (place.trans here) (by rw [isMutex]; exact free)
    exact Awaited.goes other groundedT holdsT (by rw [place, here]; exact completes) stepped
      (canComplete_at inside completes False.elim) (by rw [inside]; exact shorter) below
  have outside : ∀ writer, (s.thread writer).writes = some entry →
      (s.thread writer).owns = none := by
    intro writer alsoWrites
    rw [grounded.shares.one.single writer other entry alsoWrites writes, here]
    rfl
  rcases grounded.shares.opens entry outside with free | ⟨holder, next, stepped, free, _, others⟩
  · exact granted s grounded holds rfl free
  · exact System.Can.step stepped (granted next (proxyStep_grounded _ _ _ grounded stepped)
      (waits_on grounded holds writes stepped) (others other (by rw [here]; rfl)) free)

theorem spawns (here : s.thread other = .spawning entry) (parsable : Parsable s entry) :
    proxySystem.Can (fun after => Completed tid entry after ∨
      ∃ less < 7, Awaited tid entry less after) s := by
  obtain ⟨new, unborn⟩ := grounded.born.exists_notMem
  have born : s.thread new = .unborn := by simpa using unborn
  have stepped : proxySystem.step s (.pthreadCreate other (some new)) = some
      ((s.setThread other (.locking .handler (.serve entry))).setThread new
        (.connecting entry .parseURL)) := by
    apply proxy_steps rfl
    simp only [threadStep, State.stepCreate, here, born]
  have place : ((s.setThread other (.locking .handler (.serve entry))).setThread new
      (.connecting entry .parseURL)).thread new = .connecting entry .parseURL :=
    Function.update_self _ _ _
  exact Awaited.goes new grounded holds (by rw [here]; rfl) stepped
    (canComplete_at place rfl fun _ => parsable) (by rw [place]; rfl) (by decide : 6 < 7)

theorem advances {stage : Stage} (here : s.thread other = .connecting entry stage)
    (parsable : (Thread.connecting entry stage).BeforeParse → Parsable s entry) :
    proxySystem.Can (fun after => Completed tid entry after ∨
      ∃ less < (Thread.connecting entry stage).toMark, Awaited tid entry less after) s := by
  have answers : s.mayAnswer entry true stage = true := by
    cases stage with
    | parseURL =>
        cases loaded : s.memory.heap entry with
        | none => simp [State.mayAnswer, loaded]
        | some e => simp [State.mayAnswer, loaded, parsable trivial e loaded]
    | _ => rfl
  have stepped : proxySystem.step s (.advance other true []) =
      some (s.setThread other (stage.advance entry true [])) :=
    proxy_steps rfl (by simp only [threadStep, here, answers, if_true])
  have place : (s.setThread other (stage.advance entry true [])).thread other =
      stage.advance entry true [] := Function.update_self _ _ _
  refine Awaited.goes other grounded holds (by rw [here]; rfl) stepped
    (canComplete_at place ?_ ?_) rfl ?_
  · cases stage <;> rfl
  · cases stage <;> exact False.elim
  · rw [place]
    cases stage <;> simp [Stage.advance, Thread.toMark]

/-- The server may close its connection at once. -/
theorem receives {loop : LoopState} (here : s.thread other = .receiving entry loop) :
    proxySystem.Can (fun after => Completed tid entry after ∨
      ∃ less < 2, Awaited tid entry less after) s := by
  have stepped : proxySystem.step s (.recv other none) =
      some (s.setThread other (.locking (.downloader [] none) (.cacheMarkComplete entry))) :=
    proxy_steps rfl (by simp only [threadStep, here, receive, downloadNext])
  have place : (s.setThread other (.locking (.downloader [] none)
      (.cacheMarkComplete entry))).thread other =
      .locking (.downloader [] none) (.cacheMarkComplete entry) := Function.update_self _ _ _
  exact Awaited.goes other grounded holds (by rw [here]; rfl) stepped
    (canComplete_at place rfl False.elim) (by rw [place]; rfl) (by decide : 1 < 2)

end Download

/-- Wherever the download stands, some step brings it nearer to its mark. -/
theorem Awaited.descends {tid : Tid} {entry : Addr} (work : Nat) (s : State)
    (awaited : Awaited tid entry work s) :
    proxySystem.Can (fun after => Completed tid entry after ∨
      ∃ less < work, Awaited tid entry less after) s := by
  obtain ⟨grounded, holds, other, ⟨completes, parsable⟩, rfl⟩ := awaited
  cases here : s.thread other with
  | spawning next =>
      rw [here] at completes parsable
      cases completes
      exact spawns grounded holds here (parsable trivial)
  | connecting next stage =>
      rw [here] at completes parsable
      cases completes
      exact advances grounded holds here parsable
  | receiving next loop =>
      rw [here] at completes
      cases completes
      exact receives grounded holds here
  | locking caller op =>
      rw [here] at completes
      cases caller with
      | downloader pending loop =>
          cases op with
          | cacheInsertData next data =>
              cases completes
              exact enters grounded holds here rfl rfl rfl (Nat.lt_succ_self _)
          | cacheMarkComplete next =>
              cases completes
              exact enters grounded holds here rfl rfl rfl Nat.zero_lt_one
          | _ => cases completes
      | _ => cases completes
  | inside caller op =>
      rw [here] at completes
      cases caller with
      | downloader pending loop =>
          cases op with
          | cacheInsertData next data =>
              cases completes
              exact inserts grounded holds here
          | cacheMarkComplete next =>
              cases completes
              exact (mark_completes grounded holds here).trans fun _ done =>
                System.Can.now (Or.inl done)
          | _ => cases completes
      | _ => cases completes
  | _ =>
      rw [here] at completes
      cases completes

/-! ## The exact condition -/

theorem Grounded.answers {s : State} (grounded : Grounded s) {tid : Tid} {entry : Addr}
    (holds : (s.thread tid).holds = some entry) (promised : Promised s entry) :
    CanAnswer s tid entry := by
  rcases promised with complete | ⟨other, canComplete⟩
  · exact Completed.answers ⟨grounded, holds, complete⟩
  · have marked : proxySystem.Can (Completed tid entry) s :=
      System.can_of_descent (Awaited tid entry) Awaited.descends
        ⟨grounded, holds, other, canComplete, rfl⟩
    exact marked.trans fun _ completed => completed.answers

/-- In every state a handler that has an entry in hand can still be sent the
entry's bytes exactly when the entry is complete or some thread is left that can
complete it: a downloader past its `parseURL`, or one that has it still before it
(or the handler before `pthread_create`), where `parseURL` accepts the URL. -/
theorem can_answer_iff {s : State} (reached : proxySystem.Reachable s) {tid : Tid} {entry : Addr}
    (holds : (s.thread tid).holds = some entry) : CanAnswer s tid entry ↔ Promised s entry := by
  have grounded := reachable_grounded reached
  refine ⟨fun canAnswer => ?_, grounded.answers holds⟩
  by_contra broken
  have hopeless : Hopeless entry s := by
    refine ⟨grounded, grounded.shares.one.held tid entry holds, ?_, ?_⟩
    · intro payload stored
      obtain ⟨e, loaded, isPayload⟩ := Option.map_eq_some_iff.mp stored
      by_contra complete
      refine broken (Or.inl ⟨e, loaded, ?_⟩)
      rw [← isPayload, Bool.not_eq_false] at complete
      exact complete
    · exact fun other canComplete => broken (Or.inr ⟨other, canComplete⟩)
  exact System.not_can_of_invariant (Hopeless entry) proxyStep_hopeless
    (fun _ hopeless => hopeless.unanswered tid) hopeless canAnswer

/-- A handler asleep on an entry whose downloader has just been created. -/
theorem sleeper_can_be_answered :
    ∃ s, proxySystem.run .start (wholeRequest.take 8) = some s ∧ CanAnswer s 0 0 := by
  have reached : (proxySystem.run .start (wholeRequest.take 8)).map (fun s =>
      ((s.thread 0).holds, (s.thread 1).completes, (s.memory.heap 0).map (·.url.parses))) =
        some (some 0, some 0, some true) := by
    decide +kernel
  obtain ⟨s, ran, facts⟩ := Option.map_eq_some_iff.mp reached
  rw [Prod.mk.injEq, Prod.mk.injEq] at facts
  obtain ⟨holds, completes, parses⟩ := facts
  have parsable : Parsable s 0 := by
    intro e loaded
    rw [loaded] at parses
    exact Option.some.inj parses
  exact ⟨s, ran, (can_answer_iff ⟨_, ran⟩ holds).mpr (Or.inr ⟨1, completes, fun _ => parsable⟩)⟩

end OsLabs.Proxy
