import OsLabs.Proxy.Completion
import OsLabs.Proxy.DownloadFailures

/-!
# Replies are downloads

The threads of the proxy take `downloadData` apart: `recv`, insertions and the
completion mark are steps of their own, with steps of other threads between
them.  `Log` is what a run has shown of one thread.  From the log of its
downloader alone the sequential `downloadData` computes what a complete entry
holds, and the handler that sends it was asked for the URL of that entry.
-/

set_option autoImplicit false

namespace OsLabs.Proxy

open OsLabs.CString OsLabs.Transition

/-! ## What a run shows of a thread -/

/-- `request` is the URL a thread works for: a handler is asked for it, and a
downloader takes it over from the handler that creates it.  `allocations` has
one answer for each critical section of the thread, and `headerBuffer` is what
the array held before the first `recv`. -/
structure Log where
  request : Option Url
  headerBuffer : List Byte
  chunks : List Chunk
  allocations : List Bool

namespace Log

def empty : Log := ⟨none, [], [], []⟩

def record (log : Tid → Log) : Action → Tid → Log
  | .accept tid url => Function.update log tid { log tid with request := some url }
  | .pthreadCreate tid (some new) =>
      Function.update log new { log new with request := (log tid).request }
  | .advance tid _ headerBuffer =>
      Function.update log tid { log tid with headerBuffer := headerBuffer }
  | .recv tid (some chunk) =>
      Function.update log tid { log tid with chunks := (log tid).chunks ++ [chunk] }
  | .body tid choices =>
      Function.update log tid
        { log tid with allocations := (log tid).allocations ++ [choices.allocated] }
  | _ => log

/-- The logs of the threads after a run. -/
def of (actions : List Action) : Tid → Log := actions.foldl record fun _ => empty

/-- The answers to the calls of `realloc`, in order. -/
def reallocOk (log : Log) (call : Nat) : Bool := log.allocations.getD call true

def start (log : Log) : LoopState := .start log.headerBuffer

/-- All that the loop passes to `cacheInsertData` for the chunks of the log. -/
def ranges (log : Log) : List (List Byte) := loopRanges log.chunks log.start

/-- What the sequential `downloadData` leaves in a new entry. -/
def download (log : Log) (url : Url) (now : Int) (next : Option Addr) (ending : RecvEnd) :
    CacheEntry :=
  (downloadData log.reallocOk log.headerBuffer (newEntry url.bytes now next) log.chunks ending).entry

theorem of_snoc (actions : List Action) (action : Action) :
    of (actions ++ [action]) = record (of actions) action := by
  simp [of]

/-- An action is recorded for its own thread, or for the one it creates. -/
theorem record_other (log : Tid → Log) {action : Action} {tid : Tid} (other : tid ≠ action.actor)
    (noChild : ∀ parent child, action ≠ .pthreadCreate parent (some child)) :
    record log action tid = log tid := by
  cases action with
  | pthreadCreate parent child =>
      cases child with
      | none => rfl
      | some new => exact absurd rfl (noChild parent new)
  | recv actor received =>
      cases received with
      | none => rfl
      | some chunk => exact Function.update_of_ne other _ _
  | accept | advance | body => exact Function.update_of_ne other _ _
  | _ => rfl

theorem record_body (log : Tid → Log) (tid : Tid) (choices : Choices) :
    record log (.body tid choices) tid =
      { log tid with allocations := (log tid).allocations ++ [choices.allocated] } :=
  Function.update_self _ _ _

theorem record_body_other (log : Tid → Log) {tid other : Tid} (different : other ≠ tid)
    (choices : Choices) : record log (.body tid choices) other = log other :=
  Function.update_of_ne different _ _

end Log

/-! ## The receive loop, one chunk more -/

def loopAfter (chunks : List Chunk) (state : LoopState) : LoopState :=
  chunks.foldl (fun s chunk => (loopBody s chunk.bytes).state) state

theorem not_breaks_nil (state : LoopState) : ¬ Breaks state [] := by
  intro assumed
  obtain ⟨before, chunk, after, split, _⟩ := assumed
  simp at split

theorem loopRanges_snoc (chunks : List Chunk) (chunk : Chunk) (state : LoopState)
    (goesOn : ¬ Breaks state chunks) :
    loopRanges (chunks ++ [chunk]) state =
      loopRanges chunks state ++ (loopBody (loopAfter chunks state) chunk.bytes).ranges := by
  induction chunks generalizing state with
  | nil => simp [loopRanges, loopAfter]
  | cons first rest ih =>
      rw [breaks_cons, not_or, Bool.not_eq_true] at goesOn
      have later := ih (loopBody state first.bytes).state goesOn.2
      simp only [List.cons_append, loopRanges, goesOn.1, Bool.false_eq_true, if_false, later,
        List.append_assoc]
      rfl

theorem breaks_snoc (chunks : List Chunk) (chunk : Chunk) (state : LoopState)
    (goesOn : ¬ Breaks state chunks) :
    Breaks state (chunks ++ [chunk]) ↔
      (loopBody (loopAfter chunks state) chunk.bytes).leaves = true := by
  induction chunks generalizing state with
  | nil =>
      rw [List.nil_append, breaks_cons]
      simp [not_breaks_nil, loopAfter]
  | cons first rest ih =>
      rw [breaks_cons, not_or, Bool.not_eq_true] at goesOn
      rw [List.cons_append, breaks_cons, ih _ goesOn.2, goesOn.1]
      simp [loopAfter]

theorem loopAfter_snoc (chunks : List Chunk) (chunk : Chunk) (state : LoopState) :
    loopAfter (chunks ++ [chunk]) state = (loopBody (loopAfter chunks state) chunk.bytes).state := by
  simp [loopAfter]

/-- Only the answers to the insertions themselves count. -/
theorem stored_congr {reallocOk other : Nat → Bool} (call : Nat) (ranges : List (List Byte))
    (same : ∀ offset < ranges.length, reallocOk (call + offset) = other (call + offset)) :
    stored reallocOk call ranges = stored other call ranges := by
  induction ranges generalizing call with
  | nil => rfl
  | cons range rest ih =>
      have here : reallocOk call = other call := same 0 (by simp)
      have later := ih (call + 1) (fun offset below => by
        have next := same (offset + 1) (by simpa using below)
        rwa [Nat.add_comm offset, ← Nat.add_assoc] at next)
      simp only [stored, here, later]

theorem Log.stored_answered (log : Log) (answer : Bool) (done : List (List Byte))
    (counted : log.allocations.length = done.length) :
    stored { log with allocations := log.allocations ++ [answer] }.reallocOk 0 done =
      stored log.reallocOk 0 done := by
  apply stored_congr
  intro offset below
  simp only [Log.reallocOk, Nat.zero_add, List.getD_eq_getElem?_getD]
  rw [List.getElem?_append_left (by omega)]

/-- One insertion more. -/
theorem Log.stored_inserted (log : Log) (answer : Bool) (done : List (List Byte))
    (range : List Byte) (counted : log.allocations.length = done.length) :
    stored { log with allocations := log.allocations ++ [answer] }.reallocOk 0 (done ++ [range]) =
      stored log.reallocOk 0 done ++ (if answer then range else []) := by
  have here : { log with allocations := log.allocations ++ [answer] }.reallocOk done.length =
      answer := by
    simp only [Log.reallocOk, ← counted]
    simp
  rw [stored_append, log.stored_answered answer done counted, Nat.zero_add]
  simp [stored, here]

/-! ## Threads and their logs -/

/-- The thread works for the URL of this entry. -/
def AskedFor (entries : Addr → Option Payload) (log : Log) (entry : Addr) : Prop :=
  ∃ url, log.request = some url ∧ ∀ payload, entries entry = some payload → payload.url = url

/-- A downloader that has made the insertions `done`, of all that its chunks
give, and has `pending` still to make. -/
structure Downloading (entries : Addr → Option Payload) (log : Log) (entry : Addr)
    (done pending : List (List Byte)) (loop : Option LoopState) : Prop where
  asked : AskedFor entries log entry
  contents : ∀ payload, entries entry = some payload → payload.data = stored log.reallocOk 0 done
  counted : log.allocations.length = done.length
  ranges : done ++ pending = log.ranges
  goesOn : ∀ state, loop = some state →
    state = loopAfter log.chunks log.start ∧ ¬ Breaks log.start log.chunks

/-- Nothing was received or inserted yet. -/
structure Untouched (entries : Addr → Option Payload) (log : Log) (entry : Addr) : Prop where
  asked : AskedFor entries log entry
  empty : ∀ payload, entries entry = some payload → payload.data = []
  chunks : log.chunks = []
  allocations : log.allocations = []

/-- Where a call of the thread comes from. -/
def Op.Follows (entries : Addr → Option Payload) (log : Log) : Caller → Op → Prop
  | .handler, .getCacheEntry url | .handler, .addNewEntry url => log.request = some url
  | .handler, .serve entry => AskedFor entries log entry
  | .downloader pending loop, .cacheInsertData entry range =>
      ∃ done, Downloading entries log entry done (range :: pending) loop
  | .downloader _ _, .cacheMarkComplete entry => Downloading entries log entry log.ranges [] none
  | _, _ => True

def Thread.Follows (entries : Addr → Option Payload) (log : Log) : Thread → Prop
  | .unborn => log = .empty
  | .spawning entry => AskedFor entries log entry ∧
      ∀ payload, entries entry = some payload → payload.data = []
  | .sleeping entry => AskedFor entries log entry
  | .connecting entry _ => Untouched entries log entry
  | .receiving entry loop => Downloading entries log entry log.ranges [] (some loop)
  | .locking caller op | .inside caller op => op.Follows entries log caller
  | .idle | .evicting _ _ | .evictInside _ _ | .returned => True

/-- Every thread is where its log leads, and a complete entry was filled by a
thread that worked for its URL and has returned. -/
structure Accounted (s : State) (log : Tid → Log) : Prop where
  threads : ∀ tid, (s.thread tid).Follows s.memory.payload (log tid)
  complete : ∀ entry payload, s.memory.payload entry = some payload → payload.isComplete = true →
    ∃ tid, s.thread tid = .returned ∧ (log tid).request = some payload.url ∧
      payload.data = stored (log tid).reallocOk 0 (log tid).ranges

section Changes

variable {entries after : Addr → Option Payload} {log : Log} {thread : Thread} {entry : Addr}

/-- The entry still has its URL, or is gone. -/
def KeepsUrl (entries after : Addr → Option Payload) (entry : Addr) : Prop :=
  ∀ payload', after entry = some payload' →
    ∃ payload, entries entry = some payload ∧ payload'.url = payload.url

/-- The entry still has its URL and its bytes, or is gone. -/
def KeepsBytes (entries after : Addr → Option Payload) (entry : Addr) : Prop :=
  ∀ payload', after entry = some payload' →
    ∃ payload, entries entry = some payload ∧ payload'.url = payload.url ∧
      payload'.data = payload.data

theorem KeepsBytes.keepsUrl (kept : KeepsBytes entries after entry) :
    KeepsUrl entries after entry := by
  intro payload' stored
  obtain ⟨payload, before, sameUrl, _⟩ := kept payload' stored
  exact ⟨payload, before, sameUrl⟩

theorem AskedFor.mono (asked : AskedFor entries log entry)
    (kept : KeepsUrl entries after entry) : AskedFor after log entry := by
  obtain ⟨url, request, isUrl⟩ := asked
  refine ⟨url, request, ?_⟩
  intro payload' stored
  obtain ⟨payload, before, same⟩ := kept payload' stored
  rw [same, isUrl payload before]

theorem Downloading.mono {done pending : List (List Byte)} {loop : Option LoopState}
    (downloading : Downloading entries log entry done pending loop)
    (kept : KeepsBytes entries after entry) :
    Downloading after log entry done pending loop where
  asked := downloading.asked.mono kept.keepsUrl
  contents payload' stored := by
    obtain ⟨payload, before, _, same⟩ := kept payload' stored
    rw [same, downloading.contents payload before]
  counted := downloading.counted
  ranges := downloading.ranges
  goesOn := downloading.goesOn

theorem Untouched.mono (untouched : Untouched entries log entry)
    (kept : KeepsBytes entries after entry) : Untouched after log entry where
  asked := untouched.asked.mono kept.keepsUrl
  empty payload' stored := by
    obtain ⟨payload, before, _, same⟩ := kept payload' stored
    rw [same, untouched.empty payload before]
  chunks := untouched.chunks
  allocations := untouched.allocations

/-- A thread follows its log on while the entry it holds keeps its URL and the
one it fills keeps its bytes. -/
theorem Thread.Follows.mono (follows : thread.Follows entries log)
    (urls : ∀ addr, thread.holds = some addr → KeepsUrl entries after addr)
    (kept : ∀ addr, thread.writes = some addr → KeepsBytes entries after addr) :
    thread.Follows after log := by
  have ofOp : ∀ caller op,
      (∀ addr, (Thread.locking caller op).holds = some addr → KeepsUrl entries after addr) →
      (∀ addr, (Thread.locking caller op).writes = some addr → KeepsBytes entries after addr) →
      op.Follows entries log caller → op.Follows after log caller := by
    intro caller op urls kept follows
    cases caller with
    | client => trivial
    | handler =>
        cases op with
        | serve addr => exact follows.mono (urls addr rfl)
        | _ => exact follows
    | downloader pending loop =>
        cases op with
        | cacheInsertData addr range =>
            obtain ⟨done, downloading⟩ := follows
            exact ⟨done, downloading.mono (kept addr rfl)⟩
        | cacheMarkComplete addr => exact Downloading.mono follows (kept addr rfl)
        | _ => exact follows
  cases thread with
  | spawning addr =>
      refine ⟨follows.1.mono (urls addr rfl), ?_⟩
      intro payload' stored
      obtain ⟨payload, before, _, same⟩ := kept addr rfl payload' stored
      rw [same, follows.2 payload before]
  | sleeping addr => exact AskedFor.mono follows (urls addr rfl)
  | connecting addr stage => exact Untouched.mono follows (kept addr rfl)
  | receiving addr loop => exact Downloading.mono follows (kept addr rfl)
  | locking caller op => exact ofOp caller op urls kept follows
  | inside caller op =>
      apply ofOp caller op ?_ ?_ follows
      · intro addr holds
        exact urls addr (by rw [← holds]; cases op <;> rfl)
      · intro addr writes
        exact kept addr (by rw [← writes]; cases caller <;> rfl)
  | _ => exact follows

theorem broadcast_follows (woken : Option Addr) (follows : thread.Follows entries log) :
    (thread.broadcast woken).Follows entries log := by
  apply broadcast_elim (P := fun other => other.Follows entries log) woken follows
  intro waited asleep
  rw [asleep] at follows
  exact follows

theorem downloadNext_follows (done : List (List Byte)) {pending : List (List Byte)}
    {loop : Option LoopState} (downloading : Downloading entries log entry done pending loop) :
    (downloadNext entry pending loop).Follows entries log := by
  cases pending with
  | cons range rest => exact ⟨done, downloading⟩
  | nil =>
      have all : done = log.ranges := by rw [← downloading.ranges, List.append_nil]
      rw [all] at downloading
      cases loop with
      | some state => exact downloading
      | none => exact downloading

/-- One more pass of the loop body. -/
theorem receive_follows {logs : Tid → Log} {tid : Tid} {loop : LoopState}
    (downloading : Downloading entries (logs tid) entry (logs tid).ranges [] (some loop))
    (received : Option Chunk) :
    (receive entry loop received).Follows entries (Log.record logs (.recv tid received) tid) := by
  obtain ⟨isLoop, unbroken⟩ := downloading.goesOn loop rfl
  cases received with
  | none =>
      have ended : Downloading entries (logs tid) entry (logs tid).ranges [] none :=
        ⟨downloading.asked, downloading.contents, downloading.counted, downloading.ranges,
          fun state isSome => by cases isSome⟩
      exact downloadNext_follows _ ended
  | some chunk =>
      have isLog : Log.record logs (.recv tid (some chunk)) tid =
          { logs tid with chunks := (logs tid).chunks ++ [chunk] } := Function.update_self _ _ _
      rw [isLog]
      apply downloadNext_follows (logs tid).ranges
      refine ⟨downloading.asked, downloading.contents, downloading.counted, ?_, ?_⟩
      · rw [isLoop]
        exact (loopRanges_snoc (logs tid).chunks chunk (logs tid).start unbroken).symm
      · intro state isState
        rw [isLoop] at isState
        by_cases leaves :
            (loopBody (loopAfter (logs tid).chunks (logs tid).start) chunk.bytes).leaves = true
        · rw [if_pos leaves] at isState
          cases isState
        · rw [if_neg leaves, Option.some.injEq] at isState
          refine ⟨isState.symm.trans (loopAfter_snoc (logs tid).chunks chunk _).symm, ?_⟩
          intro broken
          exact leaves ((breaks_snoc (logs tid).chunks chunk (logs tid).start unbroken).mp broken)

theorem advance_follows {logs : Tid → Log} {tid : Tid}
    (untouched : Untouched entries (logs tid) entry) (ok : Bool) (headerBuffer : List Byte)
    (stage : Stage) :
    (stage.advance entry ok headerBuffer).Follows entries
      (Log.record logs (.advance tid ok headerBuffer) tid) := by
  have isLog : Log.record logs (.advance tid ok headerBuffer) tid =
      { logs tid with headerBuffer := headerBuffer } := Function.update_self _ _ _
  rw [isLog]
  have still : Untouched entries { logs tid with headerBuffer := headerBuffer } entry :=
    ⟨untouched.asked, untouched.empty, untouched.chunks, untouched.allocations⟩
  have nothing : Log.ranges { logs tid with headerBuffer := headerBuffer } = [] := by
    rw [Log.ranges, still.chunks]
    rfl
  cases stage with
  | parseURL =>
      cases ok with
      | true => exact still
      | false => exact trivial
  | connect =>
      cases ok with
      | false => exact trivial
      | true =>
          show Downloading entries _ entry (Log.ranges _) [] _
          rw [nothing]
          refine ⟨still.asked, still.empty, by rw [still.allocations]; rfl, by rw [nothing]; rfl, ?_⟩
          intro state isState
          cases isState
          rw [still.chunks]
          exact ⟨rfl, not_breaks_nil _⟩
  | _ =>
      cases ok with
      | true => exact still
      | false => exact trivial

end Changes

/-! ## Steps -/

section Steps

variable {s next : State} {log : Tid → Log}

/-- A step outside the critical sections moves its own thread. -/
theorem Accounted.moves {thread : Thread} (accounted : Accounted s log) (action : Action)
    (memory : next.memory = s.memory)
    (isNext : next.thread = Function.update s.thread action.actor thread)
    (noChild : ∀ parent child, action ≠ .pthreadCreate parent (some child))
    (running : s.thread action.actor ≠ .returned)
    (follows : thread.Follows s.memory.payload (Log.record log action action.actor)) :
    Accounted next (Log.record log action) where
  threads tid := by
    rw [memory, isNext]
    by_cases here : tid = action.actor
    · rw [here, Function.update_self]
      exact follows
    · rw [Function.update_of_ne here, Log.record_other log here noChild]
      exact accounted.threads tid
  complete entry payload stored isComplete := by
    rw [memory] at stored
    obtain ⟨tid, returned, filled⟩ := accounted.complete entry payload stored isComplete
    have other : tid ≠ action.actor := by
      intro here
      exact running (here ▸ returned)
    refine ⟨tid, by rw [isNext, Function.update_of_ne other, returned], ?_⟩
    rw [Log.record_other log other noChild]
    exact filled

/-- A critical section changes entries that exist in place, and leaves what the
others fill as it was. -/
theorem Accounted.changes {tid : Tid} {choices : Choices} {effect : Effect} {mutex : Mutex}
    {thread : Thread} (accounted : Accounted s log) (one : OneWriter s.shared)
    (running : s.thread tid ≠ .returned)
    (urls : ∀ addr < s.nextId, KeepsUrl s.memory.payload effect.memory.payload addr)
    (kept : ∀ addr < s.nextId, (s.thread tid).writes ≠ some addr →
      KeepsBytes s.memory.payload effect.memory.payload addr)
    (follows : thread.Follows effect.memory.payload (Log.record log (.body tid choices) tid))
    (complete : ∀ addr payload', effect.memory.payload addr = some payload' →
      payload'.isComplete = true → s.memory.payload addr = some payload' ∨
        thread = .returned ∧ (log tid).request = some payload'.url ∧
          payload'.data =
            stored (Log.record log (.body tid choices) tid).reallocOk 0 (log tid).ranges) :
    Accounted (((s.apply effect).unlock mutex).setThread tid thread)
      (Log.record log (.body tid choices)) := by
  have isOther : ∀ other, other ≠ tid →
      (((s.apply effect).unlock mutex).setThread tid thread).thread other =
        (s.thread other).broadcast effect.woken := fun other different =>
    Function.update_of_ne different _ _
  have isOwn : (((s.apply effect).unlock mutex).setThread tid thread).thread tid = thread :=
    Function.update_self _ _ _
  constructor
  · intro other
    by_cases here : other = tid
    · rw [here, isOwn]
      exact follows
    · rw [isOther other here, Log.record_body_other log here]
      apply broadcast_follows
      apply (accounted.threads other).mono
      · intro addr holds
        exact urls addr (one.held other addr holds)
      · intro addr writes
        apply kept addr (one.written other addr writes)
        intro alsoWrites
        exact here (one.single other tid addr writes alsoWrites)
  · intro addr payload' stored isComplete
    rcases complete addr payload' stored isComplete with before | ⟨returned, request, same⟩
    · obtain ⟨other, returned, filled⟩ := accounted.complete addr payload' before isComplete
      have different : other ≠ tid := by
        intro here
        exact running (here ▸ returned)
      refine ⟨other, ?_, ?_⟩
      · rw [isOther other different, returned]
        rfl
      · rw [Log.record_body_other log different]
        exact filled
    · refine ⟨tid, by rw [isOwn, returned], ?_, same.trans ?_⟩
      · rw [Log.record_body]
        exact request
      · rw [Log.record_body]
        rfl

end Steps

/-! ## Critical sections -/

/-- `getCacheEntry` gives an entry of the URL it looks for. -/
theorem getCacheEntry_finds {choices : Choices} {memory : Cache} {nextId entry : Addr} {url : Url}
    {effect : Effect} (holds : memory.Holds)
    (ran : (Op.getCacheEntry url).effect choices memory nextId = .ok effect)
    (outcome : effect.outcome = .returns (some entry)) {payload : Payload}
    (stored : effect.memory.payload entry = some payload) : payload.url = url := by
  obtain ⟨chain, represents, short⟩ := holds
  have found := Cache.getCacheEntry_spec traversalFuel memory url.bytes choices.now chain represents
    (Nat.lt_succ_of_le short)
  cases searched : chain.find? (memory.holdsUrl url.bytes) with
  | none =>
      rw [searched] at found
      simp only [Op.effect, found, Cache.ok_bind, Except.ok.injEq] at ran
      subst effect
      cases outcome
  | some hit =>
      rw [searched] at found
      simp only [Op.effect, found, Cache.ok_bind, Except.ok.injEq] at ran
      subst effect
      simp only [Outcome.returns.injEq, Option.some.injEq] at outcome
      subst hit
      have matching := List.find?_some searched
      simp only [Cache.holdsUrl, Option.any_eq_true, CacheEntry.hasUrl, decide_eq_true_eq] at matching
      obtain ⟨e, loaded, sameBytes⟩ := matching
      rw [Cache.payload_touch, Cache.payload_of_some loaded, Option.some.injEq] at stored
      subst payload
      rw [cstr_of_no_nul url.bytes url.clean] at sameBytes
      cases isUrl : e.url with
      | mk bytes fits clean =>
          cases url
          simp only [isUrl] at sameBytes
          simp [CacheEntry.payload, isUrl, sameBytes]

section Sections

variable {s : State} {log : Tid → Log} {tid : Tid} {choices : Choices} {effect : Effect}
  {result : Option Addr}

/-- After a section that changes no entry the thread goes on as its log says. -/
theorem Accounted.reads {mutex : Mutex} {thread : Thread} (accounted : Accounted s log)
    (one : OneWriter s.shared) (running : s.thread tid ≠ .returned)
    (same : effect.memory.payload = s.memory.payload)
    (follows : thread.Follows s.memory.payload (Log.record log (.body tid choices) tid)) :
    Accounted (((s.apply effect).unlock mutex).setThread tid thread)
      (Log.record log (.body tid choices)) := by
  apply accounted.changes one running <;> rw [same]
  · intro addr _ payload' stored
    exact ⟨payload', stored, rfl⟩
  · intro addr _ _ payload' stored
    exact ⟨payload', stored, rfl, rfl⟩
  · exact follows
  · intro addr payload' stored _
    exact Or.inl stored

theorem Accounted.lookup {url : Url} (accounted : Accounted s log) (shares : Shares s)
    (here : s.thread tid = .inside .handler (.getCacheEntry url))
    (ran : (Op.getCacheEntry url).effect choices s.memory s.nextId = .ok effect)
    (outcome : effect.outcome = .returns result) :
    Accounted (((s.apply effect).unlock .cacheMutex).setThread tid
      (resume .handler (.getCacheEntry url) result)) (Log.record log (.body tid choices)) := by
  have holds := shares.proxied.sound.cache
  obtain ⟨found, after, same, _, entries, _⟩ := getCacheEntry_effect choices s.nextId holds url
  have isEffect := ran
  rw [same, Except.ok.injEq] at isEffect
  have request : (log tid).request = some url := by
    have follows := accounted.threads tid
    rwa [here] at follows
  have kept : effect.memory.payload = s.memory.payload := by rw [← isEffect]; exact entries
  apply accounted.reads shares.one (by rw [here]; simp) kept
  rw [Log.record_body]
  cases result with
  | none => exact request
  | some entry =>
      refine ⟨url, request, ?_⟩
      intro payload stored
      rw [← kept] at stored
      exact getCacheEntry_finds holds ran outcome stored

theorem Accounted.addition {url : Url} (accounted : Accounted s log) (shares : Shares s)
    (here : s.thread tid = .inside .handler (.addNewEntry url))
    (ran : (Op.addNewEntry url).effect choices s.memory s.nextId = .ok effect)
    (outcome : effect.outcome = .returns result) :
    Accounted (((s.apply effect).unlock .cacheMutex).setThread tid
      (resume .handler (.addNewEntry url) result)) (Log.record log (.body tid choices)) := by
  have sound := shares.proxied.sound
  have running : s.thread tid ≠ .returned := by rw [here]; simp
  have request : (log tid).request = some url := by
    have follows := accounted.threads tid
    rwa [here] at follows
  by_cases full : cacheMaxSize ≤ s.memory.cacheSize
  · rw [addNewEntry_effect_full choices s.nextId url full, Except.ok.injEq] at ran
    subst effect
    cases outcome
  rcases addNewEntry_effect_room choices s.nextId sound.cache url (Nat.lt_of_not_le full)
    (sound.fresh s.nextId le_rfl) with ⟨_, same⟩ | ⟨_, after, same, _, linked⟩
  · rw [ran, Except.ok.injEq] at same
    subst effect
    cases outcome
    exact accounted.reads shares.one running rfl trivial
  · rw [ran, Except.ok.injEq] at same
    subst effect
    cases outcome
    have old : ∀ addr < s.nextId, after.payload addr = s.memory.payload addr := by
      intro addr below
      rw [linked, Function.update_of_ne below.ne]
    have new : after.payload s.nextId = some ⟨url, [], false⟩ := by
      rw [linked, Function.update_self]
    apply accounted.changes shares.one running
    · intro addr below payload' stored
      exact ⟨payload', (old addr below).symm.trans stored, rfl⟩
    · intro addr below _ payload' stored
      exact ⟨payload', (old addr below).symm.trans stored, rfl, rfl⟩
    · rw [Log.record_body]
      refine ⟨⟨url, request, ?_⟩, ?_⟩ <;>
        · intro payload stored
          rw [new, Option.some.injEq] at stored
          rw [← stored]
    · intro addr payload' stored complete
      by_cases isNew : addr = s.nextId
      · rw [isNew, new, Option.some.injEq] at stored
        rw [← stored] at complete
        cases complete
      · rw [linked, Function.update_of_ne isNew] at stored
        exact Or.inl stored

theorem Accounted.deletion {entry : Addr} {pending : List (List Byte)} {loop : Option LoopState}
    (accounted : Accounted s log) (shares : Shares s)
    (here : s.thread tid = .inside (.downloader pending loop) (.deleteEntry entry))
    (ran : (Op.deleteEntry entry).effect choices s.memory s.nextId = .ok effect) :
    Accounted (((s.apply effect).unlock .cacheMutex).setThread tid .returned)
      (Log.record log (.body tid choices)) := by
  obtain ⟨after, same, _, gone⟩ :=
    deleteEntry_effect choices s.nextId shares.proxied.sound.cache entry
  rw [ran, Except.ok.injEq] at same
  subst effect
  have before : ∀ addr payload', after.payload addr = some payload' →
      s.memory.payload addr = some payload' := by
    intro addr payload' stored
    rw [gone] at stored
    rcases update_eq_some stored with ⟨_, freed⟩ | ⟨_, kept⟩
    · cases freed
    · exact kept
  apply accounted.changes shares.one (by rw [here]; simp)
  · intro addr _ payload' stored
    exact ⟨payload', before addr payload' stored, rfl⟩
  · intro addr _ _ payload' stored
    exact ⟨payload', before addr payload' stored, rfl, rfl⟩
  · exact trivial
  · intro addr payload' stored _
    exact Or.inl (before addr payload' stored)

theorem Accounted.insertion {entry : Addr} {range : List Byte} {pending : List (List Byte)}
    {loop : Option LoopState} (accounted : Accounted s log) (shares : Shares s)
    (here : s.thread tid = .inside (.downloader pending loop) (.cacheInsertData entry range))
    (ran : (Op.cacheInsertData entry range).effect choices s.memory s.nextId = .ok effect) :
    Accounted (((s.apply effect).unlock (.entryMutex entry)).setThread tid
      (downloadNext entry pending loop)) (Log.record log (.body tid choices)) := by
  cases ran
  have changed := Cache.payload_modify s.memory entry _ _ fun e =>
    cacheInsertData_payload e choices.allocated range
  obtain ⟨done, downloading⟩ : ∃ done, Downloading s.memory.payload (log tid) entry done
      (range :: pending) loop := by
    have follows := accounted.threads tid
    rwa [here] at follows
  have isWriting : (s.thread tid).writes = some entry := by rw [here]; rfl
  have urls : ∀ addr, KeepsUrl s.memory.payload
      (s.memory.modify entry fun e => e.cacheInsertData choices.allocated range).payload addr := by
    intro addr payload' stored
    rw [changed] at stored
    rcases update_eq_some stored with ⟨isEntry, inserted⟩ | ⟨_, kept⟩
    · obtain ⟨payload, before, isPayload⟩ := Option.map_eq_some_iff.mp inserted
      exact ⟨payload, isEntry ▸ before, by rw [← isPayload]; rfl⟩
    · exact ⟨payload', kept, rfl⟩
  apply accounted.changes shares.one (by rw [here]; simp)
  · exact fun addr _ => urls addr
  · intro addr _ notWritten payload' stored
    have other : addr ≠ entry := by
      intro isEntry
      rw [isEntry] at notWritten
      exact notWritten isWriting
    rw [changed, Function.update_of_ne other] at stored
    exact ⟨payload', stored, rfl, rfl⟩
  · rw [Log.record_body]
    apply downloadNext_follows (done ++ [range])
    refine ⟨downloading.asked.mono (urls entry), ?_, by simp [downloading.counted], ?_,
      downloading.goesOn⟩
    · intro payload' stored
      rw [changed, Function.update_self] at stored
      obtain ⟨payload, before, isPayload⟩ := Option.map_eq_some_iff.mp stored
      rw [(log tid).stored_inserted choices.allocated done range downloading.counted, ← isPayload,
        ← downloading.contents payload before]
      rfl
    · rw [List.append_assoc, List.singleton_append]
      exact downloading.ranges
  · intro addr payload' stored complete
    rw [changed] at stored
    rcases update_eq_some stored with ⟨isEntry, inserted⟩ | ⟨_, kept⟩
    · -- an entry that is still filled is not complete
      obtain ⟨payload, before, isPayload⟩ := Option.map_eq_some_iff.mp inserted
      have incomplete := shares.one.incomplete tid entry payload isWriting before
      rw [← isPayload, Payload.insert, incomplete] at complete
      cases complete
    · exact Or.inl kept

theorem Accounted.completion {entry : Addr} {pending : List (List Byte)} {loop : Option LoopState}
    (accounted : Accounted s log) (shares : Shares s)
    (here : s.thread tid = .inside (.downloader pending loop) (.cacheMarkComplete entry))
    (ran : (Op.cacheMarkComplete entry).effect choices s.memory s.nextId = .ok effect) :
    Accounted (((s.apply effect).unlock (.entryMutex entry)).setThread tid .returned)
      (Log.record log (.body tid choices)) := by
  cases ran
  have changed := Cache.payload_modify s.memory entry CacheEntry.cacheMarkComplete
    Payload.complete fun _ => rfl
  have downloading : Downloading s.memory.payload (log tid) entry (log tid).ranges [] none := by
    have follows := accounted.threads tid
    rwa [here] at follows
  have bytes : ∀ addr, KeepsBytes s.memory.payload
      (s.memory.modify entry CacheEntry.cacheMarkComplete).payload addr := by
    intro addr payload' stored
    rw [changed] at stored
    rcases update_eq_some stored with ⟨isEntry, completed⟩ | ⟨_, kept⟩
    · obtain ⟨payload, old, isPayload⟩ := Option.map_eq_some_iff.mp completed
      exact ⟨payload, isEntry ▸ old, by rw [← isPayload]; rfl, by rw [← isPayload]; rfl⟩
    · exact ⟨payload', kept, rfl, rfl⟩
  apply accounted.changes shares.one (by rw [here]; simp)
  · exact fun addr _ => (bytes addr).keepsUrl
  · exact fun addr _ _ => bytes addr
  · exact trivial
  · intro addr payload' stored _
    by_cases isEntry : addr = entry
    · subst isEntry
      obtain ⟨payload, old, sameUrl, sameData⟩ := bytes addr payload' stored
      obtain ⟨url, request, isUrl⟩ := downloading.asked
      refine Or.inr ⟨rfl, by rw [request, sameUrl, isUrl payload old], ?_⟩
      rw [sameData, downloading.contents payload old, Log.record_body]
      exact ((log tid).stored_answered choices.allocated _ downloading.counted).symm
    · rw [changed] at stored
      rw [Function.update_of_ne isEntry] at stored
      exact Or.inl stored

theorem Accounted.returns {caller : Caller} {op : Op} (accounted : Accounted s log)
    (shares : Shares s)
    (here : s.thread tid = .inside caller op)
    (ran : op.effect choices s.memory s.nextId = .ok effect)
    (outcome : effect.outcome = .returns result) :
    Accounted (((s.apply effect).unlock op.mutex).setThread tid (resume caller op result))
      (Log.record log (.body tid choices)) := by
  have runs := shares.proxied.runs here
  cases caller with
  | client => cases op <;> exact runs.elim
  | handler =>
      cases op with
      | getCacheEntry url => exact accounted.lookup shares here ran outcome
      | addNewEntry url => exact accounted.addition shares here ran outcome
      | serve entry =>
          have same : effect.memory = s.memory := by
            rcases serve_effect choices s.memory s.nextId entry with ⟨record, isEffect, _⟩ |
              ⟨isEffect, _⟩ <;>
              · rw [ran, Except.ok.injEq] at isEffect
                rw [isEffect]
          exact accounted.reads shares.one (by rw [here]; simp) (by rw [same]) trivial
      | _ => exact runs.elim
  | downloader pending loop =>
      cases op with
      | deleteEntry entry => exact accounted.deletion shares here ran
      | cacheInsertData entry range => exact accounted.insertion shares here ran
      | cacheMarkComplete entry => exact accounted.completion shares here ran
      | _ => exact runs.elim

end Sections

/-! ## Runs -/

theorem start_accounted : Accounted .start fun _ => .empty where
  threads _ := rfl
  complete entry payload stored := by cases stored

/-- The downloader starts with the URL of its creator and an untouched entry. -/
theorem Accounted.created {s : State} {log : Tid → Log} {tid new : Tid} {entry : Addr}
    (accounted : Accounted s log) (here : s.thread tid = .spawning entry)
    (born : s.thread new = .unborn) :
    Accounted ((s.setThread tid (.locking .handler (.serve entry))).setThread new
      (.connecting entry .parseURL)) (Log.record log (.pthreadCreate tid (some new))) := by
  have ofParent := accounted.threads tid
  have ofChild := accounted.threads new
  rw [here] at ofParent
  rw [born] at ofChild
  have isEmpty : log new = .empty := ofChild
  have isChildLog : Log.record log (.pthreadCreate tid (some new)) new =
      { log new with request := (log tid).request } := Function.update_self _ _ _
  have sameLog : ∀ other, other ≠ new →
      Log.record log (.pthreadCreate tid (some new)) other = log other :=
    fun other different => Function.update_of_ne different _ _
  have others : ∀ other, other ≠ tid → other ≠ new →
      ((s.setThread tid (.locking .handler (.serve entry))).setThread new
        (.connecting entry .parseURL)).thread other = s.thread other := by
    intro other notParent notChild
    simp [State.setThread, notParent, notChild]
  constructor
  · intro other
    by_cases isChild : other = new
    · subst isChild
      rw [isChildLog]
      simp only [State.setThread, Function.update_self]
      exact ⟨ofParent.1, ofParent.2, by rw [isEmpty]; rfl, by rw [isEmpty]; rfl⟩
    · rw [sameLog other isChild]
      by_cases isParent : other = tid
      · subst isParent
        simp only [State.setThread, Function.update_of_ne isChild, Function.update_self]
        exact ofParent.1
      · rw [others other isParent isChild]
        exact accounted.threads other
  · intro addr payload stored complete
    obtain ⟨other, returned, filled⟩ := accounted.complete addr payload stored complete
    have notParent : other ≠ tid := by
      intro isParent
      rw [isParent, here] at returned
      cases returned
    have notChild : other ≠ new := by
      intro isChild
      rw [isChild, born] at returned
      cases returned
    refine ⟨other, by rw [others other notParent notChild, returned], ?_⟩
    rw [sameLog other notChild]
    exact filled

theorem accounted_step {s next : State} {action : Action} {log : Tid → Log}
    (accounted : Accounted s log)
    (shares : Shares s) (stepped : proxySystem.step s action = some next) :
    Accounted next (Log.record log action) := by
  obtain ⟨stepped, noCall⟩ := proxyStep_cases stepped
  have at_ : ∀ tid thread, s.thread tid = thread → thread.Follows s.memory.payload (log tid) := by
    intro tid thread here
    rw [← here]
    exact accounted.threads tid
  cases threadStep_move stepped with
  | @accept tid url born =>
      refine accounted.moves (.accept tid url) rfl rfl (by simp) (by simp [Action.actor, born])
        ?_
      have request : (Log.record log (.accept tid url) tid).request = some url := by
        simp [Log.record]
      exact request
  | call free => cases noCall
  | @lock tid caller op waiting free =>
      have follows := at_ tid _ waiting
      exact accounted.moves (.lock tid) rfl rfl (by simp) (by simp [Action.actor, waiting]) follows
  | @nestedLock tid caller url waiting free =>
      exact accounted.moves (.lock tid) rfl rfl (by simp) (by simp [Action.actor, waiting])
        trivial
  | returns here ran outcome => exact accounted.returns shares here ran outcome
  | @evicts tid choices caller url here full =>
      exact accounted.moves (.body tid choices) rfl rfl (by simp)
        (by simp [Action.actor, here]) trivial
  | @waits tid choices caller entry here incomplete =>
      refine accounted.moves (.body tid choices) rfl rfl (by simp)
        (by simp [Action.actor, here]) ?_
      have runs := shares.proxied.runs here
      have follows := at_ tid _ here
      show Thread.Follows _ (Log.record log (.body tid choices) tid) (.sleeping entry)
      rw [Log.record_body]
      cases caller with
      | handler => exact follows
      | _ => exact runs.elim
  | nestedBody here ran => exact absurd here (shares.proxied.sound.noNested _ _ _)
  | @createFailed tid entry here =>
      exact accounted.moves (.pthreadCreate tid none) rfl rfl (by simp)
        (by simp [Action.actor, here]) (at_ tid _ here).1
  | created here born => exact accounted.created here born
  | @advance tid entry stage ok headerBuffer here =>
      exact accounted.moves (.advance tid ok headerBuffer) rfl rfl (by simp)
        (by simp [Action.actor, here]) (advance_follows (at_ tid _ here) ok headerBuffer stage)
  | @recv tid entry loop received here =>
      exact accounted.moves (.recv tid received) rfl rfl (by simp)
        (by simp [Action.actor, here]) (receive_follows (at_ tid _ here) received)
  | @wake tid entry here =>
      have follows := at_ tid _ here
      exact accounted.moves (.wake tid) rfl rfl (by simp) (by simp [Action.actor, here]) follows

theorem run_accounted {actions : List Action} {s : State}
    (ran : proxySystem.run .start actions = some s) : Shares s ∧ Accounted s (Log.of actions) := by
  have start : Shares .start ∧ Accounted .start (Log.of []) := ⟨start_shares, start_accounted⟩
  apply System.run_history (fun actions s => Shares s ∧ Accounted s (Log.of actions)) start ?_ ran
  intro actions s action next before stepped
  refine ⟨proxyStep_shares s action next before.1 stepped, ?_⟩
  rw [Log.of_snoc]
  exact accounted_step before.2 before.1 stepped

/-! ## Replies -/

theorem Log.download_reply (log : Log) (url : Url) (now : Int) (next : Option Addr)
    (ending : RecvEnd) :
    sendIfAny (log.download url now next ending) =
      Payload.reply ⟨url, stored log.reallocOk 0 log.ranges, true⟩ := by
  have content := downloadData_content log.reallocOk log.headerBuffer (newEntry url.bytes now next)
    log.chunks ending
  rw [CacheEntry.newEntry_content, List.nil_append, CacheEntry.content_eq_data] at content
  have isData : (log.download url now next ending).payload.data =
      stored log.reallocOk 0 log.ranges := content
  rw [sendIfAny_reply, Payload.reply, isData]
  rfl

/-- Only the end of `handleRequest` sends. -/
theorem effect_served {op : Op} {choices : Choices} {memory : Cache} {nextId : Addr}
    {effect : Effect} (ran : op.effect choices memory nextId = .ok effect) :
    effect.served = [] ∨ ∃ entry, op = .serve entry := by
  cases op with
  | serve entry => exact Or.inr ⟨entry, rfl⟩
  | addNewEntry url =>
      left
      simp only [Op.effect] at ran
      split at ran <;>
        · rw [Except.ok.injEq] at ran
          rw [← ran]
  | cacheInsertData entry data | cacheMarkComplete entry =>
      left
      rw [Op.effect, Except.ok.injEq] at ran
      rw [← ran]
  | getCacheEntry url | deleteEntry entry | removeOldest | cacheCleanUp =>
      left
      obtain ⟨value, _, made⟩ := bind_ok ran
      rw [Except.ok.injEq] at made
      rw [← made]

/-- What a step sends, its thread sends at the end of `handleRequest`. -/
theorem reply_cases {s next : State} {tid : Tid} {choices : Choices} {record : Served}
    (shares : Shares s) (stepped : proxySystem.step s (.body tid choices) = some next)
    (sent : next.served = s.served ++ [record]) :
    s.thread tid = .inside .handler (.serve record.entry) ∧
      (record.live = true → ∃ payload, s.memory.payload record.entry = some payload ∧
        payload.isComplete = true ∧ record.sent = payload.reply) := by
  obtain ⟨stepped, noCall⟩ := proxyStep_cases stepped
  have nothing : next.served ≠ s.served := by
    rw [sent]
    simp
  cases threadStep_move stepped with
  | @returns _ _ caller op effect result here ran outcome =>
      have served : s.served ++ effect.served = s.served ++ [record] := sent
      rw [List.append_cancel_left_eq] at served
      rcases effect_served ran with none | ⟨entry, isServe⟩
      · rw [none] at served
        cases served
      subst isServe
      rcases serve_effect choices s.memory s.nextId entry with
        ⟨made, isEffect, isEntry, live, _⟩ | ⟨isEffect, _⟩
      · rw [ran, Except.ok.injEq] at isEffect
        rw [isEffect] at served
        cases served
        have runs := shares.proxied.runs here
        refine ⟨?_, ?_⟩
        · rw [isEntry, here]
          cases caller with
          | handler => rfl
          | _ => exact runs.elim
        · intro isLive
          obtain ⟨e, loaded, complete, isSent⟩ := live isLive
          rw [isEntry]
          exact ⟨e.payload, Cache.payload_of_some loaded, complete, by rw [isSent, sendIfAny_reply]⟩
      · rw [ran, Except.ok.injEq] at isEffect
        rw [isEffect] at served
        cases served
  | evicts here full => exact absurd rfl nothing
  | waits here incomplete => exact absurd rfl nothing
  | nestedBody here ran => exact absurd rfl nothing

/-- Whatever the interleaving: a reply that is sent from an allocated entry is
what the sequential `downloadData` computes from all that one downloader got
from the environment, and that downloader was created for the URL for which the
handler was asked. -/
theorem reply_is_download {actions : List Action} {s next : State} {tid : Tid} {choices : Choices}
    {record : Served} (ran : proxySystem.run .start actions = some s)
    (stepped : proxySystem.step s (.body tid choices) = some next)
    (sent : next.served = s.served ++ [record]) (live : record.live = true) :
    ∃ url downloader, (Log.of actions tid).request = some url ∧
      (Log.of actions downloader).request = some url ∧ s.thread downloader = .returned ∧
      ∀ now link ending,
        record.sent = sendIfAny ((Log.of actions downloader).download url now link ending) := by
  obtain ⟨shares, accounted⟩ := run_accounted ran
  obtain ⟨here, isSent⟩ := reply_cases shares stepped sent
  obtain ⟨payload, isStored, complete, isReply⟩ := isSent live
  obtain ⟨downloader, returned, request, filled⟩ :=
    accounted.complete record.entry payload isStored complete
  obtain ⟨url, asked, isUrl⟩ : AskedFor s.memory.payload (Log.of actions tid) record.entry := by
    have follows := accounted.threads tid
    rwa [here] at follows
  rw [isUrl payload isStored] at request
  refine ⟨url, downloader, asked, request, returned, ?_⟩
  intro now link ending
  rw [isReply, Log.download_reply, Payload.reply, filled]
  rfl

/-- The second of two handlers is sent what the downloader of the first one
received. -/
theorem second_reply_is_download :
    ∃ s next, proxySystem.run .start twoHandlers.dropLast = some s ∧
      proxySystem.step s (.body 2 ⟨0, true, none⟩) = some next ∧
      ∃ url downloader, (Log.of twoHandlers.dropLast 2).request = some url ∧
        (Log.of twoHandlers.dropLast downloader).request = some url ∧
        s.thread downloader = .returned ∧
        ∀ now link ending, some (text "body") =
          sendIfAny ((Log.of twoHandlers.dropLast downloader).download url now link ending) := by
  have reached : ((proxySystem.run .start twoHandlers.dropLast).bind fun s =>
      (proxySystem.step s (.body 2 ⟨0, true, none⟩)).map fun next =>
        decide (next.served = s.served ++ [⟨0, some (text "body"), true⟩])) = some true := by
    decide +kernel
  obtain ⟨s, ran, reached⟩ := Option.bind_eq_some_iff.mp reached
  obtain ⟨next, stepped, served⟩ := Option.map_eq_some_iff.mp reached
  exact ⟨s, next, ran, stepped, reply_is_download ran stepped (of_decide_eq_true served) rfl⟩

end OsLabs.Proxy
