import OsLabs.Proxy.Sharing

/-!
# A completed entry is final

In the abstract model an entry has at most one thread that may fill it, and
none once it is complete; so a complete entry stays as it is until it is freed,
and whoever is served from it is sent the same bytes.
-/

set_option autoImplicit false

namespace OsLabs.Proxy

open OsLabs.CString OsLabs.Transition

theorem update_eq_some {α β : Type} [DecidableEq α] {f : α → Option β} {at_ key : α}
    {value : Option β} {found : β} (stored : Function.update f at_ value key = some found) :
    (key = at_ ∧ value = some found) ∨ (key ≠ at_ ∧ f key = some found) := by
  by_cases here : key = at_
  · rw [here, Function.update_self] at stored
    exact Or.inl ⟨here, stored⟩
  · rw [Function.update_of_ne here] at stored
    exact Or.inr ⟨here, stored⟩

theorem of_cleared {f : Tid → Option Addr} {tid other : Tid} {entry : Addr}
    (stored : Function.update f tid none other = some entry) : other ≠ tid ∧ f other = some entry := by
  rcases update_eq_some stored with ⟨_, absurd_⟩ | kept
  · cases absurd_
  · exact kept

/-- What others have stays theirs when a thread that had nothing gets a value. -/
theorem kept_elsewhere {f : Tid → Option Addr} {tid other : Tid} {entry : Addr}
    (value : Option Addr) (free : f tid = none) (stored : f other = some entry) :
    Function.update f tid value other = some entry := by
  have different : other ≠ tid := by
    intro same
    rw [same, free] at stored
    cases stored
  rw [Function.update_of_ne different, stored]

/-! ## One writer for every entry -/

structure OneWriter (m : Shared) : Prop where
  fresh : ∀ entry, m.nextId ≤ entry → m.entries entry = none
  held : ∀ tid entry, m.holds tid = some entry → entry < m.nextId
  written : ∀ tid entry, m.writes tid = some entry → entry < m.nextId
  single : ∀ first second entry, m.writes first = some entry → m.writes second = some entry →
    first = second
  incomplete : ∀ tid entry payload, m.writes tid = some entry → m.entries entry = some payload →
    payload.isComplete = false

theorem OneWriter.added {m : Shared} (one : OneWriter m) (tid : Tid) (url : Url) :
    OneWriter (m.after (.added tid url)) where
  fresh entry beyond := by
    have later : m.nextId < entry := beyond
    simp only [Shared.after, Function.update_of_ne later.ne']
    exact one.fresh entry later.le
  held other entry holds := by
    rcases update_eq_some holds with ⟨_, isNew⟩ | ⟨_, before⟩
    · cases isNew
      exact Nat.lt_succ_self _
    · exact Nat.lt_succ_of_lt (one.held other entry before)
  written other entry writes := by
    rcases update_eq_some writes with ⟨_, isNew⟩ | ⟨_, before⟩
    · cases isNew
      exact Nat.lt_succ_self _
    · exact Nat.lt_succ_of_lt (one.written other entry before)
  single first second entry firstWrites secondWrites := by
    -- nobody could write an identity that was not handed out yet
    have old : ∀ other, m.writes other ≠ some m.nextId := fun other writes =>
      Nat.lt_irrefl _ (one.written other _ writes)
    rcases update_eq_some firstWrites with ⟨isFirst, isNew⟩ | ⟨_, firstBefore⟩ <;>
      rcases update_eq_some secondWrites with ⟨isSecond, alsoNew⟩ | ⟨_, secondBefore⟩
    · rw [isFirst, isSecond]
    · cases isNew
      exact absurd secondBefore (old second)
    · cases alsoNew
      exact absurd firstBefore (old first)
    · exact one.single first second entry firstBefore secondBefore
  incomplete other entry payload writes stored := by
    rcases update_eq_some stored with ⟨_, isNew⟩ | ⟨different, before⟩
    · cases isNew
      rfl
    · rcases update_eq_some writes with ⟨_, isNew⟩ | ⟨_, wrote⟩
      · cases isNew
        exact absurd rfl different
      · exact one.incomplete other entry payload wrote before

/-- The thread passes the right to write on to its child. -/
theorem OneWriter.created {m : Shared} (one : OneWriter m) {tid child : Tid} {entry : Addr}
    (writing : m.writes tid = some entry) : OneWriter (m.after (.created tid child entry)) where
  fresh := one.fresh
  held := one.held
  written other addr writes := by
    rcases update_eq_some writes with ⟨_, isEntry⟩ | ⟨_, before⟩
    · cases isEntry
      exact one.written tid entry writing
    · exact one.written other addr (of_cleared before).2
  single first second addr firstWrites secondWrites := by
    have moved : ∀ other, Function.update m.writes tid none other ≠ some entry := by
      intro other writes
      obtain ⟨different, before⟩ := of_cleared writes
      exact different (one.single other tid entry before writing)
    rcases update_eq_some firstWrites with ⟨isFirst, isEntry⟩ | ⟨_, firstBefore⟩ <;>
      rcases update_eq_some secondWrites with ⟨isSecond, alsoEntry⟩ | ⟨_, secondBefore⟩
    · rw [isFirst, isSecond]
    · cases isEntry
      exact absurd secondBefore (moved second)
    · cases alsoEntry
      exact absurd firstBefore (moved first)
    · exact one.single first second addr (of_cleared firstBefore).2 (of_cleared secondBefore).2
  incomplete other addr payload writes stored := by
    rcases update_eq_some writes with ⟨_, isEntry⟩ | ⟨_, before⟩
    · cases isEntry
      exact one.incomplete tid entry payload writing stored
    · exact one.incomplete other addr payload (of_cleared before).2 stored

theorem OneWriter.abandoned {m : Shared} (one : OneWriter m) (tid : Tid) :
    OneWriter (m.after (.abandoned tid)) where
  fresh := one.fresh
  held := one.held
  written other entry writes := one.written other entry (of_cleared writes).2
  single first second entry firstWrites secondWrites :=
    one.single first second entry (of_cleared firstWrites).2 (of_cleared secondWrites).2
  incomplete other entry payload writes := one.incomplete other entry payload (of_cleared writes).2

/-- An entry changes in place, and what is written to it stays incomplete. -/
theorem OneWriter.changed {m : Shared} (one : OneWriter m) {entry : Addr}
    {value : Option Payload} (inPlace : m.entries entry = none → value = none)
    (open_ : ∀ tid payload, m.writes tid = some entry → value = some payload →
      payload.isComplete = false) :
    OneWriter { m with entries := Function.update m.entries entry value } where
  fresh addr beyond := by
    by_cases here : addr = entry
    · simp only [here, Function.update_self]
      exact inPlace (one.fresh entry (here ▸ beyond))
    · simp only [Function.update_of_ne here]
      exact one.fresh addr beyond
  held := one.held
  written := one.written
  single := one.single
  incomplete tid addr payload writes stored := by
    rcases update_eq_some stored with ⟨here, isValue⟩ | ⟨_, before⟩
    · exact open_ tid payload (here ▸ writes) isValue
    · exact one.incomplete tid addr payload writes before

theorem oneWriter_after {m : Shared} {event : Event} (one : OneWriter m)
    (enabled : m.Enabled event) : OneWriter (m.after event) := by
  cases event with
  | quiet => exact one
  | hit tid entry =>
      refine ⟨one.fresh, ?_, one.written, one.single, one.incomplete⟩
      intro other addr holds
      rcases update_eq_some holds with ⟨_, isEntry⟩ | ⟨_, before⟩
      · cases isEntry
        by_contra beyond
        exact enabled.1 (one.fresh entry (Nat.le_of_not_lt beyond))
      · exact one.held other addr before
  | added tid url => exact one.added tid url
  | created tid child entry => exact one.created enabled.1
  | abandoned tid => exact one.abandoned tid
  | deleted tid entry =>
      exact (one.abandoned tid).changed (fun _ => rfl) (by simp)
  | inserted tid entry allocated data =>
      refine one.changed (fun freed => by rw [freed, Option.map_none]) ?_
      intro other payload writes isPayload
      obtain ⟨before, stored, same⟩ := Option.map_eq_some_iff.mp isPayload
      rw [← same]
      exact one.incomplete other entry before writes stored
  | completed tid entry =>
      refine (one.abandoned tid).changed (fun freed => ?_) ?_
      · have unused : m.entries entry = none := freed
        rw [unused, Option.map_none]
      · -- the thread that completes the entry was its only writer
        intro other payload writes _
        obtain ⟨different, before⟩ := of_cleared writes
        exact absurd (one.single other tid entry before enabled) different
  | served tid record =>
      refine ⟨one.fresh, ?_, one.written, one.single, one.incomplete⟩
      intro other entry holds
      exact one.held other entry (of_cleared holds).2

/-- No event changes a complete entry. -/
theorem complete_after {m : Shared} {event : Event} (one : OneWriter m)
    (enabled : m.Enabled event) {entry : Addr} {payload : Payload}
    (stored : m.entries entry = some payload) (complete : payload.isComplete = true) :
    (m.after event).entries entry = some payload := by
  have apart : ∀ tid other, m.writes tid = some other → entry ≠ other := by
    intro tid other writes same
    have open_ := one.incomplete tid entry payload (same ▸ writes) stored
    rw [complete] at open_
    cases open_
  cases event with
  | added tid url =>
      have used : entry ≠ m.nextId := by
        intro same
        rw [same, one.fresh m.nextId le_rfl] at stored
        cases stored
      simpa [Shared.after, Function.update_of_ne used] using stored
  | deleted tid other =>
      have different := apart tid other enabled
      simpa [Shared.after, Function.update_of_ne different] using stored
  | inserted tid other allocated data =>
      have different := apart tid other enabled
      simpa [Shared.after, Function.update_of_ne different] using stored
  | completed tid other =>
      have different := apart tid other enabled
      simpa [Shared.after, Function.update_of_ne different] using stored
  | _ => exact stored

/-- What was sent from an allocated entry is what that entry holds for good. -/
def ServedFinal (m : Shared) : Prop :=
  ∀ record ∈ m.served, record.live = true →
    ∃ payload, m.entries record.entry = some payload ∧ payload.isComplete = true ∧
      record.sent = payload.reply

theorem servedFinal_after {m : Shared} {event : Event} (one : OneWriter m)
    (enabled : m.Enabled event) (final : ServedFinal m) : ServedFinal (m.after event) := by
  intro record member live
  have kept : record ∈ m.served → ∃ payload, (m.after event).entries record.entry = some payload ∧
      payload.isComplete = true ∧ record.sent = payload.reply := by
    intro before
    obtain ⟨payload, stored, complete, sent⟩ := final record before live
    exact ⟨payload, complete_after one enabled stored complete, complete, sent⟩
  cases event with
  | served tid new =>
      rcases List.mem_append.mp member with before | isNew
      · exact kept before
      · rw [List.mem_singleton.mp isNew] at live ⊢
        exact enabled.2.1 live
  | _ => exact kept member

/-! ## In the proxy -/

structure Shares (s : State) : Prop where
  proxied : Proxied s
  one : OneWriter s.shared
  final : ServedFinal s.shared

theorem start_shares : Shares .start where
  proxied := start_proxied
  one := ⟨fun _ _ => rfl, by simp [State.shared, State.start, Thread.holds],
    by simp [State.shared, State.start, Thread.writes, Thread.downloads],
    by simp [State.shared, State.start, Thread.writes, Thread.downloads],
    by simp [State.shared, State.start, Thread.writes, Thread.downloads]⟩
  final := by simp [ServedFinal, State.shared, State.start]

theorem proxyStep_shares (s : State) (action : Action) (next : State) (shares : Shares s)
    (stepped : proxySystem.step s action = some next) : Shares next := by
  obtain ⟨event, happens⟩ := proxyStep_happens shares.proxied stepped
  refine ⟨proxyStep_proxied shares.proxied stepped, ?_, ?_⟩
  · rw [happens.after]
    exact oneWriter_after shares.one happens.enabled
  · rw [happens.after]
    exact servedFinal_after shares.one happens.enabled shares.final

theorem reachable_shares {s : State} (reached : proxySystem.Reachable s) : Shares s :=
  System.Reachable.invariant Shares start_shares proxyStep_shares reached

theorem complete_run {s next : State} {entry : Addr} {payload : Payload} (actions : List Action)
    (shares : Shares s) (stored : s.memory.payload entry = some payload)
    (complete : payload.isComplete = true) (ran : proxySystem.run s actions = some next) :
    next.memory.payload entry = some payload := by
  have kept := System.run_invariant
    (fun state => Shares state ∧ state.memory.payload entry = some payload) ?_
    s next actions ⟨shares, stored⟩ ran
  · exact kept.2
  · rintro state action after ⟨before, held⟩ stepped
    refine ⟨proxyStep_shares state action after before stepped, ?_⟩
    obtain ⟨event, happens⟩ := proxyStep_happens before.proxied stepped
    have still := complete_after before.one happens.enabled held complete
    rw [← happens.after] at still
    exact still

/-- A complete entry stays as it is while it is allocated, nothing is sent from
an allocated entry before it is complete, and all that is sent from one entry
is the same. -/
structure Final (s : State) : Prop where
  stays : ∀ entry e, s.memory.heap entry = some e → e.isComplete = true →
    ∀ later next, proxySystem.run s later = some next →
      ∀ kept, next.memory.heap entry = some kept →
        kept.isComplete = true ∧ kept.data = e.data ∧ kept.downloadedSize = e.downloadedSize
  sendsComplete : ∀ action next, proxySystem.step s action = some next →
    next.served = s.served ∨ ∃ record, next.served = s.served ++ [record] ∧
      (record.live = true → ∃ e, s.memory.heap record.entry = some e ∧ e.isComplete = true ∧
        record.sent = sendIfAny e)
  alike : ∀ first ∈ s.served, ∀ second ∈ s.served, first.live = true → second.live = true →
    first.entry = second.entry → first.sent = second.sent

theorem Shares.stays {s : State} (shares : Shares s) {entry : Addr} {e : CacheEntry}
    (loaded : s.memory.heap entry = some e) (complete : e.isComplete = true)
    (later : List Action) (next : State) (ran : proxySystem.run s later = some next)
    (kept : CacheEntry) (keptLoaded : next.memory.heap entry = some kept) :
    kept.isComplete = true ∧ kept.data = e.data ∧ kept.downloadedSize = e.downloadedSize := by
  have same := complete_run later shares (Cache.payload_of_some loaded) complete ran
  rw [Cache.payload_of_some keptLoaded, Option.some.injEq] at same
  have sameData : kept.data = e.data := congrArg Payload.data same
  have sameFlag : kept.isComplete = e.isComplete := congrArg Payload.isComplete same
  refine ⟨by rw [sameFlag, complete], sameData, ?_⟩
  rw [← kept.filled, ← e.filled, sameData]

theorem Shares.sendsComplete {s next : State} {action : Action} (shares : Shares s)
    (stepped : proxySystem.step s action = some next) :
    next.served = s.served ∨ ∃ record, next.served = s.served ++ [record] ∧
      (record.live = true → ∃ e, s.memory.heap record.entry = some e ∧ e.isComplete = true ∧
        record.sent = sendIfAny e) := by
  obtain ⟨event, happens⟩ := proxyStep_happens shares.proxied stepped
  have served : next.served = (s.shared.after event).served := congrArg Shared.served happens.after
  cases event with
  | served tid record =>
      refine Or.inr ⟨record, served, ?_⟩
      intro live
      obtain ⟨payload, stored, complete, sent⟩ := happens.enabled.2.1 live
      obtain ⟨e, loaded, isPayload⟩ := Option.map_eq_some_iff.mp stored
      subst isPayload
      exact ⟨e, loaded, complete, by rw [sent, sendIfAny_reply]⟩
  | _ => exact Or.inl served

theorem completed_entries_final (actions : List Action) :
    proxySystem.Always Final .start actions := by
  have started : proxySystem.Reachable .start := ⟨[], rfl⟩
  refine System.always_of_reachable ?_ actions started
  intro s reached
  have shares := reachable_shares reached
  refine ⟨fun _ _ => shares.stays, fun _ _ => shares.sendsComplete, ?_⟩
  intro first inFirst second inSecond firstLive secondLive same
  obtain ⟨payload, stored, _, sent⟩ := shares.final first inFirst firstLive
  obtain ⟨other, otherStored, _, otherSent⟩ := shares.final second inSecond secondLive
  rw [same, otherStored, Option.some.injEq] at stored
  rw [sent, otherSent, stored]

/-- Two handlers of one URL, the second one finding the entry of the first, and
the download between them. -/
def twoHandlers : List Action :=
  let sections (tid : Tid) (count : Nat) : List Action :=
    (List.replicate count [Action.lock tid, .body tid ⟨0, true, none⟩]).flatten
  [.accept 0 (snprintfUrl (text "http://a/"))] ++ sections 0 2 ++ [.pthreadCreate 0 (some 1)] ++
    sections 0 1 ++ [.accept 2 (snprintfUrl (text "http://a/"))] ++ sections 2 1 ++
    List.replicate 4 (.advance 1 true (List.replicate bufferSize 0)) ++
    [.recv 1 (some ⟨text "HTTP/1.1 200 OK", by decide, by decide⟩),
      .recv 1 (some ⟨text "body", by decide, by decide⟩)] ++ sections 1 1 ++
    [.recv 1 none] ++ sections 1 1 ++ sections 0 1 ++ sections 2 1

example : (proxySystem.run .start twoHandlers).map State.served =
    some [⟨0, some (text "body"), true⟩, ⟨0, some (text "body"), true⟩] := by
  decide +kernel

end OsLabs.Proxy
