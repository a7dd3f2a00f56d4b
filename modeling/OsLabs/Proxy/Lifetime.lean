import OsLabs.Proxy.Completion

/-!
# The lifetime of an entry

`deleteEntry`, called by a downloader whose URL does not parse, is the only
call of the proxy that gets as far as freeing an entry; the handler that
created the entry is still waiting on it then.
-/

set_option autoImplicit false

namespace OsLabs.Proxy

open OsLabs.CString OsLabs.Transition

/-- No handler holds, and no download will still use, an entry that was freed. -/
def UsersOutlived (s : State) : Prop :=
  ∀ tid entry, (s.thread tid).holds = some entry ∨ (s.thread tid).downloads = some entry →
    s.memory.heap entry ≠ none

/-- The step is not the critical section of `deleteEntry`. -/
def DeletesNothing (s : State) (action : Action) : Prop :=
  ∀ tid choices caller entry, action = .body tid choices →
    s.thread tid ≠ .inside caller (.deleteEntry entry)

/-! ## Entries in use stay allocated -/

structure Attended (m : Shared) : Prop where
  held : ∀ tid entry, m.holds tid = some entry → m.entries entry ≠ none
  written : ∀ tid entry, m.writes tid = some entry → m.entries entry ≠ none
  waited : ∀ tid entry, m.writes tid = some entry → ∃ handler, m.holds handler = some entry

theorem alive_after {m : Shared} {event : Event} {entry : Addr}
    (keeps : ∀ tid other, event ≠ .deleted tid other) (alive : m.entries entry ≠ none) :
    (m.after event).entries entry ≠ none := by
  have inPlace : ∀ other (change : Payload → Payload),
      Function.update m.entries other ((m.entries other).map change) entry ≠ none := by
    intro other change
    by_cases here : entry = other
    · simpa [← here] using alive
    · simpa [Function.update_of_ne here] using alive
  cases event with
  | added tid url =>
      by_cases here : entry = m.nextId
      · simp [Shared.after, here]
      · simpa [Shared.after, Function.update_of_ne here] using alive
  | deleted tid other => exact absurd rfl (keeps tid other)
  | inserted tid other allocated data => exact inPlace other _
  | completed tid other => exact inPlace other _
  | _ => exact alive

theorem added_alive (m : Shared) (tid : Tid) (url : Url) :
    (m.after (.added tid url)).entries m.nextId ≠ none := by
  simp [Shared.after]

theorem Attended.held_after {m : Shared} {event : Event} (attended : Attended m)
    (enabled : m.Enabled event) (keeps : ∀ tid other, event ≠ .deleted tid other) (tid : Tid)
    (entry : Addr) (holds : (m.after event).holds tid = some entry) :
    (m.after event).entries entry ≠ none := by
  cases event with
  | hit actor other =>
      rcases update_eq_some holds with ⟨_, isEntry⟩ | ⟨_, before⟩
      · cases isEntry
        exact enabled.1
      · exact attended.held tid entry before
  | added actor url =>
      rcases update_eq_some holds with ⟨_, isNew⟩ | ⟨_, before⟩
      · cases isNew
        exact added_alive m actor url
      · exact alive_after keeps (attended.held tid entry before)
  | served actor record => exact attended.held tid entry (of_cleared holds).2
  | _ => exact alive_after keeps (attended.held tid entry holds)

theorem Attended.written_after {m : Shared} {event : Event} (attended : Attended m)
    (enabled : m.Enabled event) (keeps : ∀ tid other, event ≠ .deleted tid other) (tid : Tid)
    (entry : Addr) (writes : (m.after event).writes tid = some entry) :
    (m.after event).entries entry ≠ none := by
  cases event with
  | added actor url =>
      rcases update_eq_some writes with ⟨_, isNew⟩ | ⟨_, before⟩
      · cases isNew
        exact added_alive m actor url
      · exact alive_after keeps (attended.written tid entry before)
  | created actor child other =>
      rcases update_eq_some writes with ⟨_, isEntry⟩ | ⟨_, before⟩
      · cases isEntry
        exact attended.written actor _ enabled.1
      · exact attended.written tid entry (of_cleared before).2
  | abandoned actor => exact attended.written tid entry (of_cleared writes).2
  | deleted actor other => exact absurd rfl (keeps actor other)
  | completed actor other =>
      exact alive_after keeps (attended.written tid entry (of_cleared writes).2)
  | _ => exact alive_after keeps (attended.written tid entry writes)

/-- A handler leaves an entry only when nobody writes it any more. -/
theorem Attended.unwritten_when_served {m : Shared} (attended : Attended m) (one : OneWriter m)
    {actor : Tid} {record : Served} (enabled : m.Enabled (.served actor record)) (tid : Tid) :
    m.writes tid ≠ some record.entry := by
  intro writes
  obtain ⟨_, live, freed⟩ := enabled
  cases isLive : record.live with
  | true =>
      obtain ⟨payload, stored, complete, _⟩ := live isLive
      have open_ := one.incomplete tid record.entry payload writes stored
      rw [complete] at open_
      cases open_
  | false => exact attended.written tid record.entry writes (freed isLive)

theorem Attended.waited_after {m : Shared} {event : Event} (attended : Attended m)
    (one : OneWriter m) (enabled : m.Enabled event) (tid : Tid) (entry : Addr)
    (writes : (m.after event).writes tid = some entry) :
    ∃ handler, (m.after event).holds handler = some entry := by
  cases event with
  | hit actor other =>
      obtain ⟨handler, holds⟩ := attended.waited tid entry writes
      exact ⟨handler, kept_elsewhere _ enabled.2 holds⟩
  | added actor url =>
      rcases update_eq_some writes with ⟨_, isNew⟩ | ⟨_, before⟩
      · cases isNew
        exact ⟨actor, by simp [Shared.after]⟩
      · obtain ⟨handler, holds⟩ := attended.waited tid entry before
        exact ⟨handler, kept_elsewhere _ enabled.2.1 holds⟩
  | created actor child other =>
      rcases update_eq_some writes with ⟨_, isEntry⟩ | ⟨_, before⟩
      · cases isEntry
        exact attended.waited actor _ enabled.1
      · exact attended.waited tid entry (of_cleared before).2
  | served actor record =>
      obtain ⟨handler, holds⟩ := attended.waited tid entry writes
      have different : handler ≠ actor := by
        intro same
        rw [same, enabled.1, Option.some.injEq] at holds
        exact attended.unwritten_when_served one enabled tid (by rw [holds]; exact writes)
      exact ⟨handler, by simpa [Shared.after, Function.update_of_ne different] using holds⟩
  | abandoned actor => exact attended.waited tid entry (of_cleared writes).2
  | deleted actor other => exact attended.waited tid entry (of_cleared writes).2
  | completed actor other => exact attended.waited tid entry (of_cleared writes).2
  | _ => exact attended.waited tid entry writes

theorem attended_after {m : Shared} {event : Event} (attended : Attended m) (one : OneWriter m)
    (enabled : m.Enabled event) (keeps : ∀ tid other, event ≠ .deleted tid other) :
    Attended (m.after event) where
  held := attended.held_after enabled keeps
  written := attended.written_after enabled keeps
  waited := attended.waited_after one enabled

/-! ## In the proxy -/

structure Kept (s : State) : Prop where
  shares : Shares s
  attended : Attended s.shared

theorem start_kept : Kept .start where
  shares := start_shares
  attended := ⟨by simp [State.shared, State.start, Thread.holds],
    by simp [State.shared, State.start, Thread.writes, Thread.downloads],
    by simp [State.shared, State.start, Thread.writes, Thread.downloads]⟩

theorem Kept.step {s next : State} {action : Action} {event : Event} (kept : Kept s)
    (stepped : proxySystem.step s action = some next) (happens : Happens s action next event)
    (keeps : ∀ tid other, event ≠ .deleted tid other) : Kept next where
  shares := proxyStep_shares s action next kept.shares stepped
  attended := by
    rw [happens.after]
    exact attended_after kept.attended kept.shares.one happens.enabled keeps

theorem Kept.outlived {s : State} (kept : Kept s) : UsersOutlived s := by
  rintro tid entry (holds | downloads)
  · exact mt (Cache.payload_eq_none_iff s.memory entry).mpr (kept.attended.held tid entry holds)
  · exact mt (Cache.payload_eq_none_iff s.memory entry).mpr
      (kept.attended.written tid entry (downloads_writes downloads))

theorem not_deleted {s next : State} {action : Action} {event : Event}
    (happens : Happens s action next event) (keeps : DeletesNothing s action) :
    ∀ tid other, event ≠ .deleted tid other := by
  intro tid other isDeleted
  subst isDeleted
  obtain ⟨choices, caller, isBody, here⟩ := happens.cause
  exact keeps tid choices caller other isBody here

/-- Whoever deletes an entry takes it from the handler that waits for it. -/
theorem deletesNothing_of_outlived {s next : State} {action : Action} (kept : Kept s)
    (stepped : proxySystem.step s action = some next) (outlived : UsersOutlived next) :
    DeletesNothing s action := by
  intro tid choices caller entry isBody here
  subst isBody
  have runs := kept.shares.proxied.runs here
  have writing : (s.thread tid).writes = some entry := by
    rw [here]
    cases caller with
    | downloader pending loop => rfl
    | _ => exact runs.elim
  obtain ⟨handler, holds⟩ := kept.attended.waited tid entry writing
  obtain ⟨stepped, _⟩ := proxyStep_cases stepped
  obtain ⟨after, ran, _, gone⟩ :=
    deleteEntry_effect choices s.nextId kept.shares.proxied.sound.cache entry
  simp only [threadStep, State.stepBody, here, ran, State.finish, Option.some.injEq] at stepped
  subst next
  have different : handler ≠ tid := by
    intro same
    have holding : (s.thread tid).holds = some entry := same ▸ holds
    rw [here] at holding
    cases holding
  apply outlived handler entry
  · left
    simp only [State.setThread, Function.update_of_ne different, State.unlock, State.apply,
      broadcast_holds]
    exact holds
  · rw [← Cache.payload_eq_none_iff]
    show after.payload entry = none
    rw [gone, Function.update_self]

/-- All along a run every entry in use is allocated, exactly when no step of the
run deletes an entry. -/
theorem users_outlived_iff (actions : List Action) :
    proxySystem.Always UsersOutlived .start actions ↔
      proxySystem.Meets DeletesNothing .start actions := by
  refine System.always_iff_meets DeletesNothing Kept UsersOutlived (fun _ kept => kept.outlived)
    ?_ (fun _ _ _ kept => deletesNothing_of_outlived kept) .start actions start_kept
  intro s action next kept keeps stepped
  obtain ⟨event, happens⟩ := proxyStep_happens kept.shares.proxied stepped
  exact kept.step stepped happens (not_deleted happens keeps)

/-- A handler, and its downloader up to `deleteEntry` for a URL that does not
begin with http. -/
def unparsableUrl : List Action :=
  [.accept 0 (snprintfUrl (text "ftp://example.com/")), .lock 0, .body 0 ⟨0, true, none⟩,
    .lock 0, .body 0 ⟨0, true, none⟩, .pthreadCreate 0 (some 1), .advance 1 false [],
    .lock 1, .body 1 ⟨0, true, none⟩]

theorem handler_outlives_entry : ¬ proxySystem.Always UsersOutlived .start unparsableUrl := by
  intro always
  have outlived := always.along unparsableUrl [] rfl
  exact outlived 0 0 (Or.inl rfl) rfl

end OsLabs.Proxy
