import OsLabs.Proxy.Lifetime

/-!
# Who waits for whom

A handler that sleeps on an entry is woken by the completion mark of the
entry's download.  `downloadData` returns without it when `parseURL`,
`gethostbyname`, `socket` or `connect` fails, and it is never started when
`pthread_create` fails; where none of them fails, every entry is complete or
its download is on its way.
-/

set_option autoImplicit false

namespace OsLabs.Proxy

open OsLabs.CString OsLabs.Transition

/-- The handler waits on `entry->cond` of an entry that is not complete and
whose download neither runs nor is about to be started. -/
def Stuck (s : State) (tid : Tid) (entry : Addr) : Prop :=
  s.thread tid = .sleeping entry ∧
    (∀ e, s.memory.heap entry = some e → e.isComplete = false) ∧
    ∀ other, (s.thread other).writes ≠ some entry

def NobodyStuck (s : State) : Prop := ∀ tid entry, ¬ Stuck s tid entry

/-- The step is not a failure of `pthread_create`, `parseURL`, `gethostbyname`,
`socket` or `connect`. -/
def Succeeds (_ : State) (action : Action) : Prop :=
  (∀ tid, action ≠ .pthreadCreate tid none) ∧
    ∀ tid headerBuffer, action ≠ .advance tid false headerBuffer

/-! ## Every entry is complete or on its way -/

def Covered (m : Shared) : Prop :=
  ∀ entry payload, m.entries entry = some payload →
    payload.isComplete = true ∨ ∃ tid, m.writes tid = some entry

theorem covered_after {m : Shared} {event : Event} (covered : Covered m)
    (enabled : m.Enabled event) (keeps : ∀ tid entry, event ≠ .deleted tid entry)
    (goesOn : ∀ tid, event ≠ .abandoned tid) : Covered (m.after event) := by
  intro entry payload stored
  cases event with
  | added tid url =>
      by_cases isNew : entry = m.nextId
      · exact Or.inr ⟨tid, by simp [Shared.after, isNew]⟩
      · rcases update_eq_some stored with ⟨same, _⟩ | ⟨_, before⟩
        · exact absurd same isNew
        · rcases covered entry payload before with complete | ⟨writer, writes⟩
          · exact Or.inl complete
          · exact Or.inr ⟨writer, kept_elsewhere _ enabled.2.2 writes⟩
  | created tid child other =>
      rcases covered entry payload stored with complete | ⟨writer, writes⟩
      · exact Or.inl complete
      · right
        by_cases isTid : writer = tid
        · -- the right to write has passed to the child
          rw [isTid, enabled.1] at writes
          exact ⟨child, by simpa [Shared.after] using writes⟩
        · have different : child ≠ tid := by
            intro same
            have writing : m.writes tid = some other := enabled.1
            rw [← same, enabled.2] at writing
            cases writing
          refine ⟨writer, kept_elsewhere _ ?_ ?_⟩
          · rw [Function.update_of_ne different, enabled.2]
          · rw [Function.update_of_ne isTid, writes]
  | abandoned tid => exact absurd rfl (goesOn tid)
  | deleted tid other => exact absurd rfl (keeps tid other)
  | inserted tid other allocated data =>
      rcases update_eq_some stored with ⟨here, changed⟩ | ⟨_, before⟩
      · exact Or.inr ⟨tid, by rw [here]; exact enabled⟩
      · exact covered entry payload before
  | completed tid other =>
      rcases update_eq_some stored with ⟨_, changed⟩ | ⟨different, before⟩
      · obtain ⟨old, _, isComplete⟩ := Option.map_eq_some_iff.mp changed
        exact Or.inl (by rw [← isComplete]; rfl)
      · rcases covered entry payload before with complete | ⟨writer, writes⟩
        · exact Or.inl complete
        · right
          by_cases isTid : writer = tid
          · have writing : m.writes tid = some other := enabled
            rw [isTid, writing, Option.some.injEq] at writes
            exact absurd writes.symm different
          · exact ⟨writer, by simpa [Shared.after, Function.update_of_ne isTid] using writes⟩
  | _ => exact covered entry payload stored

/-! ## In the proxy -/

def Thread.deletes : Thread → Prop
  | .locking _ (.deleteEntry _) | .inside _ (.deleteEntry _) => True
  | _ => False

theorem downloadNext_deletes (entry : Addr) (pending : List (List Byte))
    (loop : Option LoopState) : ¬ (downloadNext entry pending loop).deletes :=
  downloadNext_elim (P := fun thread => ¬ thread.deletes) (fun _ _ _ => id) (fun _ => id) id
    pending loop

theorem resume_deletes (caller : Caller) (op : Op) (result : Option Addr) :
    ¬ (resume caller op result).deletes := by
  unfold resume
  split <;> first | exact id | exact downloadNext_deletes _ _ _

/-- Only a failed `parseURL` leads to `deleteEntry`. -/
theorem proxyStep_deletes {s next : State} {action : Action} (proxied : Proxied s)
    (nobody : ∀ tid, ¬ (s.thread tid).deletes) (succeeds : Succeeds s action)
    (stepped : proxySystem.step s action = some next) : ∀ tid, ¬ (next.thread tid).deletes := by
  obtain ⟨stepped, noCall⟩ := proxyStep_cases stepped
  have move : ∀ tid thread, ¬ thread.deletes →
      ∀ other, ¬ ((s.setThread tid thread).thread other).deletes :=
    fun tid thread => setThread_all (P := fun thread => ¬ thread.deletes) nobody tid
  cases threadStep_move stepped with
  | accept born => exact move _ _ id
  | call free => cases noCall
  | @lock tid caller op waiting free =>
      have not := nobody tid
      rw [waiting] at not
      exact move tid (.inside caller op) (by cases op <;> exact not)
  | nestedLock waiting free => exact move _ (.evictInside _ _) id
  | returns here ran outcome =>
      exact returns_all (P := fun thread => ¬ thread.deletes)
        (fun other _ => broadcast_elim (P := fun thread => ¬ thread.deletes) _ (nobody other)
          fun _ _ => id)
        (resume_deletes _ _ _)
  | evicts here full => exact move _ _ id
  | waits here incomplete => exact move _ (.sleeping _) id
  | nestedBody here ran => exact absurd here (proxied.sound.noNested _ _ _)
  | createFailed here => exact absurd rfl (succeeds.1 _)
  | created here born =>
      exact setThread_all (P := fun thread => ¬ thread.deletes) (move _ _ id) _ id
  | @advance tid entry stage ok headerBuffer here =>
      cases ok with
      | false => exact absurd rfl (succeeds.2 tid headerBuffer)
      | true => exact move tid _ (by cases stage <;> exact id)
  | recv here =>
      exact move _ _
        (receive_elim (P := fun thread => ¬ thread.deletes) (downloadNext_deletes _) _ _)
  | wake here => exact move _ _ id

structure OnTheWay (s : State) : Prop where
  kept : Kept s
  covered : Covered s.shared
  nobodyDeletes : ∀ tid, ¬ (s.thread tid).deletes

theorem start_onTheWay : OnTheWay .start :=
  ⟨start_kept, by simp [Covered, State.shared, State.start, Cache.payload, Cache.empty],
    fun _ => id⟩

theorem proxyStep_onTheWay {s next : State} {action : Action} (onTheWay : OnTheWay s)
    (succeeds : Succeeds s action) (stepped : proxySystem.step s action = some next) :
    OnTheWay next := by
  have proxied := onTheWay.kept.shares.proxied
  obtain ⟨event, happens⟩ := proxyStep_happens proxied stepped
  have keeps : ∀ tid entry, event ≠ .deleted tid entry := by
    apply not_deleted happens
    intro tid choices caller entry _ here
    have not := onTheWay.nobodyDeletes tid
    rw [here] at not
    exact not trivial
  have goesOn : ∀ tid, event ≠ .abandoned tid := by
    intro tid isAbandoned
    subst isAbandoned
    rcases happens.cause with isCreate | ⟨headerBuffer, isAdvance⟩
    · exact succeeds.1 tid isCreate
    · exact succeeds.2 tid headerBuffer isAdvance
  refine ⟨onTheWay.kept.step stepped happens keeps, ?_,
    proxyStep_deletes proxied onTheWay.nobodyDeletes succeeds stepped⟩
  rw [happens.after]
  exact covered_after onTheWay.covered happens.enabled keeps goesOn

theorem OnTheWay.nobodyStuck {s : State} (onTheWay : OnTheWay s) : NobodyStuck s := by
  rintro tid entry ⟨asleep, incomplete, unwritten⟩
  have holding : s.shared.holds tid = some entry := by
    simp only [State.shared, asleep]
    rfl
  obtain ⟨payload, stored⟩ :=
    Option.ne_none_iff_exists'.mp (onTheWay.kept.attended.held tid entry holding)
  rcases onTheWay.covered entry payload stored with complete | ⟨writer, writes⟩
  · obtain ⟨e, loaded, isPayload⟩ := Option.map_eq_some_iff.mp stored
    have notComplete := incomplete e loaded
    rw [← isPayload] at complete
    rw [show e.isComplete = true from complete] at notComplete
    cases notComplete
  · exact unwritten writer writes

/-- In a run without failures nobody ever waits on a download that nobody runs,
whatever the sequence of `recv` results and the order of the steps. -/
theorem nobody_stuck_of_success (actions : List Action)
    (succeeds : proxySystem.Meets Succeeds .start actions) :
    proxySystem.Always NobodyStuck .start actions :=
  (System.always_of_meets Succeeds OnTheWay
    (fun _ _ _ onTheWay succeeds stepped => proxyStep_onTheWay onTheWay succeeds stepped)
    .start actions start_onTheWay succeeds).mono fun _ onTheWay => onTheWay.nobodyStuck

/-- A request and its download, up to the handler's return. -/
def wholeRequest : List Action :=
  [.accept 0 (snprintfUrl (text "http://a/")), .lock 0, .body 0 ⟨0, true, none⟩,
    .lock 0, .body 0 ⟨0, true, none⟩, .pthreadCreate 0 (some 1), .lock 0,
    .body 0 ⟨0, true, none⟩, .advance 1 true [], .advance 1 true [], .advance 1 true [],
    .advance 1 true [], .recv 1 none, .lock 1, .body 1 ⟨0, true, none⟩, .lock 0,
    .body 0 ⟨0, true, none⟩]

theorem nobody_stuck_in_whole_request :
    (proxySystem.run .start wholeRequest).isSome = true ∧
      proxySystem.Always NobodyStuck .start wholeRequest :=
  ⟨by decide, nobody_stuck_of_success wholeRequest
    (System.meets_of_actions Succeeds _ _ (by simp [wholeRequest, Succeeds]))⟩

/-- One request whose host does not resolve. -/
def unresolvedHost : List Action :=
  [.accept 0 (snprintfUrl (text "http://nowhere/")), .lock 0, .body 0 ⟨0, true, none⟩,
    .lock 0, .body 0 ⟨0, true, none⟩, .pthreadCreate 0 (some 1), .advance 1 true [],
    .advance 1 false [], .lock 0, .body 0 ⟨0, true, none⟩]

theorem handler_stuck_on_unresolved_host :
    ¬ proxySystem.Always NobodyStuck .start unresolvedHost := by
  intro always
  have nobody := always.along unresolvedHost [] rfl
  refine nobody 0 0 ⟨rfl, ?_, ?_⟩
  · rintro e loaded
    cases loaded
    rfl
  · intro other
    rcases other with _ | _ | other <;> exact nofun

end OsLabs.Proxy
