import Mathlib.Data.Set.Finite.Basic
import OsLabs.Proxy.Waiting

/-!
# Entries in use

Where a download is under way, its entry is allocated and keeps the URL that
`addNewEntry` gave it, and a handler that waits for it keeps it in hand; all but
finitely many threads are not born yet.
-/

set_option autoImplicit false

namespace OsLabs.Proxy

open OsLabs.CString OsLabs.Transition

/-! ## What a thread writes to is allocated -/

def Backed (m : Shared) : Prop :=
  ∀ tid entry, m.writes tid = some entry → m.entries entry ≠ none

theorem backed_after {m : Shared} {event : Event} (backed : Backed m) (one : OneWriter m)
    (enabled : m.Enabled event) : Backed (m.after event) := by
  intro tid entry writes
  cases event with
  | added actor url =>
      rcases update_eq_some writes with ⟨_, isNew⟩ | ⟨_, before⟩
      · cases isNew
        exact added_alive m actor url
      · exact alive_after (by simp) (backed tid entry before)
  | created actor child other =>
      rcases update_eq_some writes with ⟨_, isEntry⟩ | ⟨_, before⟩
      · cases isEntry
        exact backed actor _ enabled.1
      · exact backed tid entry (of_cleared before).2
  | abandoned actor => exact backed tid entry (of_cleared writes).2
  | deleted actor other =>
      -- the only thread that wrote to the freed entry has freed it
      obtain ⟨different, before⟩ := of_cleared writes
      have apart : entry ≠ other := by
        intro same
        exact different (one.single tid actor other (same ▸ before) enabled)
      simpa [Shared.after, Function.update_of_ne apart] using backed tid entry before
  | completed actor other => exact alive_after (by simp) (backed tid entry (of_cleared writes).2)
  | _ => exact alive_after (by simp) (backed tid entry writes)

/-- A handler leaves an allocated entry only when it is complete. -/
theorem holds_after {m : Shared} {event : Event} {tid : Tid} {entry : Addr} {payload : Payload}
    (enabled : m.Enabled event) (holds : m.holds tid = some entry)
    (stored : m.entries entry = some payload) (incomplete : payload.isComplete = false) :
    (m.after event).holds tid = some entry := by
  cases event with
  | hit actor other => exact kept_elsewhere _ enabled.2 holds
  | added actor url => exact kept_elsewhere _ enabled.2.1 holds
  | served actor record =>
      obtain ⟨held, live, freed⟩ := enabled
      have different : tid ≠ actor := by
        intro same
        have isEntry : entry = record.entry := by
          rw [same, held, Option.some.injEq] at holds
          exact holds.symm
        subst isEntry
        cases isLive : record.live with
        | true =>
            obtain ⟨other, alsoStored, complete, _⟩ := live isLive
            rw [stored, Option.some.injEq] at alsoStored
            rw [← alsoStored, incomplete] at complete
            cases complete
        | false =>
            rw [freed isLive] at stored
            cases stored
      simpa [Shared.after, Function.update_of_ne different] using holds
  | _ => exact holds

/-- An entry keeps the URL that `addNewEntry` gave it. -/
theorem url_origin {m : Shared} {event : Event} {entry : Addr} {later : Payload}
    (stored : (m.after event).entries entry = some later) :
    (∃ payload, m.entries entry = some payload ∧ later.url = payload.url) ∨
      (entry = m.nextId ∧ ∃ tid, event = .added tid later.url) := by
  cases event with
  | added tid url =>
      rcases update_eq_some stored with ⟨isNew, isPayload⟩ | ⟨_, before⟩
      · cases isPayload
        exact Or.inr ⟨isNew, tid, rfl⟩
      · exact Or.inl ⟨later, before, rfl⟩
  | deleted tid other =>
      rcases update_eq_some stored with ⟨_, freed⟩ | ⟨_, before⟩
      · cases freed
      · exact Or.inl ⟨later, before, rfl⟩
  | inserted tid other allocated data =>
      rcases update_eq_some stored with ⟨here, changed⟩ | ⟨_, before⟩
      · obtain ⟨payload, was, isPayload⟩ := Option.map_eq_some_iff.mp changed
        exact Or.inl ⟨payload, here ▸ was, by rw [← isPayload]; rfl⟩
      · exact Or.inl ⟨later, before, rfl⟩
  | completed tid other =>
      rcases update_eq_some stored with ⟨here, changed⟩ | ⟨_, before⟩
      · obtain ⟨payload, was, isPayload⟩ := Option.map_eq_some_iff.mp changed
        exact Or.inl ⟨payload, here ▸ was, by rw [← isPayload]; rfl⟩
      · exact Or.inl ⟨later, before, rfl⟩
  | _ => exact Or.inl ⟨later, stored, rfl⟩

/-! ## Some thread is not born yet -/

/-- A step gives birth to its own thread and to one child at most. -/
theorem born_before {s next : State} {action : Action} (move : Move s action next) :
    ∃ child, ∀ other, next.thread other ≠ .unborn →
      other = action.actor ∨ other = child ∨ s.thread other ≠ .unborn := by
  have moved : ∀ (t : State) (tid : Tid) (thread : Thread) (other : Tid),
      (t.setThread tid thread).thread other ≠ .unborn →
        other = tid ∨ t.thread other ≠ .unborn := by
    intro t tid thread other born
    by_cases here : other = tid
    · exact Or.inl here
    · exact Or.inr (by simpa [State.setThread, Function.update_of_ne here] using born)
  have own : ∀ (t : State) (tid : Tid) (thread : Thread),
      (∀ other, t.thread other = s.thread other) →
      ∃ child, ∀ other, (t.setThread tid thread).thread other ≠ .unborn →
        other = tid ∨ other = child ∨ s.thread other ≠ .unborn := by
    intro t tid thread same
    refine ⟨tid, fun other born => ?_⟩
    rcases moved t tid thread other born with isTid | before
    · exact Or.inl isTid
    · exact Or.inr (Or.inr (by rwa [← same other]))
  cases move with
  | accept born => exact own s _ _ fun _ => rfl
  | call free => exact own s _ _ fun _ => rfl
  | @lock tid caller op waiting free => exact own s tid (.inside caller op) fun _ => rfl
  | @nestedLock tid caller url waiting free =>
      exact own s tid (.evictInside caller url) fun _ => rfl
  | @returns tid choices caller op effect result here ran outcome =>
      refine ⟨tid, fun other born => ?_⟩
      rcases moved _ tid _ other born with isTid | before
      · exact Or.inl isTid
      · refine Or.inr (Or.inr fun unborn => before ?_)
        simp [State.unlock, State.apply, unborn, Thread.broadcast]
  | evicts here full => exact own s _ _ fun _ => rfl
  | @waits tid choices caller entry here incomplete =>
      exact own (s.unlock (.entryMutex entry)) tid _ fun _ => rfl
  | @nestedBody tid choices caller url after here ran =>
      exact own ({ s with memory := after }.unlock .cacheMutex) tid _ fun _ => rfl
  | createFailed here => exact own s _ _ fun _ => rfl
  | @created tid new entry here born =>
      refine ⟨new, fun other later => ?_⟩
      rcases moved _ new _ other later with isNew | between
      · exact Or.inr (Or.inl isNew)
      · rcases moved s tid _ other between with isTid | before
        · exact Or.inl isTid
        · exact Or.inr (Or.inr before)
  | advance here => exact own s _ _ fun _ => rfl
  | recv here => exact own s _ _ fun _ => rfl
  | wake here => exact own s _ _ fun _ => rfl

structure Grounded (s : State) : Prop where
  shares : Shares s
  backed : Backed s.shared
  born : {tid | s.thread tid ≠ .unborn}.Finite

theorem start_grounded : Grounded .start where
  shares := start_shares
  backed := by simp [Backed, State.shared, State.start, Thread.writes, Thread.downloads]
  born := by simp [State.start]

theorem proxyStep_grounded (s : State) (action : Action) (next : State) (grounded : Grounded s)
    (stepped : proxySystem.step s action = some next) : Grounded next where
  shares := proxyStep_shares s action next grounded.shares stepped
  backed := by
    obtain ⟨event, happens⟩ := proxyStep_happens grounded.shares.proxied stepped
    rw [happens.after]
    exact backed_after grounded.backed grounded.shares.one happens.enabled
  born := by
    obtain ⟨child, before⟩ := born_before (threadStep_move (proxyStep_cases stepped).1)
    refine ((grounded.born.insert child).insert action.actor).subset fun other born => ?_
    simpa using before other born

theorem reachable_grounded {s : State} (reached : proxySystem.Reachable s) : Grounded s :=
  System.Reachable.invariant Grounded start_grounded proxyStep_grounded reached

end OsLabs.Proxy
