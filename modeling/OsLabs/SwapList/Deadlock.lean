import Mathlib.Data.Fintype.EquivFin
import OsLabs.Lib.Locks
import OsLabs.SwapList.Ownership

/-!
# No deadlock among the walkers

Locks are taken in one order: the nodes from the head of the list on, then the
spinlocks as `print_stat` takes them.
-/

set_option autoImplicit false

namespace OsLabs.SwapList

open OsLabs.Exclusive OsLabs.Locks OsLabs.Transition

variable {n : Nat}

/-- The lock a statement asks for. -/
def Pc.Requests (list : Storage) : Pc → Lock → Prop
  | .lockFirst, .node addr => list.first = some addr
  | .lockCurrent current, .node addr => addr = current
  | .lockNext current, .node addr => list.next current = some addr
  | .counting sync _ .lock, .stat other => other = sync
  | .printLock sync, .stat other => other = sync
  | _, _ => False

/-- Nodes in list order, then the spinlocks. -/
def Inserts.rank (inserts : Inserts) : Lock → Nat
  | .node addr => inserts.addrs.idxOf addr
  | .stat sync => inserts.addrs.length + sync.rank

theorem node_below_stat {inserts : Inserts} {addr : Addr} (sync : Sync)
    (member : addr ∈ inserts.addrs) : inserts.rank (.node addr) < inserts.rank (.stat sync) :=
  Nat.lt_add_right _ (List.idxOf_lt_length_of_mem member)

theorem requests_above {inserts : Inserts} {pc : Pc} {wanted held : Lock}
    (located : pc.At inserts.list inserts.addrs) (requests : pc.Requests inserts.list wanted)
    (holds : pc.Holds inserts.list held) : inserts.rank held < inserts.rank wanted := by
  cases pc with
  | lockFirst | lockCurrent => cases held <;> cases holds
  | lockNext current =>
      cases held with
      | stat sync => cases holds
      | node addr =>
          cases wanted with
          | stat sync => cases requests
          | node after =>
              have isCurrent : addr = current := holds
              rw [isCurrent]
              exact inserts.next_idxOf located.1 requests
  | counting sync inside stage =>
      cases wanted with
      | node addr => cases stage <;> cases requests
      | stat other =>
          cases held with
          | stat own =>
              cases stage with
              | lock => exact absurd rfl holds.2
              | load | store | unlock => cases requests
          | node addr =>
              refine node_below_stat other ?_
              cases inside with
              | none => cases holds
              | some current =>
                  rcases holds with isCurrent | linked
                  · rw [isCurrent]
                    exact located.1
                  · exact inserts.next_mem located.1 linked
  | printLock sync =>
      cases wanted with
      | node addr => cases requests
      | stat other =>
          cases held with
          | node addr => cases holds
          | stat own =>
              have isSync : other = sync := requests
              have below : own.rank < sync.rank := holds
              rw [isSync]
              exact Nat.add_lt_add_left below _
  | _ => cases wanted <;> cases requests

/-- The threads that wait form no cycle, and no set of threads waits within
itself. -/
structure Unblocked (s : State n) : Prop where
  acyclic : DeadlockFree s.owner fun thread => (s.pc thread).Requests s.list
  noSet : ∀ threads : Set (Fin n), threads.Nonempty → ¬ ∀ thread ∈ threads, ∃ other ∈ threads,
    WaitsFor s.owner (fun thread => (s.pc thread).Requests s.list) thread other

theorem requests_links {before list : Storage} (same : SameLinks before list) (pc : Pc)
    (lock : Lock) : pc.Requests list lock ↔ pc.Requests before lock := by
  unfold Pc.Requests
  rw [same.first, same.next]

theorem Owned.unblocked {inserts : Inserts} {s : State n} (owned : Owned inserts s) :
    Unblocked s := by
  have acyclic : DeadlockFree s.owner fun thread => (s.pc thread).Requests s.list := by
    apply deadlockFree_of_rank _ _ inserts.rank
    intro thread wanted held requests isOwner
    rw [requests_links owned.links] at requests
    exact requests_above (owned.located thread) requests ((owned.owners held thread).mp isOwner)
  refine ⟨acyclic, ?_⟩
  intro threads nonempty waiting
  obtain ⟨thread, member, waitsForNobody⟩ := acyclic.no_set threads nonempty
  obtain ⟨other, inSet, waits⟩ := waiting thread member
  exact waitsForNobody other inSet waits

/-- Every state of every run, for any list and any threads. -/
theorem walkers_unblocked (inserts : Inserts) (routine : Fin n → Routine)
    (actions : List (Action n)) :
    (walkers inserts routine).Always Unblocked (State.start inserts routine) actions :=
  System.always_of_invariant (Owned inserts) (start_owned inserts routine)
    (fun _ _ _ owned stepped => owned_step owned (step_move stepped))
    (fun _ owned => owned.unblocked) actions

end OsLabs.SwapList
