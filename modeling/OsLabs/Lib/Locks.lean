import Mathlib.Data.Fintype.Card
import Mathlib.Logic.Relation
import Mathlib.Order.WellFounded

/-!
# Lock requests and the waits-for relation

Threads own locks and request locks.  A set of threads is deadlocked when they
wait for one another in a cycle; a thread that requests a lock it owns is the
shortest such cycle.  Requesting locks in increasing rank excludes all cycles.
-/

set_option autoImplicit false

namespace OsLabs.Locks

universe u v w

variable {Thread : Type u} {Lock : Type v}

def WaitsFor (owner : Lock → Option Thread) (requests : Thread → Lock → Prop)
    (waiting holding : Thread) : Prop :=
  ∃ lock, requests waiting lock ∧ owner lock = some holding

def DeadlockFree (owner : Lock → Option Thread)
    (requests : Thread → Lock → Prop) : Prop :=
  ∀ thread, ¬ Relation.TransGen (WaitsFor owner requests) thread thread

section Rank

variable {Rank : Type w} [Preorder Rank]

/-- Along a chain of waiting threads the ranks of the locks waited for rise. -/
theorem waits_rank_le (owner : Lock → Option Thread)
    (requests : Thread → Lock → Prop) (rank : Lock → Rank)
    (ordered : ∀ thread wanted held, requests thread wanted →
      owner held = some thread → rank held < rank wanted)
    (first last : Thread)
    (chain : Relation.TransGen (WaitsFor owner requests) first last) :
    ∃ wanted held, requests first wanted ∧ owner held = some last ∧
      rank wanted ≤ rank held := by
  induction chain with
  | single edge =>
      obtain ⟨lock, requested, owned⟩ := edge
      exact ⟨lock, lock, requested, owned, le_refl _⟩
  | tail _ edge ih =>
      obtain ⟨wanted, held, requested, owned, below⟩ := ih
      obtain ⟨lock, nextRequested, nextOwned⟩ := edge
      have higher := ordered _ lock held nextRequested owned
      exact ⟨wanted, lock, requested, nextOwned, below.trans higher.le⟩

theorem deadlockFree_of_rank (owner : Lock → Option Thread)
    (requests : Thread → Lock → Prop) (rank : Lock → Rank)
    (ordered : ∀ thread wanted held, requests thread wanted →
      owner held = some thread → rank held < rank wanted) :
    DeadlockFree owner requests := by
  intro thread cycle
  obtain ⟨wanted, held, requested, owned, below⟩ :=
    waits_rank_le owner requests rank ordered thread thread cycle
  have higher := ordered thread wanted held requested owned
  exact absurd below (not_le_of_gt higher)

end Rank

/-- Among finitely many threads without a cycle, every set has a thread that
waits for nobody in the set. -/
theorem DeadlockFree.no_set [Finite Thread] {owner : Lock → Option Thread}
    {requests : Thread → Lock → Prop} (free : DeadlockFree owner requests) (threads : Set Thread)
    (nonempty : threads.Nonempty) :
    ∃ thread ∈ threads, ∀ other ∈ threads, ¬ WaitsFor owner requests thread other := by
  let behind : Thread → Thread → Prop := fun holding waiting =>
    Relation.TransGen (WaitsFor owner requests) waiting holding
  have : IsTrans Thread behind := ⟨fun _ _ _ first second => second.trans first⟩
  have : Std.Irrefl behind := ⟨free⟩
  have wellFounded := Finite.wellFounded_of_trans_of_irrefl behind
  obtain ⟨thread, member, last⟩ := wellFounded.has_min threads nonempty
  exact ⟨thread, member, fun other inSet edge => last other inSet (Relation.TransGen.single edge)⟩

end OsLabs.Locks
