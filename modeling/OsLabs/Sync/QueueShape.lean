import OsLabs.Sync.Queue

/-!
# The nodes behind a queue

`Shape` says which nodes the pointers of a queue run through.  `last` is only
tied to them while there is a node, since `queue_get` leaves it behind when it
takes the only one.  Each operation has one specification in these terms;
`attempt_spec` puts them together for what a call does while it holds the lock.
-/

set_option autoImplicit false

namespace OsLabs.Sync

open OsLabs.Linked

/-- The values in the nodes at these addresses. -/
def contents (heap : Addr → Option QNode) (addrs : List Addr) : List Int :=
  addrs.filterMap fun addr => (heap addr).map QNode.val

theorem contents_cons {heap : Addr → Option QNode} {addr : Addr} {node : QNode}
    (loaded : heap addr = some node) (addrs : List Addr) :
    contents heap (addr :: addrs) = node.val :: contents heap addrs := by
  simp [contents, loaded]

theorem contents_append (heap : Addr → Option QNode) (front back : List Addr) :
    contents heap (front ++ back) = contents heap front ++ contents heap back :=
  List.filterMap_append

theorem contents_congr {heap otherHeap : Addr → Option QNode} {addrs : List Addr}
    (same : ∀ addr ∈ addrs, (otherHeap addr).map QNode.val = (heap addr).map QNode.val) :
    contents otherHeap addrs = contents heap addrs :=
  List.filterMap_congr same

theorem contents_update_off (heap : Addr → Option QNode) {addrs : List Addr} {addr : Addr}
    (off : addr ∉ addrs) (node : Option QNode) :
    contents (Function.update heap addr node) addrs = contents heap addrs := by
  apply contents_congr
  intro visited member
  have different : visited ≠ addr := fun same => off (same ▸ member)
  rw [Function.update_of_ne different]

theorem contents_length {heap : Addr → Option QNode} {head : Option Addr} {addrs : List Addr}
    (linked : Chain heap QNode.next head addrs) : (contents heap addrs).length = addrs.length := by
  induction addrs generalizing head with
  | nil => rfl
  | cons addr rest ih =>
      obtain ⟨_, node, loaded, tail⟩ := linked
      rw [contents_cons loaded, List.length_cons, List.length_cons, ih tail]

namespace Queue

structure Shape (q : Queue) (addrs : List Addr) : Prop where
  linked : Chain q.heap QNode.next q.first addrs
  atLast : ∀ addr, addrs.getLast? = some addr → q.last = some addr
  owned : ∀ addr, addr ∉ addrs → q.heap addr = none
  counted : q.count = addrs.length

theorem shape_init (maxCount : Int) : (queueInit maxCount).Shape [] :=
  ⟨rfl, by simp, fun _ _ => rfl, rfl⟩

theorem Shape.nil_iff {q : Queue} {addrs : List Addr} (shape : q.Shape addrs) :
    q.count = 0 ↔ addrs = [] := by
  rw [shape.counted, Int.natCast_eq_zero, List.length_eq_zero_iff]

theorem Shape.first_isNone {q : Queue} {addrs : List Addr} (shape : q.Shape addrs) :
    q.first.isNone = true ↔ addrs = [] := by
  cases addrs with
  | nil =>
      have null : q.first = none := shape.linked
      simp [null]
  | cons addr rest => simp [shape.linked.1]

theorem Shape.fresh {q : Queue} {addrs : List Addr} (shape : q.Shape addrs) {new : Addr}
    (free : q.heap new = none) : new ∉ addrs := by
  intro member
  obtain ⟨node, loaded⟩ := shape.linked.allocated new member
  rw [free] at loaded
  cases loaded

/-! ## Adding a node -/

theorem malloc_none {q : Queue} {block : Block}
    (nothing : ∀ found, block = some found → q.heap found.1 ≠ none) :
    q.malloc block = .error .outOfMemory := by
  cases block with
  | none => rfl
  | some found =>
      have used := nothing found rfl
      simp [malloc, Option.filter, used]

theorem malloc_some {q : Queue} {new : Addr} (free : q.heap new = none) (content : QNode) :
    q.malloc (some (new, content)) =
      .ok (new, { q with heap := Function.update q.heap new (some content) }) := by
  simp [malloc, Option.filter, free]

/-- The queue with a new last node that carries a value. -/
def extended (q : Queue) (new : Addr) (heap : Addr → Option QNode) : Queue :=
  { q with
    heap := heap
    first := if q.first.isNone then some new else q.first
    last := some new }

/-- `last` is dereferenced only where it is the final node. -/
theorem link_spec {q : Queue} {addrs : List Addr} {new : Addr} (val : Int)
    (shape : q.Shape addrs) (free : q.heap new = none) :
    ∃ heap,
      { q with heap := Function.update q.heap new (some ⟨val, none⟩) }.link new =
          .ok (q.extended new heap) ∧
        Chain heap QNode.next (q.extended new heap).first (addrs ++ [new]) ∧
        (∀ addr, addr ∉ addrs ++ [new] → heap addr = none) ∧
        contents heap (addrs ++ [new]) = contents q.heap addrs ++ [val] := by
  have fresh := shape.fresh free
  rcases List.eq_nil_or_concat addrs with isNil | ⟨front, final, isConcat⟩
  · subst isNil
    have null : q.first = none := shape.linked
    refine ⟨Function.update q.heap new (some ⟨val, none⟩), ?_, ?_, ?_, ?_⟩
    · simp [link, extended, null]
    · exact ⟨by simp [extended, null], ⟨val, none⟩, Function.update_self _ _ _, rfl⟩
    · intro addr off
      have different : addr ≠ new := fun same => off (by simp [same])
      rw [Function.update_of_ne different]
      exact shape.owned addr (by simp)
    · simp [contents]
  · rw [List.concat_eq_append] at isConcat
    subst isConcat
    have atLast : q.last = some final := shape.atLast final (by simp)
    have someFirst : q.first.isNone = false := by
      rw [Bool.eq_false_iff]
      intro null
      have noNodes := shape.first_isNone.mp null
      simp at noNodes
    have finalNe : final ≠ new := fun same => fresh (by simp [same])
    obtain ⟨node, loaded⟩ := shape.linked.allocated final (by simp)
    refine ⟨Function.update (Function.update q.heap new (some ⟨val, none⟩)) final
      (some { node with next := some new }), ?_, ?_, ?_, ?_⟩
    · simp [link, modify, load, extended, someFirst, atLast, Function.update_of_ne finalNe, loaded,
        bind, Except.bind]
    · have joined := shape.linked.snoc fresh { node with next := some new } ⟨val, none⟩ rfl rfl
      simpa [extended, someFirst] using joined
    · intro addr off
      have notNew : addr ≠ new := fun same => off (by simp [same])
      have notFinal : addr ≠ final := fun same => off (by simp [same])
      rw [Function.update_of_ne notFinal, Function.update_of_ne notNew]
      exact shape.owned addr (fun member => off (by simp at member ⊢; tauto))
    · rw [contents_append]
      congr 1
      · apply contents_congr
        intro addr member
        have notNew : addr ≠ new := fun same => fresh (same ▸ member)
        by_cases here : addr = final
        · simp [here, loaded]
        · rw [Function.update_of_ne here, Function.update_of_ne notNew]
      · simp [contents, Function.update_of_ne finalNe.symm]

theorem enqueue_error {q : Queue} {val : Int} {block : Block}
    (nothing : ∀ found, block = some found → q.heap found.1 ≠ none) :
    q.enqueue val block = .error .outOfMemory := by
  rw [enqueue, malloc_none nothing]
  rfl

theorem enqueue_spec {q : Queue} {addrs : List Addr} {new : Addr} (shape : q.Shape addrs)
    (free : q.heap new = none) (val : Int) (content : QNode) :
    ∃ heap first,
      q.enqueue val (some (new, content)) =
          .ok { q with
                heap := heap
                first := first
                last := some new
                count := q.count + 1
                addCount := q.addCount + 1 } ∧
        { q with
          heap := heap
          first := first
          last := some new
          count := q.count + 1
          addCount := q.addCount + 1 }.Shape (addrs ++ [new]) ∧
        contents heap (addrs ++ [new]) = contents q.heap addrs ++ [val] := by
  obtain ⟨heap, linked, chain, owned, holds⟩ := link_spec val shape free
  refine ⟨heap, (q.extended new heap).first, ?_, ⟨chain, ?_, owned, ?_⟩, holds⟩
  · have built : ({ q with heap := Function.update q.heap new (some content) }.modify (some new)
        fun node => { node with val := val }) =
        .ok { q with heap := Function.update q.heap new (some { content with val := val }) } := by
      simp [modify]
    have ended : ({ q with
          heap := Function.update q.heap new (some { content with val := val }) }.modify (some new)
        fun node => { node with next := none }) =
        .ok { q with heap := Function.update q.heap new (some ⟨val, none⟩) } := by
      simp [modify]
    rw [enqueue, malloc_some free]
    simp only [bind, Except.bind, built, ended, linked]
    rfl
  · intro addr isLast
    simpa using isLast
  · have counted := shape.counted
    simp only [List.length_append, List.length_singleton]
    omega

/-! ## Taking the first node -/

theorem dequeue_spec {q : Queue} {addr : Addr} {rest : List Addr} (shape : q.Shape (addr :: rest)) :
    ∃ node, q.heap addr = some node ∧
      q.dequeue = .ok (node.val,
        { q with
          heap := Function.update q.heap addr none
          first := node.next
          count := q.count - 1
          getCount := q.getCount + 1 }) ∧
      { q with
        heap := Function.update q.heap addr none
        first := node.next
        count := q.count - 1
        getCount := q.getCount + 1 }.Shape rest ∧
      contents (Function.update q.heap addr none) rest = contents q.heap rest := by
  have distinct := List.nodup_cons.mp shape.linked.nodup
  obtain ⟨isFirst, node, loaded, tail⟩ := shape.linked
  refine ⟨node, loaded, ?_, ⟨?_, ?_, ?_, ?_⟩, contents_update_off q.heap distinct.1 none⟩
  · simp [dequeue, load, free, isFirst, loaded, bind, Except.bind]
  · exact tail.update_off addr none distinct.1
  · intro final isLast
    apply shape.atLast
    cases rest with
    | nil => simp at isLast
    | cons second others => simpa using isLast
  · intro other off
    by_cases here : other = addr
    · simp [here]
    · simpa [Function.update_of_ne here] using shape.owned other (by simp [here, off])
  · have counted := shape.counted
    rw [List.length_cons] at counted
    show q.count - 1 = rest.length
    omega

end Queue

/-! ## One pass of a call -/

/-- How a pass ends: the call cannot go on, or it has its result. -/
inductive Outcome where
  | blocked
  | done (ret : Ret)

/-- The attempt counter and the assertion. -/
def Call.enter (q : Queue) : Call → Except Fault Queue
  | .add _ =>
      if q.count ≤ q.maxCount then .ok { q with addAttempts := q.addAttempts + 1 }
      else .error .assertion
  | .get _ =>
      if 0 ≤ q.count then .ok { q with getAttempts := q.getAttempts + 1 }
      else .error .assertion
  | .printStats => .ok q

/-- The test for a full or an empty queue, and the rest of the call. -/
def Call.attempt (block : Block) (q : Queue) : Call → Except Fault (Outcome × Queue)
  | .add val =>
      if q.count = q.maxCount then .ok (.blocked, q)
      else do
        let q ← q.enqueue val block
        .ok (.done (.added 1), q)
  | .get _ =>
      if q.count = 0 then .ok (.blocked, q)
      else do
        let (val, q) ← q.dequeue
        .ok (.done (.got 1 val), q)
  | .printStats => .ok (.done (.printed (queuePrintStats q)), q)

/-- What a call does between taking the lock and giving it up; after a wait it
goes on with its test. -/
def Call.pass (waited : Bool) (block : Block) (q : Queue) (call : Call) :
    Except Fault (Outcome × Queue) :=
  if waited then call.attempt block q
  else do
    let q ← call.enter q
    call.attempt block q

/-- A call that does not wait returns 0 where it is blocked. -/
def Call.settle : Call → Outcome → Ret
  | _, .done ret => ret
  | .add _, .blocked => .added 0
  | .get val, .blocked => .got 0 val
  | .printStats, .blocked => .printed []

theorem run_eq_pass (call : Call) (block : Block) (q : Queue) :
    call.run block q = (call.pass false block q).map fun (outcome, q) => (call.settle outcome, q) := by
  cases call with
  | add val =>
      by_cases asserted : q.count ≤ q.maxCount
      · by_cases full : q.count = q.maxCount
        · simp [Call.run, queueAdd, Call.pass, Call.enter, Call.attempt, full, Except.map, bind,
            Except.bind, Call.settle]
        · simp only [Call.run, queueAdd, Call.pass, Call.enter, Call.attempt, asserted, full,
            if_true, if_false, Bool.false_eq_true, bind, Except.bind]
          cases Queue.enqueue _ val block <;> rfl
      · simp [Call.run, queueAdd, Call.pass, Call.enter, asserted, Except.map, bind, Except.bind]
  | get val =>
      by_cases asserted : 0 ≤ q.count
      · by_cases nothing : q.count = 0
        · simp [Call.run, queueGet, Call.pass, Call.enter, Call.attempt, nothing, Except.map, bind,
            Except.bind, Call.settle]
        · simp only [Call.run, queueGet, Call.pass, Call.enter, Call.attempt, asserted, nothing,
            if_true, if_false, Bool.false_eq_true, bind, Except.bind]
          cases Queue.dequeue _ <;> rfl
      · simp [Call.run, queueGet, Call.pass, Call.enter, asserted, Except.map, bind, Except.bind]
  | printStats => rfl

/-- The attempt counter that a call has not counted before a wait. -/
def Call.counted (waited : Bool) (q : Queue) : Call → Queue
  | .add _ => if waited then q else { q with addAttempts := q.addAttempts + 1 }
  | .get _ => if waited then q else { q with getAttempts := q.getAttempts + 1 }
  | .printStats => q

/-- `malloc` finds no block that is not in use. -/
def Queue.NoMemory (q : Queue) (block : Block) : Prop :=
  ∀ found, block = some found → q.heap found.1 ≠ none

/-- What an attempt does to a queue of this shape, and the shape it leaves. -/
inductive Attempts (q : Queue) (addrs : List Addr) :
    Call → Outcome → Queue → List Addr → Prop where
  | full {val : Int} (full : q.count = q.maxCount) :
      Attempts q addrs (.add val) .blocked q addrs
  | appended {val : Int} {heap : Addr → Option QNode} {first : Option Addr} {new : Addr}
      (room : q.count ≠ q.maxCount)
      (holds : contents heap (addrs ++ [new]) = contents q.heap addrs ++ [val]) :
      Attempts q addrs (.add val) (.done (.added 1))
        { q with
          heap := heap
          first := first
          last := some new
          count := q.count + 1
          addCount := q.addCount + 1 } (addrs ++ [new])
  | empty {val : Int} (nothing : q.count = 0) : Attempts q addrs (.get val) .blocked q addrs
  | removed {val : Int} {addr : Addr} {rest : List Addr} {node : QNode}
      {heap : Addr → Option QNode} (here : addrs = addr :: rest) (loaded : q.heap addr = some node)
      (holds : contents heap rest = contents q.heap rest) :
      Attempts q addrs (.get val) (.done (.got 1 node.val))
        { q with
          heap := heap
          first := node.next
          count := q.count - 1
          getCount := q.getCount + 1 } rest
  | printed : Attempts q addrs .printStats (.done (.printed (queuePrintStats q))) q addrs

theorem attempt_spec {q : Queue} {addrs : List Addr} (shape : q.Shape addrs) (call : Call)
    (block : Block) :
    (∃ val, call = .add val ∧ q.count ≠ q.maxCount ∧ q.NoMemory block ∧
        call.attempt block q = .error .outOfMemory) ∨
      ∃ outcome next nextAddrs, call.attempt block q = .ok (outcome, next) ∧
        Attempts q addrs call outcome next nextAddrs ∧ next.Shape nextAddrs := by
  cases call with
  | add val =>
      by_cases full : q.count = q.maxCount
      · exact Or.inr
          ⟨.blocked, q, addrs, by simp only [Call.attempt, full, if_true], .full full, shape⟩
      · by_cases nothing : q.NoMemory block
        · refine Or.inl ⟨val, rfl, full, nothing, ?_⟩
          simp only [Call.attempt, full, if_false, Queue.enqueue_error nothing, bind, Except.bind]
        · simp only [Queue.NoMemory, not_forall, not_not] at nothing
          obtain ⟨⟨new, content⟩, rfl, free⟩ := nothing
          obtain ⟨heap, first, enqueued, after, holds⟩ := Queue.enqueue_spec shape free val content
          refine Or.inr ⟨_, _, _, ?_, .appended full holds, after⟩
          simp only [Call.attempt, full, if_false, enqueued, bind, Except.bind]
  | get val =>
      by_cases nothing : q.count = 0
      · exact Or.inr ⟨.blocked, q, addrs, by simp only [Call.attempt, nothing, if_true],
          .empty nothing, shape⟩
      · cases addrs with
        | nil => exact absurd (shape.nil_iff.mpr rfl) nothing
        | cons addr rest =>
            obtain ⟨node, loaded, dequeued, after, holds⟩ := Queue.dequeue_spec shape
            refine Or.inr ⟨_, _, _, ?_, .removed rfl loaded holds, after⟩
            simp only [Call.attempt, nothing, if_false, dequeued, bind, Except.bind]
  | printStats => exact Or.inr ⟨_, _, _, rfl, .printed, shape⟩

theorem Queue.Shape.counted_call {q : Queue} {addrs : List Addr} (shape : q.Shape addrs)
    (waited : Bool) (call : Call) : (call.counted waited q).Shape addrs := by
  cases call with
  | add val =>
      cases waited
      · exact ⟨shape.linked, shape.atLast, shape.owned, shape.counted⟩
      · exact shape
  | get val =>
      cases waited
      · exact ⟨shape.linked, shape.atLast, shape.owned, shape.counted⟩
      · exact shape
  | printStats => exact shape

/-- Neither assertion fails: a pass is an attempt on the queue with its counter. -/
theorem pass_eq_attempt {q : Queue} {addrs : List Addr} (shape : q.Shape addrs)
    (bounded : q.count ≤ q.maxCount) (waited : Bool) (call : Call) (block : Block) :
    call.pass waited block q = call.attempt block (call.counted waited q) := by
  have nonnegative : 0 ≤ q.count := by
    rw [shape.counted]
    exact Int.natCast_nonneg _
  cases waited with
  | true => cases call <;> rfl
  | false => cases call <;> simp [Call.pass, Call.enter, Call.counted, bounded, nonnegative, bind,
      Except.bind]

end OsLabs.Sync
