import OsLabs.Sync.QueueShape

/-!
# The linked queue is a bounded FIFO buffer

`Represents` ties a queue to a buffer of the same capacity, and its counters to
one another.  A call answers as the buffer does; an induction over the calls
carries this to runs of any length.
-/

set_option autoImplicit false

namespace OsLabs.Sync

open OsLabs.Linked OsLabs.Fifo

/-- A call and its result, as a request to a buffer and its answer. -/
def event : Call × Ret → Option (Request Int × Answer Int)
  | (.add val, .added ok) => some (.offer val, if ok = 1 then .accepted else .refused)
  | (.get _, .got ok val) => some (.poll, if ok = 1 then .taken val else .nothing)
  | _ => none

def events (calls : List Call) (rets : List Ret) : List (Request Int × Answer Int) :=
  (calls.zip rets).filterMap event

namespace Queue

/-- The queue holds what the buffer holds. -/
structure Holds {capacity : Nat} (q : Queue) (addrs : List Addr) (buffer : Buffer Int capacity) :
    Prop where
  shape : q.Shape addrs
  limit : q.maxCount = capacity
  same : contents q.heap addrs = buffer.items

structure Represents {capacity : Nat} (q : Queue) (addrs : List Addr)
    (buffer : Buffer Int capacity) : Prop extends q.Holds addrs buffer where
  balanced : q.addCount - q.getCount = q.count
  added : q.addCount ≤ q.addAttempts
  got : q.getCount ≤ q.getAttempts

variable {capacity : Nat}

theorem represents_init (capacity : Nat) :
    (queueInit capacity).Represents [] (Buffer.empty : Buffer Int capacity) :=
  ⟨⟨shape_init capacity, rfl, rfl⟩, rfl, Int.le_refl _, Int.le_refl _⟩

theorem Holds.count_eq {q : Queue} {addrs : List Addr} {buffer : Buffer Int capacity}
    (holds : q.Holds addrs buffer) : q.count = buffer.items.length := by
  rw [holds.shape.counted, ← holds.same, contents_length holds.shape.linked]

theorem Holds.bounded {q : Queue} {addrs : List Addr} {buffer : Buffer Int capacity}
    (holds : q.Holds addrs buffer) : q.count ≤ q.maxCount := by
  rw [holds.count_eq, holds.limit]
  exact Int.ofNat_le.mpr buffer.fits

theorem Holds.counted {q : Queue} {addrs : List Addr} {buffer : Buffer Int capacity}
    (holds : q.Holds addrs buffer) (waited : Bool) (call : Call) :
    (call.counted waited q).Holds addrs buffer := by
  refine ⟨holds.shape.counted_call waited call, ?_, ?_⟩
  · cases call <;> cases waited <;> exact holds.limit
  · cases call <;> cases waited <;> exact holds.same

end Queue

variable {capacity : Nat}

/-- An attempt does what the buffer does. -/
theorem attempt_serves {q next : Queue} {addrs nextAddrs : List Addr} {call : Call}
    {outcome : Outcome} {buffer : Buffer Int capacity} (holds : q.Holds addrs buffer)
    (attempts : Attempts q addrs call outcome next nextAddrs) (shape : next.Shape nextAddrs) :
    ∃ after : Buffer Int capacity, next.Holds nextAddrs after ∧
      buffer.Serves (events [call] [call.settle outcome]) after := by
  have count := holds.count_eq
  have limit := holds.limit
  have bounded := holds.bounded
  cases attempts with
  | @full val full =>
      have noRoom : capacity ≤ buffer.items.length := by omega
      have served := buffer.serves_one (.offer val)
      rw [Buffer.serve_offer_full noRoom] at served
      exact ⟨buffer, holds, served⟩
  | @appended val heap first new room grown =>
      have hasRoom : buffer.items.length < capacity := by omega
      obtain ⟨answer, items⟩ := Buffer.serve_offer_room val hasRoom
      refine ⟨(buffer.serve (.offer val)).2, ⟨shape, limit, ?_⟩, ?_⟩
      · rw [items, ← holds.same]
        exact grown
      · have served := buffer.serves_one (.offer val)
        rwa [answer] at served
  | @empty val nothing =>
      have noItems : buffer.items = [] := List.length_eq_zero_iff.mp (by omega)
      have served := buffer.serves_one .poll
      rw [Buffer.serve_poll_nil noItems] at served
      exact ⟨buffer, holds, served⟩
  | @removed val addr rest node heap here loaded kept =>
      have oldest : buffer.items = node.val :: contents q.heap nextAddrs := by
        rw [← holds.same, here]
        exact contents_cons loaded _
      obtain ⟨answer, items⟩ := Buffer.serve_poll_cons oldest
      refine ⟨(buffer.serve .poll).2, ⟨shape, limit, ?_⟩, ?_⟩
      · rw [items]
        exact kept
      · have served := buffer.serves_one .poll
        rwa [answer] at served
  | printed => exact ⟨buffer, holds, rfl⟩

/-- An attempt of a call that has just counted keeps the counters in balance. -/
theorem attempt_represents {q next : Queue} {addrs nextAddrs : List Addr} {call : Call}
    {outcome : Outcome} {buffer after : Buffer Int capacity}
    (represents : q.Represents addrs buffer)
    (attempts : Attempts (call.counted false q) addrs call outcome next nextAddrs)
    (holds : next.Holds nextAddrs after) : next.Represents nextAddrs after := by
  have balanced := represents.balanced
  have added := represents.added
  have got := represents.got
  refine ⟨holds, ?_, ?_, ?_⟩
  · cases attempts <;> simp only [Call.counted, Bool.false_eq_true, if_false] <;> omega
  · cases attempts <;> simp only [Call.counted, Bool.false_eq_true, if_false] <;> omega
  · cases attempts <;> simp only [Call.counted, Bool.false_eq_true, if_false] <;> omega

theorem call_refines {q : Queue} {addrs : List Addr} {buffer : Buffer Int capacity}
    (represents : q.Represents addrs buffer) (call : Call) (block : Block) :
    call.run block q = .error .outOfMemory ∨
      ∃ ret next nextAddrs, ∃ after : Buffer Int capacity,
        call.run block q = .ok (ret, next) ∧ next.Represents nextAddrs after ∧
          buffer.Serves (events [call] [ret]) after := by
  have asAttempt := pass_eq_attempt represents.shape represents.bounded false call block
  rcases attempt_spec (represents.shape.counted_call false call) call block with
    ⟨_, _, _, _, failed⟩ | ⟨outcome, next, nextAddrs, ran, attempts, shape⟩
  · left
    rw [run_eq_pass, asAttempt, failed]
    rfl
  · obtain ⟨after, holds, serves⟩ :=
      attempt_serves (represents.counted false call) attempts shape
    refine Or.inr ⟨call.settle outcome, next, nextAddrs, after, ?_,
      attempt_represents represents attempts holds, serves⟩
    rw [run_eq_pass, asAttempt, ran]
    rfl

theorem runCalls_refines {q : Queue} {addrs : List Addr} {buffer : Buffer Int capacity}
    (represents : q.Represents addrs buffer) (calls : List (Call × Block)) :
    runCalls q calls = .error .outOfMemory ∨
      ∃ rets next nextAddrs, ∃ after : Buffer Int capacity,
        runCalls q calls = .ok (rets, next) ∧ next.Represents nextAddrs after ∧
          buffer.Serves (events (calls.map Prod.fst) rets) after := by
  induction calls generalizing q addrs buffer with
  | nil => exact Or.inr ⟨[], q, addrs, buffer, rfl, represents, rfl⟩
  | cons first rest ih =>
      obtain ⟨call, block⟩ := first
      rcases call_refines represents call block with
        failed | ⟨ret, middle, middleAddrs, between, ran, middleRepresents, serves⟩
      · left
        rw [runCalls, failed]
        rfl
      · rcases ih middleRepresents with
          failed | ⟨rets, next, nextAddrs, after, restRan, nextRepresents, restServes⟩
        · left
          simp only [runCalls, ran, failed, bind, Except.bind]
        · refine Or.inr ⟨ret :: rets, next, nextAddrs, after, ?_, nextRepresents, ?_⟩
          · simp only [runCalls, ran, restRan, bind, Except.bind]
          · have joined := serves.append restServes
            rwa [events, events, ← List.filterMap_append] at joined

/-! ## The calls on a reached queue -/

namespace Queue

/-- `queue_add` appends exactly when there is room (and memory). -/
def AddsAtEnd (q : Queue) (addrs : List Addr) : Prop :=
  ∀ (val : Int) (block : Block),
    (q.count = q.maxCount →
      queueAdd q val block = .ok (0, { q with addAttempts := q.addAttempts + 1 })) ∧
    (q.count < q.maxCount → ∀ new content, block = some (new, content) → q.heap new = none →
      ∃ after, queueAdd q val block = .ok (1, after) ∧ after.Shape (addrs ++ [new]) ∧
        contents after.heap (addrs ++ [new]) = contents q.heap addrs ++ [val])

/-- `queue_get` takes the oldest value exactly when there is one. -/
def GetsOldest (q : Queue) (addrs : List Addr) : Prop :=
  ∀ val : Int,
    (q.count = 0 →
      queueGet q val = .ok (0, val, { q with getAttempts := q.getAttempts + 1 })) ∧
    (0 < q.count → ∃ addr rest oldest after, addrs = addr :: rest ∧
      queueGet q val = .ok (1, oldest, after) ∧ after.Shape rest ∧
        contents q.heap addrs = oldest :: contents after.heap rest)

/-- `queue_destroy` frees every node, each of them once. -/
def FreesOnce (q : Queue) (addrs : List Addr) : Prop :=
  addrs.Nodup ∧ ∀ extra, ∃ after,
    queueDestroy (addrs.length + 1 + extra) q = .ok (addrs, after) ∧ ∀ addr, after.heap addr = none

theorem Represents.addsAtEnd {q : Queue} {addrs : List Addr} {buffer : Buffer Int capacity}
    (represents : q.Represents addrs buffer) : q.AddsAtEnd addrs := by
  intro val block
  constructor
  · intro full
    simp [queueAdd, full]
  · intro room new content isBlock free
    have shape := represents.shape.counted_call false (.add val)
    obtain ⟨heap, first, enqueued, after, holds⟩ := enqueue_spec shape free val content
    refine ⟨_, ?_, after, holds⟩
    have asserted : q.count ≤ q.maxCount := Int.le_of_lt room
    have notFull : q.count ≠ q.maxCount := Int.ne_of_lt room
    have enqueued : { q with addAttempts := q.addAttempts + 1 }.enqueue val (some (new, content)) =
      _ := enqueued
    simp only [queueAdd, asserted, notFull, if_true, if_false, isBlock, enqueued, bind, Except.bind]

theorem Represents.getsOldest {q : Queue} {addrs : List Addr} {buffer : Buffer Int capacity}
    (represents : q.Represents addrs buffer) : q.GetsOldest addrs := by
  intro val
  constructor
  · intro nothing
    simp [queueGet, nothing]
  · intro filled
    have shape := represents.shape.counted_call false (.get val)
    have notNone : q.count ≠ 0 := Int.ne_of_gt filled
    cases addrs with
    | nil => exact absurd (represents.shape.nil_iff.mpr rfl) notNone
    | cons addr rest =>
        obtain ⟨node, loaded, dequeued, after, holds⟩ := dequeue_spec shape
        refine ⟨addr, rest, node.val, _, rfl, ?_, after, ?_⟩
        · have dequeued : { q with getAttempts := q.getAttempts + 1 }.dequeue = _ := dequeued
          simp only [queueGet, Int.le_of_lt filled, notNone, if_true, if_false, dequeued, bind,
            Except.bind]
        · have loaded : q.heap addr = some node := loaded
          rw [contents_cons loaded]
          exact congrArg _ holds.symm

theorem freeNodes_spec (q : Queue) {head : Option Addr} {addrs : List Addr}
    (linked : Chain q.heap QNode.next head addrs) (owned : ∀ addr, addr ∉ addrs → q.heap addr = none)
    (extra : Nat) :
    ∃ after, freeNodes (addrs.length + 1 + extra) q head = .ok (addrs, after) ∧
      ∀ addr, after.heap addr = none := by
  induction addrs generalizing q head with
  | nil =>
      have null : head = none := linked
      refine ⟨q, ?_, fun addr => owned addr (by simp)⟩
      rw [null, show [].length + 1 + extra = extra + 1 from Nat.add_comm _ _, freeNodes]
  | cons addr rest ih =>
      have distinct := List.nodup_cons.mp linked.nodup
      obtain ⟨isHead, node, loaded, tail⟩ := linked
      have freed := ih { q with heap := Function.update q.heap addr none }
        (tail.update_off addr none distinct.1) (by
          intro other off
          by_cases here : other = addr
          · simp [here]
          · simpa [Function.update_of_ne here] using owned other (by simp [here, off]))
      obtain ⟨after, ran, allFree⟩ := freed
      refine ⟨after, ?_, allFree⟩
      rw [isHead, show (addr :: rest).length + 1 + extra = (rest.length + 1 + extra) + 1 by
        rw [List.length_cons]; omega]
      simp [freeNodes, load, free, loaded, ran, bind, Except.bind]

theorem Represents.freesOnce {q : Queue} {addrs : List Addr} {buffer : Buffer Int capacity}
    (represents : q.Represents addrs buffer) : q.FreesOnce addrs :=
  ⟨represents.shape.linked.nodup,
    freeNodes_spec q represents.shape.linked represents.shape.owned⟩

end Queue

/-- From `queue_init` on, only a lack of memory ends a run; the queue it reaches
holds what a buffer holds after the same calls, `last` is its final node unless
it is empty, its counters balance, and the next call does what it should. -/
theorem queue_refines_fifo (maxCount : Nat) (calls : List (Call × Block)) :
    (∀ fault, runCalls (queueInit maxCount) calls = .error fault → fault = .outOfMemory) ∧
      ∀ rets q, runCalls (queueInit maxCount) calls = .ok (rets, q) →
        ∃ (addrs : List Addr) (buffer : Buffer Int maxCount),
          q.Represents addrs buffer ∧
            Buffer.empty.Serves (events (calls.map Prod.fst) rets) buffer ∧
            0 ≤ q.count ∧ q.count ≤ q.maxCount ∧ (q.first ≠ none → q.last = addrs.getLast?) ∧
            q.AddsAtEnd addrs ∧ q.GetsOldest addrs ∧ q.FreesOnce addrs := by
  rcases runCalls_refines (Queue.represents_init maxCount) calls with
    failed | ⟨rets, q, addrs, buffer, ran, represents, serves⟩
  · rw [failed]
    refine ⟨fun fault isFault => (Except.error.inj isFault).symm, ?_⟩
    intro rets q ran
    cases ran
  · rw [ran]
    refine ⟨fun fault isFault => (by cases isFault), ?_⟩
    intro otherRets other same
    cases same
    refine ⟨addrs, buffer, represents, serves, ?_, represents.bounded, ?_, represents.addsAtEnd,
      represents.getsOldest, represents.freesOnce⟩
    · rw [represents.count_eq]
      exact Int.natCast_nonneg _
    · intro someFirst
      cases final : addrs.getLast? with
      | none =>
          have noNodes := List.getLast?_eq_none_iff.mp final
          have null := represents.shape.first_isNone.mpr noNodes
          exact absurd (Option.isNone_iff_eq_none.mp null) someFirst
      | some addr => exact represents.shape.atLast addr final

end OsLabs.Sync
