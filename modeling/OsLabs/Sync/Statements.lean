import OsLabs.Lib.Transition
import OsLabs.Sync.QueueShape

/-!
# The queue calls statement by statement

`Point` is where a thread stands between taking the lock and giving it up, with
its local variables; `statement` executes one statement there.  `Leads` runs the
statements to the end of the pass, and `leads_pass` says that this end is the
one of `Call.pass`.
-/

set_option autoImplicit false

namespace OsLabs.Sync

open OsLabs.Transition

inductive Point where
  | addAttempts (val : Int)
  | addAssert (val : Int)
  | addTestFull (val : Int)
  | addMalloc (val : Int)
  | addNoMemory
  | addSetVal (val : Int) (new : Addr)
  | addSetNext (new : Addr)
  | addTestFirst (new : Addr)
  | addLinkFirst (new : Addr)
  | addLinkLast (new : Addr)
  | addMoveLast
  | addIncCount
  | addIncAddCount
  | getAttempts
  | getAssert
  | getTestEmpty
  | getFirst
  | getVal (tmp : Option Addr)
  | getMoveFirst (tmp : Option Addr) (val : Int)
  | getFree (tmp : Option Addr) (val : Int)
  | getDecCount (val : Int)
  | getIncGetCount (val : Int)
  | printLine
  deriving DecidableEq

inductive Next where
  | goto (point : Point)
  | blocked
  | done (ret : Ret)

/-- Only `addMalloc` looks at what `malloc` finds; `addNoMemory` prints and
aborts. -/
def statement (block : Block) (q : Queue) : Point → Except Fault (Next × Queue)
  | .addAttempts val => .ok (.goto (.addAssert val), { q with addAttempts := q.addAttempts + 1 })
  | .addAssert val =>
      if q.count ≤ q.maxCount then .ok (.goto (.addTestFull val), q) else .error .assertion
  | .addTestFull val =>
      if q.count = q.maxCount then .ok (.blocked, q) else .ok (.goto (.addMalloc val), q)
  | .addMalloc val =>
      match q.malloc block with
      | .ok (new, q) => .ok (.goto (.addSetVal val new), q)
      | .error _ => .ok (.goto .addNoMemory, q)
  | .addNoMemory => .error .outOfMemory
  | .addSetVal val new => do
      let q ← q.modify (some new) fun node => { node with val := val }
      .ok (.goto (.addSetNext new), q)
  | .addSetNext new => do
      let q ← q.modify (some new) fun node => { node with next := none }
      .ok (.goto (.addTestFirst new), q)
  | .addTestFirst new =>
      if q.first.isNone then .ok (.goto (.addLinkFirst new), q)
      else .ok (.goto (.addLinkLast new), q)
  | .addLinkFirst new => .ok (.goto .addIncCount, { q with first := some new, last := some new })
  | .addLinkLast new => do
      let q ← q.modify q.last fun node => { node with next := some new }
      .ok (.goto .addMoveLast, q)
  | .addMoveLast => do
      let node ← q.load q.last
      .ok (.goto .addIncCount, { q with last := node.next })
  | .addIncCount => .ok (.goto .addIncAddCount, { q with count := q.count + 1 })
  | .addIncAddCount => .ok (.done (.added 1), { q with addCount := q.addCount + 1 })
  | .getAttempts => .ok (.goto .getAssert, { q with getAttempts := q.getAttempts + 1 })
  | .getAssert => if 0 ≤ q.count then .ok (.goto .getTestEmpty, q) else .error .assertion
  | .getTestEmpty => if q.count = 0 then .ok (.blocked, q) else .ok (.goto .getFirst, q)
  | .getFirst => .ok (.goto (.getVal q.first), q)
  | .getVal tmp => do
      let node ← q.load tmp
      .ok (.goto (.getMoveFirst tmp node.val), q)
  | .getMoveFirst tmp val => do
      let front ← q.load q.first
      .ok (.goto (.getFree tmp val), { q with first := front.next })
  | .getFree tmp val => do
      let q ← q.free tmp
      .ok (.goto (.getDecCount val), q)
  | .getDecCount val => .ok (.goto (.getIncGetCount val), { q with count := q.count - 1 })
  | .getIncGetCount val => .ok (.done (.got 1 val), { q with getCount := q.getCount + 1 })
  | .printLine => .ok (.done (.printed (queuePrintStats q)), q)

/-- The test that a call comes back to after a wait. -/
def Call.testPoint : Call → Point
  | .add val => .addTestFull val
  | .get _ => .getTestEmpty
  | .printStats => .printLine

def Call.firstPoint : Call → Point
  | .add val => .addAttempts val
  | .get _ => .getAttempts
  | .printStats => .printLine

/-- Where a pass begins. -/
def Call.entry (call : Call) (waited : Bool) : Point :=
  if waited then call.testPoint else call.firstPoint

/-- The statements from a point on end the pass with this result. -/
inductive Leads (block : Block) : Point → Queue → Except Fault (Outcome × Queue) → Prop where
  | fault {point : Point} {q : Queue} {fault : Fault}
      (ran : statement block q point = .error fault) : Leads block point q (.error fault)
  | blocked {point : Point} {q after : Queue} (ran : statement block q point = .ok (.blocked, after)) :
      Leads block point q (.ok (.blocked, after))
  | done {point : Point} {q after : Queue} {ret : Ret}
      (ran : statement block q point = .ok (.done ret, after)) :
      Leads block point q (.ok (.done ret, after))
  | goto {point next : Point} {q after : Queue} {result : Except Fault (Outcome × Queue)}
      (ran : statement block q point = .ok (.goto next, after))
      (rest : Leads block next after result) :
      Leads block point q result

/-- A statement that is one operation of a sequence. -/
theorem leads_bind {α : Type} {block : Block} {point : Point} {q : Queue} {op : Except Fault α}
    {rest : α → Except Fault (Outcome × Queue)} (next : α → Point) (after : α → Queue)
    (ran : statement block q point = op >>= fun value => .ok (.goto (next value), after value))
    (later : ∀ value, op = .ok value → Leads block (next value) (after value) (rest value)) :
    Leads block point q (op >>= rest) := by
  cases result : op with
  | error fault => exact .fault (by rw [ran, result]; rfl)
  | ok value => exact .goto (by rw [ran, result]; rfl) (later value result)

theorem leads_counts (block : Block) (q : Queue) :
    Leads block .addIncCount q
      (.ok (.done (.added 1), { q with count := q.count + 1, addCount := q.addCount + 1 })) :=
  .goto rfl (.done rfl)

theorem leads_link (block : Block) (q : Queue) (new : Addr) :
    Leads block (.addTestFirst new) q (do
      let q ← q.link new
      .ok (.done (.added 1), { q with count := q.count + 1, addCount := q.addCount + 1 })) := by
  by_cases null : q.first.isNone = true
  · rw [Queue.link, if_pos null]
    have ran : statement block q (.addTestFirst new) = .ok (.goto (.addLinkFirst new), q) :=
      if_pos null
    refine .goto ran ?_
    exact .goto rfl (leads_counts block _)
  · rw [Queue.link, if_neg null]
    have ran : statement block q (.addTestFirst new) = .ok (.goto (.addLinkLast new), q) :=
      if_neg null
    refine .goto ran ?_
    rw [bind_assoc]
    refine leads_bind (fun _ => .addMoveLast) id rfl ?_
    intro linked _
    rw [bind_assoc]
    refine leads_bind (fun _ => .addIncCount) (fun node => { linked with last := node.next }) rfl ?_
    intro node _
    exact leads_counts block _

theorem leads_enqueue (block : Block) (q : Queue) (val : Int) :
    Leads block (.addMalloc val) q (do
      let q ← q.enqueue val block
      .ok (.done (.added 1), q)) := by
  cases found : q.malloc block with
  | error fault =>
      have outOfMemory : fault = .outOfMemory := by
        unfold Queue.malloc at found
        split at found
        · cases found
        · exact (Except.error.inj found).symm
      subst outOfMemory
      have ran : statement block q (.addMalloc val) = .ok (.goto .addNoMemory, q) := by
        simp only [statement, found]
      refine .goto ran ?_
      rw [Queue.enqueue, found]
      exact .fault rfl
  | ok pair =>
      obtain ⟨new, allocated⟩ := pair
      have ran : statement block q (.addMalloc val) = .ok (.goto (.addSetVal val new), allocated) := by
        simp only [statement, found]
      refine .goto ran ?_
      simp only [Queue.enqueue, found, ok_bind, bind_assoc]
      refine leads_bind (fun _ => .addSetNext new) id rfl ?_
      intro withVal _
      refine leads_bind (fun _ => .addTestFirst new) id rfl ?_
      intro withNext _
      exact leads_link block withNext new

theorem leads_dequeue (block : Block) (q : Queue) :
    Leads block .getFirst q (do
      let (val, q) ← q.dequeue
      .ok (.done (.got 1 val), q)) := by
  refine .goto rfl ?_
  simp only [Queue.dequeue, bind_assoc]
  refine leads_bind (fun node => .getMoveFirst q.first node.val) (fun _ => q) rfl ?_
  intro node _
  refine leads_bind (fun _ => .getFree q.first node.val)
    (fun front => { q with first := front.next }) rfl ?_
  intro front _
  refine leads_bind (fun _ => .getDecCount node.val) id rfl ?_
  intro freed _
  exact .goto rfl (.done rfl)

theorem leads_attempt (block : Block) (q : Queue) (call : Call) :
    Leads block call.testPoint q (call.attempt block q) := by
  cases call with
  | add val =>
      by_cases full : q.count = q.maxCount
      · rw [Call.attempt, if_pos full]
        exact .blocked (if_pos full)
      · rw [Call.attempt, if_neg full]
        exact .goto (if_neg full) (leads_enqueue block q val)
  | get val =>
      by_cases nothing : q.count = 0
      · rw [Call.attempt, if_pos nothing]
        exact .blocked (if_pos nothing)
      · rw [Call.attempt, if_neg nothing]
        exact .goto (if_neg nothing) (leads_dequeue block q)
  | printStats => exact .done rfl

theorem leads_pass (block : Block) (q : Queue) (call : Call) (waited : Bool) :
    Leads block (call.entry waited) q (call.pass waited block q) := by
  cases waited with
  | true => exact leads_attempt block q call
  | false =>
      cases call with
      | add val =>
          refine .goto rfl ?_
          by_cases asserted : q.count ≤ q.maxCount
          · simp only [Call.pass, Call.enter, asserted, if_true, Bool.false_eq_true, if_false]
            exact .goto (if_pos asserted)
              (leads_attempt block { q with addAttempts := q.addAttempts + 1 } (.add val))
          · simp only [Call.pass, Call.enter, asserted, Bool.false_eq_true, if_false]
            exact .fault (if_neg asserted)
      | get val =>
          refine .goto rfl ?_
          by_cases asserted : 0 ≤ q.count
          · simp only [Call.pass, Call.enter, asserted, if_true, Bool.false_eq_true, if_false]
            exact .goto (if_pos asserted)
              (leads_attempt block { q with getAttempts := q.getAttempts + 1 } (.get val))
          · simp only [Call.pass, Call.enter, asserted, Bool.false_eq_true, if_false]
            exact .fault (if_neg asserted)
      | printStats => exact .done rfl

theorem Leads.next {block : Block} {point next : Point} {q after : Queue}
    {result : Except Fault (Outcome × Queue)} (leads : Leads block point q result)
    (ran : statement block q point = .ok (.goto next, after)) : Leads block next after result := by
  cases leads with
  | fault other => rw [ran] at other; cases other
  | blocked other => rw [ran] at other; cases other
  | done other => rw [ran] at other; cases other
  | goto other rest =>
      rw [ran] at other
      cases other
      exact rest

theorem Leads.result {block : Block} {point : Point} {q : Queue}
    {result : Except Fault (Outcome × Queue)} (leads : Leads block point q result) :
    (∀ after, statement block q point = .ok (.blocked, after) → result = .ok (.blocked, after)) ∧
      (∀ ret after, statement block q point = .ok (.done ret, after) →
        result = .ok (.done ret, after)) ∧
      ∀ fault, statement block q point = .error fault → result = .error fault := by
  cases leads with
  | fault other =>
      refine ⟨?_, ?_, ?_⟩ <;> intros <;> simp_all
  | blocked other =>
      refine ⟨?_, ?_, ?_⟩ <;> intros <;> simp_all
  | done other =>
      refine ⟨?_, ?_, ?_⟩ <;> intros <;> simp_all
  | goto other rest =>
      refine ⟨?_, ?_, ?_⟩ <;> intros <;> simp_all

/-! ## A pass under way -/

/-- `malloc` is still to come. -/
def Point.unallocated : Point → Bool
  | .addAttempts _ | .addAssert _ | .addTestFull _ | .addMalloc _ => true
  | _ => false

/-- The pass has found room for its value, or a value to take. -/
def Point.appends : Point → Bool
  | .addMalloc _ | .addNoMemory | .addSetVal _ _ | .addSetNext _ | .addTestFirst _
  | .addLinkFirst _ | .addLinkLast _ | .addMoveLast | .addIncCount | .addIncAddCount => true
  | _ => false

def Point.removes : Point → Bool
  | .getFirst | .getVal _ | .getMoveFirst _ _ | .getFree _ _ | .getDecCount _
  | .getIncGetCount _ => true
  | _ => false

/-- By how much the pass has changed `count` so far. -/
def Point.change : Point → Int
  | .addIncAddCount => 1
  | .getIncGetCount _ => -1
  | _ => 0

/-- The points of a call. -/
def Call.visits : Call → Point → Bool
  | .add _, .addAttempts _ | .add _, .addAssert _ | .add _, .addTestFull _ => true
  | .add _, point => point.appends
  | .get _, .getAttempts | .get _, .getAssert | .get _, .getTestEmpty => true
  | .get _, point => point.removes
  | .printStats, .printLine => true
  | .printStats, _ => false

/-- What one statement tells about the next point and the counters. -/
structure Advances (point : Point) (q : Queue) (next : Point) (after : Queue) : Prop where
  once : next.unallocated = true → point.unallocated = true ∧ ∀ val, point ≠ .addMalloc val
  limit : after.maxCount = q.maxCount
  count : after.count - next.change = q.count - point.change
  room : next.appends = true → point.appends = true ∨ point.change = 0 ∧ q.count ≠ q.maxCount
  some : next.removes = true → point.removes = true ∨ point.change = 0 ∧ q.count ≠ 0
  visits : ∀ call : Call, call.visits point = true → call.visits next = true

theorem modify_counts {q after : Queue} {pointer : Option Addr} {change : QNode → QNode}
    (ran : q.modify pointer change = .ok after) :
    after.maxCount = q.maxCount ∧ after.count = q.count := by
  unfold Queue.modify at ran
  split at ran
  · split at ran
    · cases ran
      exact ⟨rfl, rfl⟩
    · cases ran
  · cases ran

theorem free_counts {q after : Queue} {pointer : Option Addr} (ran : q.free pointer = .ok after) :
    after.maxCount = q.maxCount ∧ after.count = q.count := by
  unfold Queue.free at ran
  split at ran
  · split at ran
    · cases ran
      exact ⟨rfl, rfl⟩
    · cases ran
  · cases ran
    exact ⟨rfl, rfl⟩

theorem malloc_counts {q after : Queue} {block : Block} {new : Addr}
    (ran : q.malloc block = .ok (new, after)) :
    after.maxCount = q.maxCount ∧ after.count = q.count := by
  unfold Queue.malloc at ran
  split at ran
  · cases ran
    exact ⟨rfl, rfl⟩
  · cases ran

theorem statement_advances {block : Block} {point next : Point} {q after : Queue}
    (ran : statement block q point = .ok (.goto next, after)) : Advances point q next after := by
  cases point with
  | addMalloc val =>
      simp only [statement] at ran
      split at ran
      · rename_i new allocated found
        cases ran
        obtain ⟨limit, count⟩ := malloc_counts found
        exact ⟨by simp [Point.unallocated], limit, by simp [Point.change, count],
          by simp [Point.appends], by simp [Point.removes], fun call => by cases call <;> exact id⟩
      · cases ran
        exact ⟨by simp [Point.unallocated], rfl, rfl, by simp [Point.appends],
          by simp [Point.removes], fun call => by cases call <;> exact id⟩
  | addAssert | addTestFull | getAssert | getTestEmpty | addTestFirst =>
      simp only [statement] at ran
      split at ran <;> cases ran
      all_goals
        exact ⟨by simp [Point.unallocated], rfl, rfl, by simp_all [Point.appends, Point.change],
          by simp_all [Point.removes, Point.change], fun call => by cases call <;> exact id⟩
  | addSetVal | addSetNext | addLinkLast =>
      obtain ⟨changed, modified, rest⟩ := bind_ok ran
      cases rest
      obtain ⟨limit, count⟩ := modify_counts modified
      exact ⟨by simp [Point.unallocated], limit, by simp [Point.change, count],
        by simp [Point.appends], by simp [Point.removes], fun call => by cases call <;> exact id⟩
  | getFree =>
      obtain ⟨freed, ranFree, rest⟩ := bind_ok ran
      cases rest
      obtain ⟨limit, count⟩ := free_counts ranFree
      exact ⟨by simp [Point.unallocated], limit, by simp [Point.change, count],
        by simp [Point.appends], by simp [Point.removes], fun call => by cases call <;> exact id⟩
  | addMoveLast | getVal | getMoveFirst =>
      obtain ⟨node, _, rest⟩ := bind_ok ran
      cases rest
      exact ⟨by simp [Point.unallocated], rfl, rfl, by simp [Point.appends],
        by simp [Point.removes], fun call => by cases call <;> exact id⟩
  | addAttempts | addLinkFirst | getAttempts | getFirst =>
      cases ran
      exact ⟨by simp [Point.unallocated], rfl, rfl, by simp [Point.appends],
        by simp [Point.removes], fun call => by cases call <;> exact id⟩
  | addIncCount | getDecCount =>
      cases ran
      exact ⟨by simp [Point.unallocated], rfl, by simp [Point.change], by simp [Point.appends],
        by simp [Point.removes], fun call => by cases call <;> exact id⟩
  | addNoMemory | addIncAddCount | getIncGetCount | printLine => cases ran

theorem statement_block {point : Point} (notMalloc : ∀ val, point ≠ .addMalloc val) (q : Queue)
    (block other : Block) : statement block q point = statement other q point := by
  cases point with
  | addMalloc val => exact absurd rfl (notMalloc val)
  | _ => rfl

/-- From the queue `base` a pass has come to this point.  What `malloc` finds is
open until it is called. -/
structure Underway (call : Call) (waited : Bool) (base : Queue) (point : Point) (q : Queue) :
    Prop where
  leads : ∃ chosen, ∀ block, point.unallocated = true ∨ block = chosen →
    Leads block point q (call.pass waited block base)
  limit : q.maxCount = base.maxCount
  count : q.count - point.change = base.count
  room : point.appends = true → base.count ≠ base.maxCount
  some : point.removes = true → base.count ≠ 0
  visits : call.visits point = true

theorem underway_entry (call : Call) (waited : Bool) (base : Queue) :
    Underway call waited base (call.entry waited) base := by
  refine ⟨⟨none, fun block _ => leads_pass block base call waited⟩, rfl, ?_, ?_, ?_, ?_⟩
  · cases call <;> cases waited <;> exact Int.sub_zero _
  · cases call <;> cases waited <;> simp [Call.entry, Call.testPoint, Call.firstPoint, Point.appends]
  · cases call <;> cases waited <;> simp [Call.entry, Call.testPoint, Call.firstPoint, Point.removes]
  · cases call <;> cases waited <;> rfl

section Underway

variable {call : Call} {waited : Bool} {base q after : Queue} {point : Point} {block : Block}

theorem Underway.goto {next : Point} (underway : Underway call waited base point q)
    (ran : statement block q point = .ok (.goto next, after)) :
    Underway call waited base next after := by
  have advances := statement_advances ran
  obtain ⟨chosen, leads⟩ := underway.leads
  have limit := underway.limit
  have count := underway.count
  refine ⟨?_, advances.limit.trans limit, advances.count.trans count, ?_, ?_,
    advances.visits call underway.visits⟩
  · by_cases malloc : ∃ val, point = .addMalloc val
    · -- the block found here is the one the pass goes on with
      obtain ⟨val, rfl⟩ := malloc
      refine ⟨block, ?_⟩
      rintro other (open_ | isChosen)
      · exact absurd rfl ((advances.once open_).2 val)
      · subst isChosen
        exact (leads other (Or.inl rfl)).next ran
    · rw [not_exists] at malloc
      refine ⟨chosen, ?_⟩
      rintro other (open_ | isChosen)
      · rw [statement_block malloc q block other] at ran
        exact (leads other (Or.inl (advances.once open_).1)).next ran
      · rw [statement_block malloc q block other] at ran
        exact (leads other (Or.inr isChosen)).next ran
  · intro appends
    rcases advances.room appends with earlier | ⟨unchanged, notFull⟩
    · exact underway.room earlier
    · rw [← count, ← limit, unchanged, Int.sub_zero]
      exact notFull
  · intro removes
    rcases advances.some removes with earlier | ⟨unchanged, notEmpty⟩
    · exact underway.some earlier
    · rw [← count, unchanged, Int.sub_zero]
      exact notEmpty

/-- A statement that ends the pass does not depend on what `malloc` finds. -/
theorem Underway.ends {result : Except Fault (Next × Queue)}
    (underway : Underway call waited base point q) (ran : statement block q point = result)
    (last : ∀ next after, result ≠ .ok (.goto next, after)) :
    ∃ chosen, Leads chosen point q (call.pass waited chosen base) ∧
      statement chosen q point = result := by
  obtain ⟨chosen, leads⟩ := underway.leads
  have notMalloc : ∀ val, point ≠ .addMalloc val := by
    rintro val rfl
    simp only [statement] at ran
    split at ran <;> exact absurd ran.symm (last _ _)
  refine ⟨chosen, leads chosen (Or.inr rfl), ?_⟩
  rw [statement_block notMalloc q chosen block, ran]

theorem Underway.blocked (underway : Underway call waited base point q)
    (ran : statement block q point = .ok (.blocked, after)) :
    ∃ chosen, call.pass waited chosen base = .ok (.blocked, after) := by
  obtain ⟨chosen, leads, here⟩ := underway.ends ran (by simp)
  exact ⟨chosen, leads.result.1 after here⟩

theorem Underway.done {ret : Ret} (underway : Underway call waited base point q)
    (ran : statement block q point = .ok (.done ret, after)) :
    ∃ chosen, call.pass waited chosen base = .ok (.done ret, after) := by
  obtain ⟨chosen, leads, here⟩ := underway.ends ran (by simp)
  exact ⟨chosen, leads.result.2.1 ret after here⟩

theorem Underway.fault {fault : Fault} (underway : Underway call waited base point q)
    (ran : statement block q point = .error fault) :
    ∃ chosen, call.pass waited chosen base = .error fault := by
  obtain ⟨chosen, leads, here⟩ := underway.ends ran (by simp)
  exact ⟨chosen, leads.result.2.2 fault here⟩

end Underway

end OsLabs.Sync
