import Mathlib.Data.List.Nodup
import Mathlib.Logic.Function.Basic

/-!
# Singly linked lists in a heap

A heap maps addresses to cells; a freed or never allocated address maps to
`none`.  `Chain` says which addresses the chain from a head pointer runs
through.  A chain that ends is finite and acyclic by itself: the addresses are
determined by the head (`Chain.unique`) and pairwise different
(`Chain.nodup`).  The remaining lemmas are the ways a chain changes: at a cell
that is not on it, at its front, and where one cell is taken out.
-/

set_option autoImplicit false

namespace OsLabs.Linked

universe u v

variable {Addr : Type u} {Cell : Type v}

/-- The chain from `head` visits exactly these addresses and ends. -/
def Chain (heap : Addr → Option Cell) (next : Cell → Option Addr) :
    Option Addr → List Addr → Prop
  | head, [] => head = none
  | head, addr :: rest =>
      head = some addr ∧ ∃ cell, heap addr = some cell ∧ Chain heap next (next cell) rest

variable {heap : Addr → Option Cell} {next : Cell → Option Addr}

theorem Chain.unique {head : Option Addr} {first second : List Addr}
    (firstLinked : Chain heap next head first) (secondLinked : Chain heap next head second) :
    first = second := by
  induction first generalizing head second with
  | nil =>
      cases second with
      | nil => rfl
      | cons addr rest =>
          have isNone : head = none := firstLinked
          have isSome : head = some addr := secondLinked.1
          rw [isNone] at isSome
          cases isSome
  | cons addr rest ih =>
      obtain ⟨isHead, cell, loaded, tail⟩ := firstLinked
      cases second with
      | nil =>
          have isNone : head = none := secondLinked
          rw [isNone] at isHead
          cases isHead
      | cons other others =>
          obtain ⟨otherHead, otherCell, otherLoaded, otherTail⟩ := secondLinked
          rw [isHead, Option.some.injEq] at otherHead
          subst other
          rw [loaded, Option.some.injEq] at otherLoaded
          subst otherCell
          rw [ih tail otherTail]

theorem Chain.allocated {head : Option Addr} {addrs : List Addr}
    (linked : Chain heap next head addrs) :
    ∀ addr ∈ addrs, ∃ cell, heap addr = some cell := by
  induction addrs generalizing head with
  | nil => intro addr member; simp at member
  | cons first rest ih =>
      obtain ⟨_, cell, loaded, tail⟩ := linked
      intro addr member
      rcases List.mem_cons.mp member with here | later
      · exact ⟨cell, by rw [here, loaded]⟩
      · exact ih tail addr later

theorem Chain.head_mem {head : Option Addr} {addrs : List Addr} {addr : Addr}
    (linked : Chain heap next head addrs) (isHead : head = some addr) : addr ∈ addrs := by
  cases addrs with
  | nil =>
      rw [isHead] at linked
      cases linked
  | cons first rest =>
      rw [isHead] at linked
      rw [Option.some.inj linked.1]
      exact List.mem_cons_self

/-- The chain from a cell in the middle is the rest of the list. -/
theorem Chain.from_middle {head : Option Addr} {front back : List Addr} {addr : Addr}
    (linked : Chain heap next head (front ++ addr :: back)) :
    Chain heap next (some addr) (addr :: back) := by
  induction front generalizing head with
  | nil =>
      obtain ⟨_, found⟩ := linked
      exact ⟨rfl, found⟩
  | cons first rest ih =>
      obtain ⟨_, cell, _, tail⟩ := linked
      exact ih tail

theorem Chain.nodup {head : Option Addr} {addrs : List Addr}
    (linked : Chain heap next head addrs) : addrs.Nodup := by
  induction addrs generalizing head with
  | nil => exact List.nodup_nil
  | cons addr rest ih =>
      have whole := linked
      obtain ⟨isHead, cell, _, tail⟩ := linked
      rw [List.nodup_cons]
      refine ⟨?_, ih tail⟩
      intro again
      -- a second visit would be followed by the same, shorter, list
      obtain ⟨front, back, split⟩ := List.append_of_mem again
      rw [split] at tail
      have fromAgain := Chain.from_middle tail
      rw [isHead] at whole
      have same := congrArg List.length (whole.unique fromAgain)
      rw [split] at same
      simp only [List.length_cons, List.length_append] at same
      omega

/-- The successor of a cell of the chain is the next one on it. -/
theorem Chain.successor {head : Option Addr} {addrs : List Addr}
    (linked : Chain heap next head addrs) {addr after : Addr} {cell : Cell} (member : addr ∈ addrs)
    (loaded : heap addr = some cell) (toAfter : next cell = some after) :
    ∃ front back, addrs = front ++ addr :: after :: back := by
  obtain ⟨front, back, split⟩ := List.append_of_mem member
  subst split
  obtain ⟨_, found, foundLoaded, tail⟩ := linked.from_middle
  rw [loaded, Option.some.injEq] at foundLoaded
  rw [← foundLoaded, toAfter] at tail
  cases back with
  | nil => cases tail
  | cons behind rest =>
      have isAfter : some after = some behind := tail.1
      rw [Option.some.inj isAfter]
      exact ⟨front, rest, rfl⟩

/-- A chain only depends on the `next` fields of its own cells. -/
theorem Chain.congr {otherHeap : Addr → Option Cell} {head : Option Addr} {addrs : List Addr}
    (linked : Chain heap next head addrs)
    (sameNext : ∀ addr ∈ addrs, ∀ cell, heap addr = some cell →
      ∃ other, otherHeap addr = some other ∧ next other = next cell) :
    Chain otherHeap next head addrs := by
  induction addrs generalizing head with
  | nil => exact linked
  | cons addr rest ih =>
      obtain ⟨isHead, cell, loaded, tail⟩ := linked
      obtain ⟨other, otherLoaded, same⟩ := sameNext addr (by simp) cell loaded
      refine ⟨isHead, other, otherLoaded, ?_⟩
      rw [same]
      exact ih tail (fun addr member => sameNext addr (by simp [member]))

section Update

variable [DecidableEq Addr]

theorem Chain.update_off {head : Option Addr} {addrs : List Addr}
    (linked : Chain heap next head addrs) (addr : Addr) (content : Option Cell)
    (off : addr ∉ addrs) : Chain (Function.update heap addr content) next head addrs := by
  apply linked.congr
  intro visited member cell loaded
  have different : visited ≠ addr := fun same => off (same ▸ member)
  exact ⟨cell, by rw [Function.update_of_ne different, loaded], rfl⟩

/-- A new cell in front of the chain. -/
theorem Chain.push {head : Option Addr} {addrs : List Addr}
    (linked : Chain heap next head addrs) (fresh : Addr) (cell : Cell)
    (off : fresh ∉ addrs) (toHead : next cell = head) :
    Chain (Function.update heap fresh (some cell)) next (some fresh) (fresh :: addrs) := by
  refine ⟨rfl, cell, Function.update_self _ _ _, ?_⟩
  rw [toHead]
  exact linked.update_off fresh (some cell) off

/-- A new cell behind the last one. -/
theorem Chain.snoc {head : Option Addr} {front : List Addr} {last fresh : Addr}
    (linked : Chain heap next head (front ++ [last])) (off : fresh ∉ front ++ [last])
    (relinked cell : Cell) (toFresh : next relinked = some fresh) (ends : next cell = none) :
    Chain (Function.update (Function.update heap fresh (some cell)) last (some relinked)) next head
      (front ++ [last] ++ [fresh]) := by
  have distinct := linked.nodup
  rw [List.nodup_append] at distinct
  have lastNe : fresh ≠ last := fun same => off (by simp [same])
  induction front generalizing head with
  | nil =>
      refine ⟨linked.1, relinked, Function.update_self _ _ _, toFresh, cell, ?_, ends⟩
      rw [Function.update_of_ne lastNe, Function.update_self]
  | cons first rest ih =>
      obtain ⟨isHead, firstCell, loaded, tail⟩ := linked
      have firstNe : first ≠ last := distinct.2.2 first (by simp) last (by simp)
      have firstNeFresh : first ≠ fresh := fun same => off (by simp [same])
      refine ⟨isHead, firstCell, ?_, ?_⟩
      · rw [Function.update_of_ne firstNe, Function.update_of_ne firstNeFresh, loaded]
      · refine ih tail (fun member => off (by simp at member ⊢; tauto)) ?_
        refine ⟨(List.nodup_cons.mp distinct.1).2, distinct.2.1, ?_⟩
        intro addr inRest
        exact distinct.2.2 addr (by simp [inRest])

/-- A cell taken out between its predecessor and the rest of the chain. -/
theorem Chain.unlink {head : Option Addr} {front back : List Addr} {previous addr : Addr}
    (linked : Chain heap next head (front ++ previous :: addr :: back))
    {cell : Cell} (relinked : Cell) (loaded : heap addr = some cell)
    (skips : next relinked = next cell) :
    Chain (Function.update (Function.update heap previous (some relinked)) addr none) next head
      (front ++ previous :: back) := by
  have distinct := linked.nodup
  rw [List.nodup_append, List.nodup_cons, List.nodup_cons] at distinct
  obtain ⟨-, ⟨notAgain, addrOff, -⟩, apart⟩ := distinct
  have previousNe : previous ≠ addr := fun same => notAgain (by simp [same])
  have backOff : previous ∉ back := fun member => notAgain (by simp [member])
  have frontOff : addr ∉ front := fun member => apart addr member addr (by simp) rfl
  induction front generalizing head with
  | nil =>
      obtain ⟨isHead, previousCell, _, tail⟩ := linked
      obtain ⟨_, addrCell, addrLoaded, rest⟩ := tail
      rw [loaded, Option.some.injEq] at addrLoaded
      subst addrCell
      refine ⟨isHead, relinked, ?_, ?_⟩
      · rw [Function.update_of_ne previousNe, Function.update_self]
      · rw [skips]
        exact (rest.update_off previous _ backOff).update_off addr _ addrOff
  | cons first rest ih =>
      obtain ⟨isHead, firstCell, firstLoaded, tail⟩ := linked
      have firstNe : first ≠ addr := fun same => frontOff (by simp [same])
      have firstNePrevious : first ≠ previous :=
        fun same => apart first (by simp) previous (by simp) same
      refine ⟨isHead, firstCell, ?_, ?_⟩
      · rw [Function.update_of_ne firstNe, Function.update_of_ne firstNePrevious, firstLoaded]
      · exact ih tail (fun a inRest => apart a (by simp [inRest]))
          (fun member => frontOff (by simp [member]))

end Update

end OsLabs.Linked
