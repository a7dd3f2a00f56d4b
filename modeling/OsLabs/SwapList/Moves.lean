import OsLabs.SwapList.Walkers

/-!
# The statements of the walkers

`Move` has one rule for each way a statement can go; a pointer that was
followed is an equation of the rule.
-/

set_option autoImplicit false

namespace OsLabs.SwapList

open OsLabs.FixedString

variable {n : Nat}

/-- The pair of nodes that a walker stands on. -/
structure Pair (s : State n) (current : Addr) (node : Node) (next : Addr) (nextNode : Node) :
    Prop where
  loaded : s.list.heap current = some node
  linked : node.next = some next
  nextLoaded : s.list.heap next = some nextNode

inductive Move (routine : Fin n → Routine) (s : State n) (action : Action n) : State n → Prop where
  | crash : Move routine s action s.crash
  | lockFirst {first : Addr} (here : s.pc action.thread = .lockFirst)
      (isFirst : s.list.first = some first) (free : s.owner (.node first) = none) :
      Move routine s action
        { s.goto action.thread .readFirst with
          owner := Function.update s.owner (.node first) (some action.thread) }
  | readFirst (here : s.pc action.thread = .readFirst) :
      Move routine s action (s.goto action.thread (.unlockFirst s.list.first))
  | unlockFirst {current : Option Addr} {first : Addr}
      (here : s.pc action.thread = .unlockFirst current) (isFirst : s.list.first = some first) :
      Move routine s action
        { s.goto action.thread (.test current) with
          owner := Function.update s.owner (.node first) none
          count := Function.update s.count action.thread 0 }
  | leaves {current : Option Addr} (here : s.pc action.thread = .test current) :
      Move routine s action (s.goto action.thread (routine action.thread).again)
  | enters {current next : Addr} {node : Node} (here : s.pc action.thread = .test (some current))
      (loaded : s.list.heap current = some node) (linked : node.next = some next) :
      Move routine s action (s.goto action.thread (.lockCurrent current))
  | lockCurrent {current : Addr} (here : s.pc action.thread = .lockCurrent current)
      (free : s.owner (.node current) = none) :
      Move routine s action
        { s.goto action.thread (.lockNext current) with
          owner := Function.update s.owner (.node current) (some action.thread) }
  | lockNext {current next : Addr} {node nextNode : Node} {pc : Pc}
      (here : s.pc action.thread = .lockNext current) (pair : Pair s current node next nextNode)
      (free : s.owner (.node next) = none)
      (goes : pc = .rand current ∨ pc = .strlenCurrent current 0) :
      Move routine s action
        { s.goto action.thread pc with
          owner := Function.update s.owner (.node next) (some action.thread) }
  | strlenCurrentByte {current : Addr} {length : Nat} {node : Node}
      (here : s.pc action.thread = .strlenCurrent current length)
      (loaded : s.list.heap current = some node) (inside : length < maxLen)
      (byte : node.value ⟨length, inside⟩ ≠ 0) :
      Move routine s action (s.goto action.thread (.strlenCurrent current (length + 1)))
  | strlenCurrentNul {current : Addr} {length : Nat} {node : Node}
      (here : s.pc action.thread = .strlenCurrent current length)
      (loaded : s.list.heap current = some node) (inside : length < maxLen)
      (nul : node.value ⟨length, inside⟩ = 0) :
      Move routine s action (s.goto action.thread (.strlenNext current length 0))
  | strlenNextByte {current next : Addr} {length nextLength : Nat} {node nextNode : Node}
      (here : s.pc action.thread = .strlenNext current length nextLength)
      (pair : Pair s current node next nextNode) (inside : nextLength < maxLen)
      (byte : nextNode.value ⟨nextLength, inside⟩ ≠ 0) :
      Move routine s action (s.goto action.thread (.strlenNext current length (nextLength + 1)))
  | strlenNextNul {current next : Addr} {length nextLength : Nat} {node nextNode : Node}
      (here : s.pc action.thread = .strlenNext current length nextLength)
      (pair : Pair s current node next nextNode) (inside : nextLength < maxLen)
      (nul : nextNode.value ⟨nextLength, inside⟩ = 0) :
      Move routine s action (s.goto action.thread (.compare current length nextLength))
  | compare {current : Addr} {length nextLength : Nat}
      (here : s.pc action.thread = .compare current length nextLength) (count : Fin n → Nat) :
      Move routine s action { s.goto action.thread (.unlockCurrent current) with count := count }
  | skips {current : Addr} (here : s.pc action.thread = .rand current) :
      Move routine s action (s.goto action.thread (.unlockCurrent current))
  | sameNode {current : Addr} {node : Node} (here : s.pc action.thread = .rand current)
      (loaded : s.list.heap current = some node) (linked : node.next = some current) :
      Move routine s action
        { s.goto action.thread (.counting .swap (some current) .lock) with swaps := s.swaps + 1 }
  | swaps {current : Addr} (here : s.pc action.thread = .rand current) :
      Move routine s action (s.goto action.thread (.copyTmp current action.tmp .start))
  | copyTmpByte {current : Addr} {tmp : Value} {copy : Copy} {node : Node}
      (here : s.pc action.thread = .copyTmp current tmp copy)
      (loaded : s.list.heap current = some node) (more : copy.done < maxLen) :
      Move routine s action
        (s.goto action.thread
          (.copyTmp current (copyByte node.value tmp ⟨copy.done, more⟩ copy.ended).1
            (copyByte node.value tmp ⟨copy.done, more⟩ copy.ended).2))
  | copyTmpDone {current : Addr} {tmp : Value} {copy : Copy}
      (here : s.pc action.thread = .copyTmp current tmp copy) (all : maxLen ≤ copy.done) :
      Move routine s action (s.goto action.thread (.copyCurrent current tmp .start))
  | copyCurrentByte {current next : Addr} {tmp : Value} {copy : Copy} {node nextNode : Node}
      (here : s.pc action.thread = .copyCurrent current tmp copy)
      (pair : Pair s current node next nextNode) (more : copy.done < maxLen) :
      Move routine s action
        ((s.setValue current node
            (copyByte nextNode.value node.value ⟨copy.done, more⟩ copy.ended).1).goto action.thread
          (.copyCurrent current tmp
            (copyByte nextNode.value node.value ⟨copy.done, more⟩ copy.ended).2))
  | copyCurrentDone {current : Addr} {tmp : Value} {copy : Copy}
      (here : s.pc action.thread = .copyCurrent current tmp copy) (all : maxLen ≤ copy.done) :
      Move routine s action (s.goto action.thread (.copyNext current tmp .start))
  | copyNextByte {current next : Addr} {tmp : Value} {copy : Copy} {node nextNode : Node}
      (here : s.pc action.thread = .copyNext current tmp copy)
      (pair : Pair s current node next nextNode) (more : copy.done < maxLen) :
      Move routine s action
        ((s.setValue next nextNode
            (copyByte tmp nextNode.value ⟨copy.done, more⟩ copy.ended).1).goto action.thread
          (.copyNext current tmp (copyByte tmp nextNode.value ⟨copy.done, more⟩ copy.ended).2))
  | copyNextDone {current : Addr} {tmp : Value} {copy : Copy}
      (here : s.pc action.thread = .copyNext current tmp copy) (all : maxLen ≤ copy.done) :
      Move routine s action
        { s.goto action.thread (.counting .swap (some current) .lock) with swaps := s.swaps + 1 }
  | countLock {sync : Sync} {inside : Option Addr}
      (here : s.pc action.thread = .counting sync inside .lock)
      (free : s.owner (.stat sync) = none) :
      Move routine s action
        { s.goto action.thread (.counting sync inside .load) with
          owner := Function.update s.owner (.stat sync) (some action.thread) }
  | countLoad {sync : Sync} {inside : Option Addr}
      (here : s.pc action.thread = .counting sync inside .load) :
      Move routine s action (s.goto action.thread (.counting sync inside (.store (s.stat sync))))
  | countStore {sync : Sync} {inside : Option Addr} {value : Int}
      (here : s.pc action.thread = .counting sync inside (.store value)) :
      Move routine s action
        { s.goto action.thread (.counting sync inside .unlock) with
          stat := Function.update s.stat sync (value + 1) }
  | countUnlockInside {sync : Sync} {current : Addr}
      (here : s.pc action.thread = .counting sync (some current) .unlock) :
      Move routine s action
        { s.goto action.thread (.unlockCurrent current) with
          owner := Function.update s.owner (.stat sync) none }
  | countUnlock {sync : Sync} (here : s.pc action.thread = .counting sync none .unlock) :
      Move routine s action
        { s.goto action.thread .lockFirst with
          owner := Function.update s.owner (.stat sync) none }
  | unlockCurrent {current : Addr} (here : s.pc action.thread = .unlockCurrent current) :
      Move routine s action
        { s.goto action.thread (.unlockNext current) with
          owner := Function.update s.owner (.node current) none }
  | unlockNext {current next : Addr} {node nextNode : Node}
      (here : s.pc action.thread = .unlockNext current) (pair : Pair s current node next nextNode) :
      Move routine s action
        { s.goto action.thread (.advance current) with
          owner := Function.update s.owner (.node next) none }
  | advance {current : Addr} {node : Node} (here : s.pc action.thread = .advance current)
      (loaded : s.list.heap current = some node) :
      Move routine s action (s.goto action.thread (.test node.next))
  | sleep (here : s.pc action.thread = .sleep) :
      Move routine s action (s.goto action.thread (.printLock .inc))
  | printLock {sync : Sync} (here : s.pc action.thread = .printLock sync)
      (free : s.owner (.stat sync) = none) :
      Move routine s action
        { s.goto action.thread (sync.next.elim .print .printLock) with
          owner := Function.update s.owner (.stat sync) (some action.thread) }
  | print (here : s.pc action.thread = .print) :
      Move routine s action (s.goto action.thread (.printUnlock .inc))
  | printUnlock {sync : Sync} (here : s.pc action.thread = .printUnlock sync) :
      Move routine s action
        { s.goto action.thread (sync.next.elim .sleep .printUnlock) with
          owner := Function.update s.owner (.stat sync) none }

section Inversion

variable {routine : Fin n → Routine} {s next : State n} {action : Action n}

theorem load_cases {pointer : Option Addr} {rest : Addr → Node → Option (State n)}
    (ran : s.load pointer rest = some next) :
    next = s.crash ∨
      ∃ addr node, pointer = some addr ∧ s.list.heap addr = some node ∧
        rest addr node = some next := by
  cases pointer with
  | none =>
      cases ran
      exact Or.inl rfl
  | some addr =>
      cases loaded : s.list.heap addr with
      | none =>
          simp only [State.load, loaded] at ran
          cases ran
          exact Or.inl rfl
      | some node =>
          simp only [State.load, loaded] at ran
          exact Or.inr ⟨addr, node, rfl, loaded, ran⟩

theorem loadPair_cases {current : Addr} {rest : Node → Addr → Node → Option (State n)}
    (ran : s.loadPair current rest = some next) :
    next = s.crash ∨ ∃ node successor nextNode, Pair s current node successor nextNode ∧
      rest node successor nextNode = some next := by
  rcases load_cases ran with crashed | ⟨addr, node, isCurrent, loaded, ran⟩
  · exact Or.inl crashed
  · cases isCurrent
    rcases load_cases ran with crashed | ⟨successor, nextNode, linked, nextLoaded, ran⟩
    · exact Or.inl crashed
    · exact Or.inr ⟨node, successor, nextNode, ⟨loaded, linked, nextLoaded⟩, ran⟩

theorem acquire_cases {thread : Fin n} {lock : Lock} {pc : Pc}
    (ran : s.acquire thread lock pc = some next) :
    s.owner lock = none ∧
      next = { s.goto thread pc with owner := Function.update s.owner lock (some thread) } := by
  unfold State.acquire at ran
  split at ran
  · rename_i free
    cases ran
    exact ⟨free, rfl⟩
  · cases ran

theorem strlenByte_cases {thread : Fin n} {value : Value} {length : Nat} {more done : Pc}
    (ran : strlenByte s thread value length more done = some next) :
    next = s.crash ∨ ∃ inside : length < maxLen,
      (value ⟨length, inside⟩ = 0 ∧ next = s.goto thread done) ∨
        (value ⟨length, inside⟩ ≠ 0 ∧ next = s.goto thread more) := by
  unfold strlenByte at ran
  split at ran
  · rename_i inside
    refine Or.inr ⟨inside, ?_⟩
    split at ran
    · rename_i nul
      cases ran
      exact Or.inl ⟨nul, rfl⟩
    · rename_i byte
      cases ran
      exact Or.inr ⟨byte, rfl⟩
  · cases ran
    exact Or.inl rfl

theorem countingStep_move {sync : Sync} {inside : Option Addr} {stage : Stage}
    (here : s.pc action.thread = .counting sync inside stage)
    (ran : countingStep s action.thread sync inside stage = some next) :
    Move routine s action next := by
  cases stage with
  | lock =>
      obtain ⟨free, isNext⟩ := acquire_cases ran
      subst isNext
      exact .countLock here free
  | load =>
      cases ran
      exact .countLoad here
  | store value =>
      cases ran
      exact .countStore here
  | unlock =>
      cases inside with
      | some current =>
          cases ran
          exact .countUnlockInside here
      | none =>
          cases ran
          exact .countUnlock here

theorem step_move (stepped : step routine s action = some next) : Move routine s action next := by
  unfold step at stepped
  simp only at stepped
  split at stepped
  · cases stepped
  cases here : s.pc action.thread with
  | lockFirst =>
      simp only [here] at stepped
      rcases load_cases stepped with rfl | ⟨first, node, isFirst, loaded, ran⟩
      · exact .crash
      · obtain ⟨free, rfl⟩ := acquire_cases ran
        exact .lockFirst here isFirst free
  | readFirst =>
      simp only [here] at stepped
      cases stepped
      exact .readFirst here
  | unlockFirst current =>
      simp only [here] at stepped
      rcases load_cases stepped with rfl | ⟨first, node, isFirst, loaded, ran⟩
      · exact .crash
      · cases ran
        exact .unlockFirst here isFirst
  | test current =>
      cases current with
      | none =>
          simp only [here] at stepped
          cases stepped
          exact .leaves here
      | some current =>
          simp only [here] at stepped
          rcases load_cases stepped with rfl | ⟨addr, node, isCurrent, loaded, ran⟩
          · exact .crash
          · cases isCurrent
            cases linked : node.next with
            | none =>
                simp only [linked, Option.isSome_none, Bool.false_eq_true, if_false] at ran
                cases ran
                exact .leaves here
            | some after =>
                simp only [linked, Option.isSome_some, if_true] at ran
                cases ran
                exact .enters here loaded linked
  | lockCurrent current =>
      simp only [here] at stepped
      rcases load_cases stepped with rfl | ⟨addr, node, isCurrent, loaded, ran⟩
      · exact .crash
      · obtain ⟨free, rfl⟩ := acquire_cases ran
        exact .lockCurrent here free
  | lockNext current =>
      simp only [here] at stepped
      rcases loadPair_cases stepped with rfl | ⟨node, after, nextNode, pair, ran⟩
      · exact .crash
      · obtain ⟨free, rfl⟩ := acquire_cases ran
        refine .lockNext here pair free ?_
        split
        · exact Or.inl rfl
        · exact Or.inr rfl
  | strlenCurrent current length =>
      simp only [here] at stepped
      rcases load_cases stepped with rfl | ⟨addr, node, isCurrent, loaded, ran⟩
      · exact .crash
      · cases isCurrent
        rcases strlenByte_cases ran with rfl | ⟨inside, ⟨nul, rfl⟩ | ⟨byte, rfl⟩⟩
        · exact .crash
        · exact .strlenCurrentNul here loaded inside nul
        · exact .strlenCurrentByte here loaded inside byte
  | strlenNext current length nextLength =>
      simp only [here] at stepped
      rcases loadPair_cases stepped with rfl | ⟨node, after, nextNode, pair, ran⟩
      · exact .crash
      · rcases strlenByte_cases ran with rfl | ⟨inside, ⟨nul, rfl⟩ | ⟨byte, rfl⟩⟩
        · exact .crash
        · exact .strlenNextNul here pair inside nul
        · exact .strlenNextByte here pair inside byte
  | compare current length nextLength =>
      simp only [here] at stepped
      cases stepped
      exact .compare here _
  | rand current =>
      simp only [here] at stepped
      split at stepped
      · rcases load_cases stepped with rfl | ⟨addr, node, isCurrent, loaded, ran⟩
        · exact .crash
        · cases isCurrent
          split at ran
          · rename_i linked
            cases ran
            exact .sameNode here loaded linked
          · cases ran
            exact .swaps here
      · cases stepped
        exact .skips here
  | copyTmp current tmp copy =>
      simp only [here] at stepped
      split at stepped
      · rename_i more
        rcases load_cases stepped with rfl | ⟨addr, node, isCurrent, loaded, ran⟩
        · exact .crash
        · cases isCurrent
          cases ran
          exact .copyTmpByte here loaded more
      · rename_i all
        cases stepped
        exact .copyTmpDone here (Nat.not_lt.mp all)
  | copyCurrent current tmp copy =>
      simp only [here] at stepped
      split at stepped
      · rename_i more
        rcases loadPair_cases stepped with rfl | ⟨node, after, nextNode, pair, ran⟩
        · exact .crash
        · cases ran
          exact .copyCurrentByte here pair more
      · rename_i all
        cases stepped
        exact .copyCurrentDone here (Nat.not_lt.mp all)
  | copyNext current tmp copy =>
      simp only [here] at stepped
      split at stepped
      · rename_i more
        rcases loadPair_cases stepped with rfl | ⟨node, after, nextNode, pair, ran⟩
        · exact .crash
        · cases ran
          exact .copyNextByte here pair more
      · rename_i all
        cases stepped
        exact .copyNextDone here (Nat.not_lt.mp all)
  | counting sync inside stage =>
      simp only [here] at stepped
      exact countingStep_move here stepped
  | unlockCurrent current =>
      simp only [here] at stepped
      rcases load_cases stepped with rfl | ⟨addr, node, isCurrent, loaded, ran⟩
      · exact .crash
      · cases ran
        exact .unlockCurrent here
  | unlockNext current =>
      simp only [here] at stepped
      rcases loadPair_cases stepped with rfl | ⟨node, after, nextNode, pair, ran⟩
      · exact .crash
      · cases ran
        exact .unlockNext here pair
  | advance current =>
      simp only [here] at stepped
      rcases load_cases stepped with rfl | ⟨addr, node, isCurrent, loaded, ran⟩
      · exact .crash
      · cases isCurrent
        cases ran
        exact .advance here loaded
  | sleep =>
      simp only [here] at stepped
      cases stepped
      exact .sleep here
  | printLock sync =>
      simp only [here] at stepped
      obtain ⟨free, rfl⟩ := acquire_cases stepped
      cases sync <;> exact .printLock here free
  | print =>
      simp only [here] at stepped
      cases stepped
      exact .print here
  | printUnlock sync =>
      simp only [here] at stepped
      cases stepped
      cases sync <;> exact .printUnlock here

end Inversion

end OsLabs.SwapList
