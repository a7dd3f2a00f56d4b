import Mathlib.Data.Multiset.Basic
import Mathlib.Logic.Equiv.Basic
import OsLabs.Lib.Counting
import OsLabs.SwapList.Ownership

/-!
# Swaps of neighbours

Each node has a settled value, which it holds unless a `list_swap` is under way
there.  A swap of settled values takes place at once, when `list_swap` is over;
until then the walker that runs it has the locks of both nodes, and its
statement tells what they and `tmp` hold.
-/

set_option autoImplicit false

namespace OsLabs.SwapList

open OsLabs.Counting OsLabs.Exclusive OsLabs.FixedString OsLabs.Linked OsLabs.Transition

variable {n : Nat}

/-- Inside `list_swap` of a node and the next one. -/
def Pc.swapping : Pc → Option Addr
  | .copyTmp current _ _ | .copyCurrent current _ _ | .copyNext current _ _ => some current
  | _ => none

/-- After `list_swap` and before the counter says so. -/
def Pc.pending : Pc → Bool
  | .counting .swap _ stage => stage ≠ .unlock
  | _ => false

/-- Neither strings nor nodes get lost, lengths are compared of whole strings,
and swaps are counted. -/
structure Intact (inserts : Inserts) (s : State n) : Prop where
  chain : Chain s.list.heap Node.next s.list.first inserts.addrs
  strings : (∀ thread, (s.pc thread).swapping = none) →
    (s.list.values inserts.addrs : Multiset Value) =
      ↑(inserts.strs.map fun pair => pair.2.value)
  compares : ∀ thread current length nextLength,
    s.pc thread = .compare current length nextLength → ∃ node next nextNode,
      Pair s current node next nextNode ∧ strlen node.value = length ∧
      strlen nextNode.value = nextLength ∧
      node.value ∈ inserts.strs.map (fun pair => pair.2.value) ∧
      nextNode.value ∈ inserts.strs.map (fun pair => pair.2.value) ∧
      ∀ other first, (s.pc other).swapping = some first → ∀ addr,
        addr = first ∨ s.list.next first = some addr → addr ≠ current ∧ addr ≠ next
  counted : s.stat .swap + count Pc.pending s.pc = s.swaps

/-! ## What a statement knows -/

/-- The nodes that a walker has written in its `list_swap`. -/
def Pc.Writes (list : Storage) (addr : Addr) : Pc → Prop
  | .copyCurrent current _ _ => addr = current
  | .copyNext current _ _ => addr = current ∨ list.next current = some addr
  | _ => False

/-- What a walker has read of the settled values, and what it has made of the
nodes that it writes. -/
def Pc.Local (list : Storage) (heap : Addr → Option Node) (values : Addr → Value) : Pc → Prop
  | .strlenCurrent current length =>
      ∀ index : Fin maxLen, index.val < length → values current index ≠ 0
  | .strlenNext current length nextLength =>
      strlen (values current) = length ∧ ∀ next, list.next current = some next →
        ∀ index : Fin maxLen, index.val < nextLength → values next index ≠ 0
  | .compare current length nextLength =>
      strlen (values current) = length ∧ ∀ next, list.next current = some next →
        strlen (values next) = nextLength
  | .copyTmp current tmp copy =>
      (∃ before, tmp = mix (values current) before copy.done) ∧ copy.Right (values current)
  | .copyCurrent current tmp copy =>
      tmp = values current ∧ ∀ next, list.next current = some next →
        copy.Right (values next) ∧ ∀ node, heap current = some node →
          node.value = mix (values next) (values current) copy.done
  | .copyNext current tmp copy =>
      tmp = values current ∧ copy.Right (values current) ∧
        ∀ next, list.next current = some next →
          (∀ node, heap current = some node → node.value = values next) ∧
          ∀ node, heap next = some node → node.value = mix (values current) (values next) copy.done
  | _ => True

theorem writes_holds {list : Storage} {pc : Pc} {addr : Addr} (writes : pc.Writes list addr) :
    pc.HoldsNode list addr := by
  cases pc with
  | copyCurrent current tmp copy => exact Or.inl writes
  | copyNext current tmp copy => exact writes
  | _ => cases writes

/-- Only the nodes that a walker holds matter to it. -/
theorem local_congr {list : Storage} {heap otherHeap : Addr → Option Node}
    {values otherValues : Addr → Value} {pc : Pc}
    (same : ∀ addr, pc.HoldsNode list addr →
      otherHeap addr = heap addr ∧ otherValues addr = values addr)
    (before : pc.Local list heap values) : pc.Local list otherHeap otherValues := by
  cases pc with
  | strlenCurrent current length =>
      have here := same current (Or.inl rfl)
      simpa only [Pc.Local, here.2] using before
  | strlenNext current length nextLength =>
      have here := same current (Or.inl rfl)
      refine ⟨by rw [here.2]; exact before.1, fun next linked => ?_⟩
      rw [(same next (Or.inr linked)).2]
      exact before.2 next linked
  | compare current length nextLength =>
      have here := same current (Or.inl rfl)
      refine ⟨by rw [here.2]; exact before.1, fun next linked => ?_⟩
      rw [(same next (Or.inr linked)).2]
      exact before.2 next linked
  | copyTmp current tmp copy =>
      have here := same current (Or.inl rfl)
      simpa only [Pc.Local, here.2] using before
  | copyCurrent current tmp copy =>
      have here := same current (Or.inl rfl)
      refine ⟨by rw [here.2]; exact before.1, fun next linked => ?_⟩
      rw [(same next (Or.inr linked)).2, here.1, here.2]
      exact before.2 next linked
  | copyNext current tmp copy =>
      have here := same current (Or.inl rfl)
      obtain ⟨isTmp, right, nodes⟩ := before
      refine ⟨by rw [here.2]; exact isTmp, by rw [here.2]; exact right, fun next linked => ?_⟩
      have there := same next (Or.inr linked)
      rw [there.1, there.2, here.1, here.2]
      exact nodes next linked
  | _ => trivial

structure Swapping (inserts : Inserts) (values : Addr → Value) (s : State n) : Prop where
  owned : Owned inserts s
  padded : ∀ addr ∈ inserts.addrs, Padded (values addr)
  strings : (inserts.addrs.map values).Perm (inserts.strs.map fun pair => pair.2.value)
  settled : ∀ addr node, s.list.heap addr = some node →
    (∀ thread, ¬ (s.pc thread).Writes inserts.list addr) → node.value = values addr
  knows : ∀ thread, (s.pc thread).Local inserts.list s.list.heap values

section Steps

variable {inserts : Inserts} {values after : Addr → Value} {s next : State n} {thread : Fin n}
  {old pc : Pc}

/-- A node that a walker holds and does not write is settled. -/
theorem Swapping.held_value (swapping : Swapping inserts values s) {addr : Addr} {node : Node}
    (here : s.pc thread = old) (holds : old.HoldsNode inserts.list addr)
    (unwritten : ¬ old.Writes inserts.list addr) (loaded : s.list.heap addr = some node) :
    node.value = values addr := by
  subst here
  refine swapping.settled addr node loaded fun other writes => ?_
  have same : other = thread := swapping.owned.same_holder (writes_holds writes) holds
  rw [same] at writes
  exact unwritten writes

/-- A step of one walker on nodes that it holds. -/
theorem Swapping.acts (swapping : Swapping inserts values s) (owned : Owned inserts next)
    (here : s.pc thread = old) (isNext : next.pc = Function.update s.pc thread pc)
    (frame : ∀ addr, ¬ old.HoldsNode inserts.list addr →
      next.list.heap addr = s.list.heap addr ∧ after addr = values addr)
    (padded : ∀ addr ∈ inserts.addrs, Padded (after addr))
    (strings : (inserts.addrs.map after).Perm (inserts.strs.map fun pair => pair.2.value))
    (settled : ∀ addr node, old.HoldsNode inserts.list addr →
      next.list.heap addr = some node → ¬ pc.Writes inserts.list addr → node.value = after addr)
    (knows : pc.Local inserts.list next.list.heap after) : Swapping inserts after next := by
  subst here
  refine ⟨owned, padded, strings, ?_, ?_⟩
  · intro addr node loaded nobody
    by_cases holds : (s.pc thread).HoldsNode inserts.list addr
    · have unwritten := nobody thread
      rw [isNext, Function.update_self] at unwritten
      exact settled addr node holds loaded unwritten
    · obtain ⟨sameNode, sameValue⟩ := frame addr holds
      rw [sameNode] at loaded
      rw [sameValue]
      refine swapping.settled addr node loaded fun other writes => ?_
      by_cases same : other = thread
      · rw [same] at writes
        exact holds (writes_holds writes)
      · have unwritten := nobody other
        rw [isNext, Function.update_of_ne same] at unwritten
        exact unwritten writes
  · intro other
    rw [isNext]
    by_cases same : other = thread
    · rw [same, Function.update_self]
      exact knows
    · rw [Function.update_of_ne same]
      refine local_congr (fun addr holds => frame addr fun threadHolds => same ?_)
        (swapping.knows other)
      exact swapping.owned.same_holder holds threadHolds

/-- A step that leaves the nodes as they are. -/
theorem Swapping.reads (swapping : Swapping inserts values s) (owned : Owned inserts next)
    (here : s.pc thread = old) (isNext : next.pc = Function.update s.pc thread pc)
    (sameList : next.list = s.list)
    (more : ∀ addr, old.Writes inserts.list addr → pc.Writes inserts.list addr)
    (knows : pc.Local inserts.list s.list.heap values) : Swapping inserts values next := by
  refine swapping.acts owned here isNext (fun _ _ => ⟨by rw [sameList], rfl⟩) swapping.padded
    swapping.strings ?_ (by rw [sameList]; exact knows)
  intro addr node holds loaded unwritten
  rw [sameList] at loaded
  exact swapping.held_value here holds (fun writes => unwritten (more addr writes)) loaded

theorem Swapping.knows_here (swapping : Swapping inserts values s) (here : s.pc thread = old) :
    old.At inserts.list inserts.addrs ∧ old.Local inserts.list s.list.heap values := by
  subst here
  exact ⟨swapping.owned.located thread, swapping.knows thread⟩

theorem swap_mem {current link : Addr} (member : current ∈ inserts.addrs)
    (linkMember : link ∈ inserts.addrs) (addr : Addr) (inList : addr ∈ inserts.addrs) :
    Equiv.swap current link addr ∈ inserts.addrs := by
  by_cases isCurrent : addr = current
  · rw [isCurrent, Equiv.swap_apply_left]
    exact linkMember
  · by_cases isLink : addr = link
    · rw [isLink, Equiv.swap_apply_right]
      exact member
    · rw [Equiv.swap_apply_of_ne_of_ne isCurrent isLink]
      exact inList

/-- The values of two nodes change places. -/
theorem swapped_strings {current link : Addr} (member : current ∈ inserts.addrs)
    (linkMember : link ∈ inserts.addrs) (values : Addr → Value) :
    (inserts.addrs.map (values ∘ Equiv.swap current link)).Perm (inserts.addrs.map values) := by
  rw [← List.map_map]
  refine List.Perm.map values ?_
  have distinct := inserts.chain.nodup
  rw [List.perm_ext_iff_of_nodup (distinct.map (Equiv.swap current link).injective) distinct]
  intro addr
  rw [List.mem_map]
  constructor
  · intro assumed
    obtain ⟨other, inList, rfl⟩ := assumed
    exact swap_mem member linkMember other inList
  · intro inList
    exact ⟨_, swap_mem member linkMember addr inList, Equiv.swap_apply_self _ _ _⟩

/-- The bytes read so far and the one at hand. -/
theorem one_more_byte {value : Value} {length : Nat} {inside : length < maxLen}
    (before : ∀ index : Fin maxLen, index.val < length → value index ≠ 0)
    (byte : value ⟨length, inside⟩ ≠ 0) :
    ∀ index : Fin maxLen, index.val < length + 1 → value index ≠ 0 := by
  intro index earlier
  rcases Nat.lt_succ_iff_lt_or_eq.mp earlier with isBefore | isHere
  · exact before index isBefore
  · have same : index = ⟨length, inside⟩ := Fin.ext isHere
    rw [same]
    exact byte

end Steps

/-! ## The steps of `list_swap` -/

section Copying

variable {inserts : Inserts} {values : Addr → Value} {s : State n} {thread : Fin n}
  {current link : Addr} {tmp : Value} {copy : Copy} {node nextNode : Node}

theorem setValue_value {addr : Addr} {value : Value} {written : Node}
    (loaded : (s.setValue addr node value).list.heap addr = some written) :
    written.value = value := by
  have isWritten := (Function.update_self _ _ _).symm.trans loaded
  cases isWritten
  rfl

theorem setValue_other {addr other : Addr} {value : Value} (elsewhere : other ≠ addr) :
    (s.setValue addr node value).list.heap other = s.list.heap other :=
  Function.update_of_ne elsewhere _ _

theorem copyTmp_byte (swapping : Swapping inserts values s)
    (here : s.pc thread = .copyTmp current tmp copy)
    (loaded : s.list.heap current = some node) (more : copy.done < maxLen) :
    Pc.Local inserts.list s.list.heap values
      (.copyTmp current (copyByte node.value tmp ⟨copy.done, more⟩ copy.ended).1
        (copyByte node.value tmp ⟨copy.done, more⟩ copy.ended).2) := by
  obtain ⟨located, ⟨before, isTmp⟩, right⟩ := swapping.knows_here here
  have isValue := swapping.held_value here (Or.inl rfl) id loaded
  obtain ⟨mixed, nextRight⟩ := copyByte_mix before (swapping.padded _ located.1) right more
  rw [isValue, isTmp]
  exact ⟨⟨before, mixed⟩, nextRight⟩

theorem copyTmp_done (swapping : Swapping inserts values s)
    (here : s.pc thread = .copyTmp current tmp copy) (all : maxLen ≤ copy.done) :
    Pc.Local inserts.list s.list.heap values (.copyCurrent current tmp .start) := by
  obtain ⟨-, ⟨before, isTmp⟩, -⟩ := swapping.knows_here here
  refine ⟨isTmp.trans (mix_all all), fun next linked => ⟨right_start _, fun node loaded => ?_⟩⟩
  exact (swapping.held_value here (Or.inl rfl) id loaded).trans (mix_start _ _).symm

/-- The byte is that of the next node, which nobody writes yet. -/
theorem copyCurrent_byte (swapping : Swapping inserts values s)
    (here : s.pc thread = .copyCurrent current tmp copy)
    (pair : Pair s current node link nextNode) (more : copy.done < maxLen) {next : State n}
    (owned : Owned inserts next)
    (isNext : next = (s.setValue current node
      (copyByte nextNode.value node.value ⟨copy.done, more⟩ copy.ended).1).goto thread
        (.copyCurrent current tmp
          (copyByte nextNode.value node.value ⟨copy.done, more⟩ copy.ended).2)) :
    Swapping inserts values next := by
  subst isNext
  obtain ⟨located, isTmp, nodes⟩ := swapping.knows_here here
  have linked := swapping.owned.linked pair.loaded pair.linked
  have linkValue := swapping.held_value here (Or.inr linked)
    (inserts.next_ne located.1 linked) pair.nextLoaded
  obtain ⟨right, isMix⟩ := nodes _ linked
  obtain ⟨mixed, nextRight⟩ := copyByte_mix (values current)
    (swapping.padded _ (inserts.next_mem located.1 linked)) right more
  rw [← isMix _ pair.loaded, ← linkValue] at mixed nextRight
  refine swapping.acts owned here rfl (fun addr away => ⟨?_, rfl⟩) swapping.padded
    swapping.strings (fun addr other holds loaded unwritten => ?_) ?_
  · exact setValue_other fun same => away (Or.inl same)
  · have elsewhere : addr ≠ current := unwritten
    exact swapping.held_value here holds unwritten ((setValue_other elsewhere).symm.trans loaded)
  · refine ⟨isTmp, fun other isOther => ?_⟩
    rw [linked] at isOther
    cases isOther
    rw [← linkValue]
    exact ⟨nextRight, fun written loaded => (setValue_value loaded).trans mixed⟩

theorem copyCurrent_done (swapping : Swapping inserts values s)
    (here : s.pc thread = .copyCurrent current tmp copy) (all : maxLen ≤ copy.done) :
    Pc.Local inserts.list s.list.heap values (.copyNext current tmp .start) := by
  obtain ⟨located, isTmp, nodes⟩ := swapping.knows_here here
  refine ⟨isTmp, right_start _, fun next linked => ⟨fun node loaded => ?_, fun node loaded => ?_⟩⟩
  · exact ((nodes next linked).2 node loaded).trans (mix_all all)
  · have linkValue := swapping.held_value here (Or.inr linked)
      (inserts.next_ne located.1 linked) loaded
    exact linkValue.trans (mix_start _ _).symm

theorem copyNext_byte (swapping : Swapping inserts values s)
    (here : s.pc thread = .copyNext current tmp copy)
    (pair : Pair s current node link nextNode) (more : copy.done < maxLen) {next : State n}
    (owned : Owned inserts next)
    (isNext : next = (s.setValue link nextNode
      (copyByte tmp nextNode.value ⟨copy.done, more⟩ copy.ended).1).goto thread
        (.copyNext current tmp (copyByte tmp nextNode.value ⟨copy.done, more⟩ copy.ended).2)) :
    Swapping inserts values next := by
  subst isNext
  obtain ⟨located, isTmp, right, nodes⟩ := swapping.knows_here here
  have linked := swapping.owned.linked pair.loaded pair.linked
  obtain ⟨currentValue, isMix⟩ := nodes _ linked
  obtain ⟨mixed, nextRight⟩ := copyByte_mix (values link) (swapping.padded _ located.1) right more
  rw [← isMix _ pair.nextLoaded, ← isTmp] at mixed nextRight
  refine swapping.acts owned here rfl (fun addr away => ⟨?_, rfl⟩) swapping.padded
    swapping.strings (fun addr other holds _ unwritten => absurd holds unwritten) ?_
  · exact setValue_other fun same => away (Or.inr (same ▸ linked))
  · refine ⟨isTmp, isTmp ▸ nextRight, fun other isOther => ?_⟩
    rw [linked] at isOther
    cases isOther
    refine ⟨fun old loaded => currentValue old ?_, fun written loaded => ?_⟩
    · exact (setValue_other (inserts.next_ne located.1 linked).symm).symm.trans loaded
    · rw [← isTmp]
      exact (setValue_value loaded).trans mixed

/-- When the last byte is written, the settled values change places. -/
theorem copyNext_done (swapping : Swapping inserts values s)
    (here : s.pc thread = .copyNext current tmp copy) (all : maxLen ≤ copy.done) {next : State n}
    (owned : Owned inserts next) (sameList : next.list = s.list)
    (isNext : next.pc = Function.update s.pc thread (.counting .swap (some current) .lock)) :
    ∃ after, Swapping inserts after next := by
  obtain ⟨⟨member, link, linked⟩, isTmp, right, nodes⟩ := swapping.knows_here here
  obtain ⟨currentValue, isMix⟩ := nodes _ linked
  have linkMember := inserts.next_mem member linked
  refine ⟨values ∘ Equiv.swap current link, swapping.acts owned here isNext
    (fun addr away => ⟨by rw [sameList], ?_⟩) (fun addr inList => ?_)
    ((swapped_strings member linkMember values).trans swapping.strings)
    (fun addr node holds loaded _ => ?_) trivial⟩
  · have notLink : addr ≠ link := fun same => away (Or.inr (same ▸ linked))
    exact congrArg values (Equiv.swap_apply_of_ne_of_ne (fun same => away (Or.inl same)) notLink)
  · exact swapping.padded _ (swap_mem member linkMember addr inList)
  · rw [sameList] at loaded
    rcases holds with isCurrent | isLink
    · rw [isCurrent] at loaded ⊢
      rw [Function.comp_apply, Equiv.swap_apply_left]
      exact currentValue node loaded
    · rw [linked] at isLink
      cases isLink
      rw [Function.comp_apply, Equiv.swap_apply_right]
      exact (isMix node loaded).trans (mix_all all)

end Copying

theorem swapping_step {inserts : Inserts} {routine : Fin n → Routine} {values : Addr → Value}
    {s next : State n} {action : Action n} (swapping : Swapping inserts values s)
    (move : Move routine s action next) : ∃ after, Swapping inserts after next := by
  have owned := owned_step swapping.owned move
  cases move with
  | crash =>
      exact ⟨values, owned, swapping.padded, swapping.strings, swapping.settled, swapping.knows⟩
  | lockFirst here | readFirst here | unlockFirst here | enters here | lockCurrent here | skips here
  | compare here | sameNode here | countLock here | countLoad here | countStore here
  | countUnlockInside here | countUnlock here | unlockCurrent here | unlockNext here | advance here
  | sleep here | print here =>
      exact ⟨values, swapping.reads owned here rfl rfl (fun _ writes => writes.elim) trivial⟩
  | leaves here =>
      refine ⟨values, swapping.reads owned here rfl rfl (fun _ writes => writes.elim) ?_⟩
      cases routine action.thread <;> trivial
  | @printLock sync here | @printUnlock sync here =>
      refine ⟨values, swapping.reads owned here rfl rfl (fun _ writes => writes.elim) ?_⟩
      cases sync <;> trivial
  | lockNext here pair free goes =>
      refine ⟨values, swapping.reads owned here rfl rfl (fun _ writes => writes.elim) ?_⟩
      rcases goes with rfl | rfl
      · trivial
      · exact fun index earlier => absurd earlier (Nat.not_lt_zero _)
  | strlenCurrentByte here loaded inside byte =>
      have isValue := swapping.held_value here (Or.inl rfl) id loaded
      rw [isValue] at byte
      exact ⟨values, swapping.reads owned here rfl rfl (fun _ writes => writes.elim)
        (one_more_byte (swapping.knows_here here).2 byte)⟩
  | strlenCurrentNul here loaded inside nul =>
      have isValue := swapping.held_value here (Or.inl rfl) id loaded
      rw [isValue] at nul
      refine ⟨values, swapping.reads owned here rfl rfl (fun _ writes => writes.elim)
        ⟨strlen_eq ⟨_, inside⟩ nul (swapping.knows_here here).2, ?_⟩⟩
      exact fun next linked index earlier => absurd earlier (Nat.not_lt_zero _)
  | strlenNextByte here pair inside byte =>
      have linked := swapping.owned.linked pair.loaded pair.linked
      have isValue := swapping.held_value here (Or.inr linked) id pair.nextLoaded
      obtain ⟨-, isLength, read⟩ := swapping.knows_here here
      rw [isValue] at byte
      refine ⟨values, swapping.reads owned here rfl rfl (fun _ writes => writes.elim)
        ⟨isLength, fun other isOther => ?_⟩⟩
      rw [linked] at isOther
      cases isOther
      exact one_more_byte (read _ linked) byte
  | strlenNextNul here pair inside nul =>
      have linked := swapping.owned.linked pair.loaded pair.linked
      have isValue := swapping.held_value here (Or.inr linked) id pair.nextLoaded
      obtain ⟨-, isLength, read⟩ := swapping.knows_here here
      rw [isValue] at nul
      refine ⟨values, swapping.reads owned here rfl rfl (fun _ writes => writes.elim)
        ⟨isLength, fun other isOther => ?_⟩⟩
      rw [linked] at isOther
      cases isOther
      exact strlen_eq ⟨_, inside⟩ nul (read _ linked)
  | swaps here =>
      exact ⟨values, swapping.reads owned here rfl rfl (fun _ writes => writes.elim)
        ⟨⟨action.tmp, (mix_start _ _).symm⟩, right_start _⟩⟩
  | copyTmpByte here loaded more =>
      exact ⟨values, swapping.reads owned here rfl rfl (fun _ writes => writes)
        (copyTmp_byte swapping here loaded more)⟩
  | copyTmpDone here all =>
      exact ⟨values, swapping.reads owned here rfl rfl (fun _ writes => writes.elim)
        (copyTmp_done swapping here all)⟩
  | copyCurrentByte here pair more =>
      exact ⟨values, copyCurrent_byte swapping here pair more owned rfl⟩
  | copyCurrentDone here all =>
      exact ⟨values, swapping.reads owned here rfl rfl (fun _ writes => Or.inl writes)
        (copyCurrent_done swapping here all)⟩
  | copyNextByte here pair more =>
      exact ⟨values, copyNext_byte swapping here pair more owned rfl⟩
  | copyNextDone here all => exact copyNext_done swapping here all owned rfl rfl

/-! ## The values at the start -/

theorem values_eq_map {list : Storage} {addrs : List Addr} {values : Addr → Value}
    (settled : ∀ addr ∈ addrs, ∃ node, list.heap addr = some node ∧ node.value = values addr) :
    list.values addrs = addrs.map values := by
  rw [Storage.values, ← List.filterMap_eq_map]
  refine List.filterMap_congr fun addr member => ?_
  obtain ⟨node, loaded, isValue⟩ := settled addr member
  rw [loaded, Option.map_some, isValue]
  rfl

def Storage.valueAt (list : Storage) (addr : Addr) : Value :=
  ((list.heap addr).map Node.value).getD fun _ => 0

theorem start_swapping (inserts : Inserts) (routine : Fin n → Routine) :
    Swapping inserts inserts.list.valueAt (State.start inserts routine) := by
  have inHeap : ∀ addr node, inserts.list.heap addr = some node →
      node.value = inserts.list.valueAt addr := by
    intro addr node loaded
    rw [Storage.valueAt, loaded]
    rfl
  have values : inserts.addrs.map inserts.list.valueAt =
      inserts.strs.map fun pair => pair.2.value := by
    rw [← (insertAll_spec inserts.strs inserts.blocks).2]
    refine (values_eq_map fun addr member => ?_).symm
    obtain ⟨node, loaded⟩ := inserts.chain.allocated addr member
    exact ⟨node, loaded, inHeap addr node loaded⟩
  refine ⟨start_owned inserts routine, ?_, by rw [values], fun addr node loaded _ =>
    inHeap addr node loaded, ?_⟩
  · intro addr member
    have inStrs := List.mem_map_of_mem (f := inserts.list.valueAt) member
    rw [values] at inStrs
    obtain ⟨pair, -, isValue⟩ := List.mem_map.mp inStrs
    rw [← isValue]
    exact padded_ofBytes pair.2.short pair.2.noNul
  · intro thread
    simp only [State.start]
    split <;> trivial

/-! ## The counters -/

/-- A counter tells a total but for the threads that are on their way to it, and
between the load and the store nobody else changes it. -/
structure Exact (onTheWay : Pc → Bool) (sync : Sync) (total : Nat) (s : State n) : Prop where
  counted : s.stat sync + count onTheWay s.pc = total
  loaded : ∀ thread inside value,
    s.pc thread = .counting sync inside (.store value) → value = s.stat sync

section Counter

variable {onTheWay : Pc → Bool} {sync : Sync} {total after : Nat} {s next : State n}
  {thread : Fin n} {old pc : Pc}

theorem Exact.moves (exact_ : Exact onTheWay sync total s) (here : s.pc thread = old)
    (isNext : next.pc = Function.update s.pc thread pc) (sameStat : next.stat sync = s.stat sync)
    (totals : after + (onTheWay old).toNat = total + (onTheWay pc).toNat)
    (loaded : ∀ inside value, pc = .counting sync inside (.store value) → value = s.stat sync) :
    Exact onTheWay sync after next := by
  have moved := count_update onTheWay s.pc thread pc
  have before := exact_.counted
  rw [here] at moved
  refine ⟨?_, ?_⟩
  · rw [isNext, sameStat]
    omega
  · intro other inside value stores
    rw [sameStat]
    rw [isNext] at stores
    by_cases same : other = thread
    · rw [same, Function.update_self] at stores
      exact loaded inside value stores
    · rw [Function.update_of_ne same] at stores
      exact exact_.loaded other inside value stores

/-- The spinlock keeps everybody else out between the load and the store. -/
theorem Exact.stores (exact_ : Exact onTheWay sync total s) {inserts : Inserts}
    (owned : Owned inserts s) {inside : Option Addr} {value : Int}
    (isOnTheWay : onTheWay (.counting sync inside (.store value)) = true)
    (arrives : onTheWay (.counting sync inside .unlock) = false)
    (here : s.pc thread = .counting sync inside (.store value))
    (isNext : next.pc = Function.update s.pc thread (.counting sync inside .unlock))
    (isStat : next.stat = Function.update s.stat sync (value + 1)) :
    Exact onTheWay sync total next := by
  have moved := count_leaves onTheWay s.pc thread (.counting sync inside .unlock) arrives
  have before := exact_.counted
  have isValue := exact_.loaded thread inside value here
  rw [here, isOnTheWay, Bool.toNat_true] at moved
  refine ⟨?_, ?_⟩
  · rw [isNext, isStat, Function.update_self]
    omega
  · intro other place stored stores
    rw [isNext] at stores
    by_cases same : other = thread
    · rw [same, Function.update_self] at stores
      cases stores
    · rw [Function.update_of_ne same] at stores
      have otherHolds : (s.pc other).Holds inserts.list (.stat sync) := by
        rw [stores]
        exact ⟨rfl, by simp⟩
      have threadHolds : (s.pc thread).Holds inserts.list (.stat sync) := by
        rw [here]
        exact ⟨rfl, by simp⟩
      exact absurd (owned.owners.unique otherHolds threadHolds) same

end Counter

theorem counted_step {inserts : Inserts} {routine : Fin n → Routine} {s next : State n}
    {action : Action n} (counted : Exact Pc.pending .swap s.swaps s) (owned : Owned inserts s)
    (move : Move routine s action next) : Exact Pc.pending .swap next.swaps next := by
  cases move with
  | crash => exact ⟨counted.counted, counted.loaded⟩
  | lockFirst here | readFirst here | unlockFirst here | enters here | lockCurrent here | skips here
  | compare here | sameNode here | unlockCurrent here | unlockNext here | advance here | sleep here
  | print here | strlenCurrentByte here | strlenCurrentNul here | strlenNextByte here
  | strlenNextNul here | swaps here | copyTmpByte here | copyTmpDone here | copyCurrentByte here
  | copyCurrentDone here | copyNextByte here | copyNextDone here =>
      exact counted.moves here rfl rfl rfl (by simp)
  | leaves here =>
      refine counted.moves here rfl rfl ?_ ?_
      · cases routine action.thread <;> rfl
      · cases routine action.thread <;> simp [Routine.again, Routine.iters]
  | lockNext here pair free goes =>
      rcases goes with rfl | rfl
      · exact counted.moves here rfl rfl rfl (by simp)
      · exact counted.moves here rfl rfl rfl (by simp)
  | @printLock sync here | @printUnlock sync here =>
      refine counted.moves here rfl rfl ?_ ?_
      · cases sync <;> rfl
      · cases sync <;> simp [Sync.next]
  | @countLock sync inside here =>
      exact counted.moves here rfl rfl (by cases sync <;> rfl) (by simp)
  | @countLoad sync inside here =>
      refine counted.moves here rfl rfl (by cases sync <;> rfl) ?_
      rintro place value stores
      cases stores
      rfl
  | @countStore sync inside value here =>
      by_cases isSwap : sync = .swap
      · subst isSwap
        exact counted.stores owned rfl rfl here rfl rfl
      · refine counted.moves here rfl (Function.update_of_ne (Ne.symm isSwap) _ _) ?_ (by simp)
        cases sync <;> first | rfl | exact absurd rfl isSwap
  | @countUnlockInside sync current here | @countUnlock sync here =>
      exact counted.moves here rfl rfl (by cases sync <;> rfl) (by simp)

theorem start_counted (inserts : Inserts) (routine : Fin n → Routine) :
    Exact Pc.pending .swap (State.start inserts routine).swaps (State.start inserts routine) := by
  have nobody : count Pc.pending (State.start inserts routine).pc = 0 := by
    rw [count_eq_zero_iff]
    intro thread
    simp only [State.start]
    split <;> rfl
  refine ⟨by rw [nobody]; rfl, fun thread inside value stores => ?_⟩
  simp only [State.start] at stores
  split at stores <;> cases stores

/-! ## Every run -/

theorem writes_swapping {list : Storage} {pc : Pc} {addr : Addr} (writes : pc.Writes list addr) :
    pc.swapping ≠ none := by
  cases pc with
  | copyCurrent current tmp copy => simp [Pc.swapping]
  | copyNext current tmp copy => simp [Pc.swapping]
  | _ => cases writes

theorem swapping_holds {list : Storage} {pc : Pc} {first addr : Addr}
    (swaps : pc.swapping = some first) (inPair : addr = first ∨ list.next first = some addr) :
    pc.HoldsNode list addr := by
  cases pc with
  | copyTmp current tmp copy | copyCurrent current tmp copy | copyNext current tmp copy =>
      cases swaps
      exact inPair
  | _ => cases swaps

theorem Swapping.intact {inserts : Inserts} {values : Addr → Value} {s : State n}
    (swapping : Swapping inserts values s) (counted : Exact Pc.pending .swap s.swaps s) :
    Intact inserts s where
  chain := swapping.owned.links.chain
  strings nobody := by
    have settled : s.list.values inserts.addrs = inserts.addrs.map values := by
      refine values_eq_map fun addr member => ?_
      obtain ⟨node, loaded⟩ := swapping.owned.links.chain.allocated addr member
      exact ⟨node, loaded, swapping.settled addr node loaded fun thread writes =>
        writes_swapping writes (nobody thread)⟩
    rw [settled]
    exact Multiset.coe_eq_coe.mpr swapping.strings
  compares thread current length nextLength here := by
    obtain ⟨⟨member, link, linked⟩, isLength, isNextLength⟩ := swapping.knows_here here
    have linkMember := inserts.next_mem member linked
    obtain ⟨node, loaded⟩ := swapping.owned.links.chain.allocated current member
    obtain ⟨nextNode, nextLoaded⟩ := swapping.owned.links.chain.allocated link linkMember
    have toLink : node.next = some link := by
      rw [← swapping.owned.links.next, Storage.next, loaded] at linked
      exact linked
    have isValue := swapping.held_value here (Or.inl rfl) id loaded
    have isNextValue := swapping.held_value here (Or.inr linked) id nextLoaded
    refine ⟨node, link, nextNode, ⟨loaded, toLink, nextLoaded⟩, ?_, ?_, ?_, ?_, ?_⟩
    · rw [isValue]
      exact isLength
    · rw [isNextValue]
      exact isNextLength _ linked
    · rw [isValue]
      exact swapping.strings.mem_iff.mp (List.mem_map_of_mem member)
    · rw [isNextValue]
      exact swapping.strings.mem_iff.mp (List.mem_map_of_mem linkMember)
    · intro other first swaps addr inPair
      rw [swapping.owned.links.next] at inPair
      have otherHolds := swapping_holds swaps inPair
      -- the walker that compares holds both nodes, and does not swap
      have notBoth : ¬ (s.pc thread).HoldsNode inserts.list addr := by
        intro holds
        have same := swapping.owned.same_holder otherHolds holds
        rw [same, here] at swaps
        cases swaps
      rw [here] at notBoth
      refine ⟨fun isCurrent => notBoth (Or.inl isCurrent), fun isLink => notBoth (Or.inr ?_)⟩
      rw [isLink]
      exact linked
  counted := counted.counted

/-- Every state of every run, for any strings and any threads. -/
theorem swaps_intact (inserts : Inserts) (routine : Fin n → Routine) (actions : List (Action n)) :
    (walkers inserts routine).Always (Intact inserts) (State.start inserts routine) actions := by
  refine System.always_of_invariant (fun s => (∃ values, Swapping inserts values s) ∧
      Exact Pc.pending .swap s.swaps s)
    ⟨⟨_, start_swapping inserts routine⟩, start_counted inserts routine⟩ ?_ ?_ actions
  · rintro s action next ⟨⟨values, swapping⟩, counted⟩ stepped
    have move := step_move stepped
    exact ⟨swapping_step swapping move, counted_step counted swapping.owned move⟩
  · rintro s ⟨⟨values, swapping⟩, counted⟩
    exact swapping.intact counted

end OsLabs.SwapList
