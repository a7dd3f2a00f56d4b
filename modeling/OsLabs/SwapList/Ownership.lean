import OsLabs.Lib.Exclusive
import OsLabs.SwapList.Moves

/-!
# Locks of the walkers

The links of the list never change, so it is fixed from the start which nodes a
walker at some statement stands on, and which locks it holds (`Pc.Holds`).
-/

set_option autoImplicit false

namespace OsLabs.SwapList

open OsLabs.Exclusive OsLabs.FixedString OsLabs.Linked

variable {n : Nat}

/-! ## The list that main builds -/

def Storage.next (list : Storage) (addr : Addr) : Option Addr := (list.heap addr).bind Node.next

/-- The values of some nodes. -/
def Storage.values (list : Storage) (addrs : List Addr) : List Value :=
  addrs.filterMap fun addr => (list.heap addr).map Node.value

def Inserts.addrs (inserts : Inserts) : List Addr := inserts.strs.map Prod.fst

theorem insertAll_spec (strs : List (Addr × Str)) (blocks : (strs.map Prod.fst).Nodup) :
    Chain (insertAll strs).heap Node.next (insertAll strs).first (strs.map Prod.fst) ∧
      (insertAll strs).values (strs.map Prod.fst) = strs.map fun pair => pair.2.value := by
  induction strs with
  | nil => exact ⟨rfl, rfl⟩
  | cons pair earlier ih =>
      obtain ⟨new, str⟩ := pair
      rw [List.map_cons, List.nodup_cons] at blocks
      obtain ⟨linked, values⟩ := ih blocks.2
      have inserted : insertAll ((new, str) :: earlier) =
          ⟨Function.update (insertAll earlier).heap new
            (some ⟨str.value, (insertAll earlier).first⟩), some new⟩ := by
        show listInsert (insertAll earlier) str new = _
        unfold listInsert
        split
        · rename_i isNone
          rw [Option.isNone_iff_eq_none.mp isNone]
        · rfl
      rw [inserted]
      refine ⟨linked.push new _ blocks.1 rfl, ?_⟩
      rw [List.map_cons, List.map_cons, ← values]
      simp only [Storage.values, List.filterMap_cons, Function.update_self, Option.map_some]
      congr 1
      refine List.filterMap_congr fun addr member => ?_
      have different : addr ≠ new := fun same => blocks.1 (same ▸ member)
      rw [Function.update_of_ne different]

theorem Inserts.chain (inserts : Inserts) :
    Chain inserts.list.heap Node.next inserts.list.first inserts.addrs :=
  (insertAll_spec inserts.strs inserts.blocks).1

section Links

variable {inserts : Inserts} {addr after : Addr}

theorem Inserts.split (inserts : Inserts) (member : addr ∈ inserts.addrs)
    (linked : inserts.list.next addr = some after) :
    ∃ front back, inserts.addrs = front ++ addr :: after :: back := by
  obtain ⟨node, loaded, toAfter⟩ := Option.bind_eq_some_iff.mp linked
  exact inserts.chain.successor member loaded toAfter

theorem Inserts.next_mem (inserts : Inserts) (member : addr ∈ inserts.addrs)
    (linked : inserts.list.next addr = some after) : after ∈ inserts.addrs := by
  obtain ⟨front, back, split⟩ := inserts.split member linked
  rw [split]
  simp

theorem Inserts.next_ne (inserts : Inserts) (member : addr ∈ inserts.addrs)
    (linked : inserts.list.next addr = some after) : after ≠ addr := by
  obtain ⟨front, back, split⟩ := inserts.split member linked
  have distinct := inserts.chain.nodup
  rw [split, List.nodup_append, List.nodup_cons] at distinct
  intro same
  subst same
  exact distinct.2.1.1 (by simp)

/-- Nearer to the head comes before. -/
theorem Inserts.next_idxOf (inserts : Inserts) (member : addr ∈ inserts.addrs)
    (linked : inserts.list.next addr = some after) :
    inserts.addrs.idxOf addr < inserts.addrs.idxOf after := by
  obtain ⟨front, back, split⟩ := inserts.split member linked
  have distinct := inserts.chain.nodup
  rw [split] at distinct ⊢
  rw [List.nodup_append] at distinct
  have addrNotFront : addr ∉ front := fun inFront => distinct.2.2 addr inFront addr (by simp) rfl
  have afterNotFront : after ∉ front :=
    fun inFront => distinct.2.2 after inFront after (by simp) rfl
  have different := inserts.next_ne member linked
  rw [List.idxOf_append_of_notMem addrNotFront, List.idxOf_append_of_notMem afterNotFront,
    List.idxOf_cons_self, List.idxOf_cons_ne _ different.symm]
  omega

end Links

/-- The links of a list are those of another one. -/
structure SameLinks (before list : Storage) : Prop where
  first : list.first = before.first
  nodes : ∀ addr, (list.heap addr).map Node.next = (before.heap addr).map Node.next

theorem SameLinks.next {before list : Storage} (same : SameLinks before list) :
    list.next = before.next := by
  funext addr
  have node := same.nodes addr
  unfold Storage.next
  cases inList : list.heap addr <;> cases inBefore : before.heap addr <;>
    simp_all

theorem SameLinks.chain {inserts : Inserts} {list : Storage}
    (same : SameLinks inserts.list list) :
    Chain list.heap Node.next list.first inserts.addrs := by
  rw [same.first]
  refine inserts.chain.congr fun addr _ node loaded => ?_
  have nodes := same.nodes addr
  rw [loaded] at nodes
  obtain ⟨other, otherLoaded, linked⟩ := Option.map_eq_some_iff.mp nodes
  exact ⟨other, otherLoaded, linked⟩

/-! ## Where a walker stands -/

def Sync.rank : Sync → Nat
  | .inc => 0
  | .dec => 1
  | .eq => 2
  | .swap => 3

/-- The nodes whose locks are held at a statement. -/
def Pc.HoldsNode (list : Storage) (addr : Addr) : Pc → Prop
  | .readFirst | .unlockFirst _ => list.first = some addr
  | .lockNext current => addr = current
  | .strlenCurrent current _ | .strlenNext current _ _ | .compare current _ _ | .rand current
  | .copyTmp current _ _ | .copyCurrent current _ _ | .copyNext current _ _
  | .counting _ (some current) _ | .unlockCurrent current =>
      addr = current ∨ list.next current = some addr
  | .unlockNext current => list.next current = some addr
  | _ => False

def Pc.HoldsStat (sync : Sync) : Pc → Prop
  | .counting other _ stage => sync = other ∧ stage ≠ .lock
  | .printLock other => sync.rank < other.rank
  | .print => True
  | .printUnlock other => other.rank ≤ sync.rank
  | _ => False

def Pc.Holds (list : Storage) (pc : Pc) : Lock → Prop
  | .node addr => pc.HoldsNode list addr
  | .stat sync => pc.HoldsStat sync

/-- A walker stands on nodes of the list. -/
def Pc.At (list : Storage) (addrs : List Addr) : Pc → Prop
  | .unlockFirst current | .test current => ∀ addr, current = some addr → addr ∈ addrs
  | .lockCurrent current | .lockNext current | .strlenCurrent current _ | .strlenNext current _ _
  | .compare current _ _ | .rand current | .copyTmp current _ _ | .copyCurrent current _ _
  | .copyNext current _ _ | .counting _ (some current) _ | .unlockCurrent current
  | .unlockNext current | .advance current =>
      current ∈ addrs ∧ ∃ next, list.next current = some next
  | _ => True

structure Owned (inserts : Inserts) (s : State n) : Prop where
  links : SameLinks inserts.list s.list
  owners : Owners (Pc.Holds inserts.list) s.pc s.owner
  located : ∀ thread, (s.pc thread).At inserts.list inserts.addrs

section Steps

variable {inserts : Inserts} {s next : State n} {thread : Fin n} {pc : Pc}

theorem Owned.same_holder (owned : Owned inserts s) {addr : Addr} {first second : Fin n}
    (firstHolds : (s.pc first).HoldsNode inserts.list addr)
    (secondHolds : (s.pc second).HoldsNode inserts.list addr) : first = second := by
  have firstLock : (s.pc first).Holds inserts.list (.node addr) := firstHolds
  exact owned.owners.unique firstLock secondHolds

theorem Owned.located_update (owned : Owned inserts s)
    (located : pc.At inserts.list inserts.addrs) :
    ∀ other, (Function.update s.pc thread pc other).At inserts.list inserts.addrs := by
  intro other
  by_cases here : other = thread
  · rw [here, Function.update_self]
    exact located
  · rw [Function.update_of_ne here]
    exact owned.located other

/-- A step with no lock operation. -/
theorem Owned.moves (owned : Owned inserts s) (links : SameLinks inserts.list next.list)
    (isNext : next.pc = Function.update s.pc thread pc) (sameOwner : next.owner = s.owner)
    (same : ∀ other, pc.Holds inserts.list other ↔ (s.pc thread).Holds inserts.list other)
    (located : pc.At inserts.list inserts.addrs) : Owned inserts next := by
  refine ⟨links, ?_, ?_⟩
  · rw [isNext, sameOwner]
    exact owned.owners.keeps same
  · rw [isNext]
    exact owned.located_update located

theorem Owned.takes {lock : Lock} (owned : Owned inserts s) (free : s.owner lock = none)
    (sameList : next.list = s.list) (isNext : next.pc = Function.update s.pc thread pc)
    (isOwner : next.owner = Function.update s.owner lock (some thread))
    (after : ∀ other, pc.Holds inserts.list other ↔
      (s.pc thread).Holds inserts.list other ∨ other = lock)
    (located : pc.At inserts.list inserts.addrs) : Owned inserts next := by
  refine ⟨by rw [sameList]; exact owned.links, ?_, ?_⟩
  · rw [isNext, isOwner]
    exact owned.owners.takes free after
  · rw [isNext]
    exact owned.located_update located

theorem Owned.gives {lock : Lock} (owned : Owned inserts s)
    (had : (s.pc thread).Holds inserts.list lock) (sameList : next.list = s.list)
    (isNext : next.pc = Function.update s.pc thread pc)
    (isOwner : next.owner = Function.update s.owner lock none)
    (after : ∀ other, pc.Holds inserts.list other ↔
      (s.pc thread).Holds inserts.list other ∧ other ≠ lock)
    (located : pc.At inserts.list inserts.addrs) : Owned inserts next := by
  refine ⟨by rw [sameList]; exact owned.links, ?_, ?_⟩
  · rw [isNext, isOwner]
    exact owned.owners.gives had after
  · rw [isNext]
    exact owned.located_update located

/-- A walker on a pair of nodes knows the link between them from the start. -/
theorem Owned.linked (owned : Owned inserts s) {current after : Addr} {node : Node}
    (loaded : s.list.heap current = some node) (linked : node.next = some after) :
    inserts.list.next current = some after := by
  rw [← owned.links.next, Storage.next, loaded]
  exact linked

theorem Owned.setValue (owned : Owned inserts s) {addr : Addr} {node : Node}
    (loaded : s.list.heap addr = some node) (value : Value) :
    SameLinks inserts.list (s.setValue addr node value).list := by
  refine ⟨owned.links.first, fun other => ?_⟩
  rw [← owned.links.nodes other]
  by_cases here : other = addr
  · simp [State.setValue, here, loaded]
  · simp [State.setValue, Function.update_of_ne here]

end Steps

/-- `pthread_mutex_unlock(&current->sync)` leaves the next node locked. -/
theorem holds_unlockCurrent {inserts : Inserts} {current : Addr}
    (located : (Pc.unlockCurrent current).At inserts.list inserts.addrs) (other : Lock) :
    (Pc.unlockNext current).Holds inserts.list other ↔
      (Pc.unlockCurrent current).Holds inserts.list other ∧ other ≠ .node current := by
  obtain ⟨member, _⟩ := located
  cases other with
  | node addr =>
      simp only [Pc.Holds, Pc.HoldsNode, ne_eq, Lock.node.injEq]
      constructor
      · intro linked
        exact ⟨Or.inr linked, inserts.next_ne member linked⟩
      · intro assumed
        rcases assumed with ⟨isCurrent | linked, notCurrent⟩
        · exact absurd isCurrent notCurrent
        · exact linked
  | stat sync => simp [Pc.Holds, Pc.HoldsStat]

theorem holds_again {list : Storage} {current : Option Addr} (routine : Routine) (other : Lock) :
    routine.again.Holds list other ↔ (Pc.test current).Holds list other := by
  cases routine <;> cases other <;>
    simp [Routine.again, Routine.iters, Pc.Holds, Pc.HoldsNode, Pc.HoldsStat]

/-- `print_stat` holds the spinlocks before the one it asks for. -/
theorem holds_printLock {list : Storage} (sync : Sync) (other : Lock) :
    (sync.next.elim Pc.print Pc.printLock).Holds list other ↔
      (Pc.printLock sync).Holds list other ∨ other = .stat sync := by
  cases other with
  | node addr => cases sync <;> simp [Sync.next, Pc.Holds, Pc.HoldsNode]
  | stat stat =>
      cases sync <;> cases stat <;> simp [Sync.next, Pc.Holds, Pc.HoldsStat, Sync.rank]

theorem holds_printUnlock {list : Storage} (sync : Sync) (other : Lock) :
    (sync.next.elim Pc.sleep Pc.printUnlock).Holds list other ↔
      (Pc.printUnlock sync).Holds list other ∧ other ≠ .stat sync := by
  cases other with
  | node addr => cases sync <;> simp [Sync.next, Pc.Holds, Pc.HoldsNode]
  | stat stat =>
      cases sync <;> cases stat <;> simp [Sync.next, Pc.Holds, Pc.HoldsStat, Sync.rank]

theorem owned_step {inserts : Inserts} {routine : Fin n → Routine} {s next : State n}
    {action : Action n} (owned : Owned inserts s) (move : Move routine s action next) :
    Owned inserts next := by
  have located := owned.located action.thread
  cases move with
  | crash => exact ⟨owned.links, owned.owners, owned.located⟩
  | lockFirst here isFirst free =>
      rw [owned.links.first] at isFirst
      refine owned.takes free rfl rfl rfl (fun other => ?_) trivial
      rw [here]
      cases other <;> simp [Pc.Holds, Pc.HoldsNode, Pc.HoldsStat, isFirst, eq_comm]
  | readFirst here =>
      refine owned.moves owned.links rfl rfl (fun other => by rw [here]; rfl) ?_
      intro addr isFirst
      rw [owned.links.first] at isFirst
      exact inserts.chain.head_mem isFirst
  | unlockFirst here isFirst =>
      rw [owned.links.first] at isFirst
      rw [here] at located
      refine owned.gives (by rw [here]; exact isFirst) rfl rfl rfl (fun other => ?_) located
      rw [here]
      cases other <;> simp [Pc.Holds, Pc.HoldsNode, Pc.HoldsStat, isFirst, eq_comm]
  | leaves here =>
      refine owned.moves owned.links rfl rfl (fun other => ?_) ?_
      · rw [here]
        exact holds_again _ other
      · cases routine action.thread <;> trivial
  | enters here loaded linked =>
      rw [here] at located
      exact owned.moves owned.links rfl rfl (fun other => by rw [here]; rfl)
        ⟨located _ rfl, _, owned.linked loaded linked⟩
  | lockCurrent here free =>
      rw [here] at located
      refine owned.takes free rfl rfl rfl (fun other => ?_) located
      rw [here]
      cases other <;> simp [Pc.Holds, Pc.HoldsNode, Pc.HoldsStat]
  | lockNext here pair free goes =>
      have linked := owned.linked pair.loaded pair.linked
      rw [here] at located
      rcases goes with rfl | rfl
      all_goals
        refine owned.takes free rfl rfl rfl (fun other => ?_) located
        rw [here]
        cases other <;> simp [Pc.Holds, Pc.HoldsNode, Pc.HoldsStat, linked, eq_comm]
  | strlenCurrentByte here | strlenCurrentNul here | strlenNextByte here | strlenNextNul here
  | compare here | skips here | swaps here | copyTmpByte here | copyTmpDone here
  | copyCurrentDone here =>
      rw [here] at located
      exact owned.moves owned.links rfl rfl (fun other => by rw [here]; rfl) located
  | sameNode here | copyNextDone here =>
      rw [here] at located
      refine owned.moves owned.links rfl rfl (fun other => ?_) located
      rw [here]
      cases other <;> simp [Pc.Holds, Pc.HoldsNode, Pc.HoldsStat]
  | copyCurrentByte here pair more =>
      rw [here] at located
      exact owned.moves (owned.setValue pair.loaded _) rfl rfl (fun other => by rw [here]; rfl)
        located
  | copyNextByte here pair more =>
      rw [here] at located
      exact owned.moves (owned.setValue pair.nextLoaded _) rfl rfl (fun other => by rw [here]; rfl)
        located
  | @countLock sync inside here free =>
      rw [here] at located
      refine owned.takes free rfl rfl rfl (fun other => ?_) ?_
      · rw [here]
        cases inside <;> cases other <;> simp [Pc.Holds, Pc.HoldsNode, Pc.HoldsStat]
      · cases inside <;> exact located
  | @countLoad sync inside here =>
      rw [here] at located
      refine owned.moves owned.links rfl rfl (fun other => ?_) ?_
      · rw [here]
        cases inside <;> cases other <;> simp [Pc.Holds, Pc.HoldsNode, Pc.HoldsStat]
      · cases inside <;> exact located
  | @countStore sync inside value here =>
      rw [here] at located
      refine owned.moves owned.links rfl rfl (fun other => ?_) ?_
      · rw [here]
        cases inside <;> cases other <;> simp [Pc.Holds, Pc.HoldsNode, Pc.HoldsStat]
      · cases inside <;> exact located
  | countUnlockInside here =>
      rw [here] at located
      refine owned.gives (by rw [here]; exact ⟨rfl, by simp⟩) rfl rfl rfl (fun other => ?_) located
      rw [here]
      cases other <;> simp [Pc.Holds, Pc.HoldsNode, Pc.HoldsStat]
  | countUnlock here =>
      refine owned.gives (by rw [here]; exact ⟨rfl, by simp⟩) rfl rfl rfl (fun other => ?_) trivial
      rw [here]
      cases other <;> simp [Pc.Holds, Pc.HoldsNode, Pc.HoldsStat]
  | unlockCurrent here =>
      rw [here] at located
      refine owned.gives (by rw [here]; exact Or.inl rfl) rfl rfl rfl (fun other => ?_) located
      rw [here]
      exact holds_unlockCurrent located other
  | unlockNext here pair =>
      have linked := owned.linked pair.loaded pair.linked
      rw [here] at located
      refine owned.gives (by rw [here]; exact linked) rfl rfl rfl (fun other => ?_) located
      rw [here]
      cases other <;> simp [Pc.Holds, Pc.HoldsNode, Pc.HoldsStat, linked, eq_comm]
  | advance here loaded =>
      rw [here] at located
      refine owned.moves owned.links rfl rfl (fun other => by rw [here]; rfl) ?_
      intro addr linked
      exact inserts.next_mem located.1 (owned.linked loaded linked)
  | sleep here =>
      refine owned.moves owned.links rfl rfl (fun other => ?_) trivial
      rw [here]
      cases other <;> simp [Pc.Holds, Pc.HoldsNode, Pc.HoldsStat, Sync.rank]
  | @printLock sync here free =>
      refine owned.takes free rfl rfl rfl (fun other => ?_) (by cases sync <;> trivial)
      rw [here]
      exact holds_printLock sync other
  | print here =>
      refine owned.moves owned.links rfl rfl (fun other => ?_) trivial
      rw [here]
      cases other <;> simp [Pc.Holds, Pc.HoldsNode, Pc.HoldsStat, Sync.rank]
  | @printUnlock sync here =>
      refine owned.gives (by rw [here]; exact Nat.le_refl _) rfl rfl rfl (fun other => ?_)
        (by cases sync <;> trivial)
      rw [here]
      exact holds_printUnlock sync other

theorem start_owned (inserts : Inserts) (routine : Fin n → Routine) :
    Owned inserts (State.start inserts routine) := by
  refine ⟨⟨rfl, fun _ => rfl⟩, ?_, ?_⟩
  · intro lock thread
    simp only [State.start]
    split <;> cases lock <;> simp [Pc.Holds, Pc.HoldsNode, Pc.HoldsStat]
  · intro thread
    simp only [State.start]
    split <;> trivial

end OsLabs.SwapList
