import Mathlib.Algebra.BigOperators.Group.Finset.Basic
import OsLabs.Lib.Counting
import OsLabs.SwapList.Shutdown
import OsLabs.SwapList.Swaps

/-!
# What the statistics count

A walker looks at every pair of neighbours once in each pass, whatever the
other threads do to the strings meanwhile, and adds its pass to its counter
when it has come to the end of the list.
-/

set_option autoImplicit false

namespace OsLabs.SwapList

open OsLabs.Counting OsLabs.Exclusive OsLabs.Linked OsLabs.Transition

variable {n : Nat}

/-- The comparison of two lengths, or the decision whether to swap. -/
def Pc.examines : Pc → Bool
  | .compare _ _ _ | .rand _ => true
  | _ => false

/-- At the end of the list, where the loop over the pairs is left. -/
def Pc.ends (list : Storage) : Pc → Bool
  | .test none => true
  | .test (some current) => (list.next current).isNone
  | _ => false

/-- How many pairs the walker has looked at in the pass under way. -/
def Pc.visited (addrs : List Addr) : Pc → Nat
  | .test (some current) | .lockCurrent current | .lockNext current | .strlenCurrent current _
  | .strlenNext current _ _ | .compare current _ _ | .rand current => addrs.idxOf current
  | .copyTmp current _ _ | .copyCurrent current _ _ | .copyNext current _ _
  | .counting _ (some current) _ | .unlockCurrent current | .unlockNext current
  | .advance current => addrs.idxOf current + 1
  | _ => 0

/-- Past the end of the list and not counted yet. -/
def Pc.uncounted (sync : Sync) : Pc → Bool
  | .counting other _ stage => other = sync && stage ≠ .unlock
  | _ => false

def State.examines (thread : Fin n) (s : State n) (action : Action n) : Bool :=
  action.thread = thread && (s.pc thread).examines

def State.passes (thread : Fin n) (s : State n) (action : Action n) : Bool :=
  action.thread = thread && (s.pc thread).ends s.list

section Run

variable (inserts : Inserts) (routine : Fin n → Routine) (actions : List (Action n))

/-- The pairs that a walker has looked at in a run. -/
def examined (thread : Fin n) : Nat :=
  (walkers inserts routine).steps (State.examines thread) (State.start inserts routine) actions

/-- The passes that a walker has finished in a run. -/
def passed (thread : Fin n) : Nat :=
  (walkers inserts routine).steps (State.passes thread) (State.start inserts routine) actions

/-- In each pass a walker looks at every pair once; the counters tell the
finished passes, but for those on their way to the counter; and what
`print_stat` prints is not in the middle of any update. -/
structure Statistics (s : State n) : Prop where
  visited : ∀ thread, examined inserts routine actions thread =
    (inserts.addrs.length - 1) * passed inserts routine actions thread +
      (s.pc thread).visited inserts.addrs
  counted : ∀ sync, sync ≠ .swap → s.stat sync + count (Pc.uncounted sync) s.pc =
    ∑ thread with (routine thread).iters = some sync, passed inserts routine actions thread
  prints : ∀ printer thread sync inside stage, s.pc printer = .print →
    s.pc thread = .counting sync inside stage → stage = .lock

end Run

/-! ## Positions on the list -/

section Positions

variable {inserts : Inserts} {addr after : Addr}

theorem Inserts.idxOf_next (inserts : Inserts) (member : addr ∈ inserts.addrs)
    (linked : inserts.list.next addr = some after) :
    inserts.addrs.idxOf after = inserts.addrs.idxOf addr + 1 := by
  obtain ⟨front, back, split⟩ := inserts.split member linked
  have distinct := inserts.chain.nodup
  rw [split] at distinct ⊢
  rw [List.nodup_append] at distinct
  have addrNotFront : addr ∉ front := fun inFront => distinct.2.2 addr inFront addr (by simp) rfl
  have afterNotFront : after ∉ front :=
    fun inFront => distinct.2.2 after inFront after (by simp) rfl
  have different := inserts.next_ne member linked
  rw [List.idxOf_append_of_notMem addrNotFront, List.idxOf_append_of_notMem afterNotFront,
    List.idxOf_cons_self, List.idxOf_cons_ne _ different.symm, List.idxOf_cons_self]

/-- The node without a successor is the last one. -/
theorem Inserts.idxOf_last (inserts : Inserts) (member : addr ∈ inserts.addrs)
    (last : inserts.list.next addr = none) :
    inserts.addrs.idxOf addr = inserts.addrs.length - 1 := by
  obtain ⟨front, back, split⟩ := List.append_of_mem member
  have linked := inserts.chain
  have distinct := inserts.chain.nodup
  rw [split] at linked distinct ⊢
  obtain ⟨_, node, loaded, tail⟩ := linked.from_middle
  have isLast : node.next = none := by
    rw [Storage.next, loaded] at last
    exact last
  rw [List.nodup_append] at distinct
  have notFront : addr ∉ front := fun inFront => distinct.2.2 addr inFront addr (by simp) rfl
  rw [List.idxOf_append_of_notMem notFront, List.idxOf_cons_self]
  cases back with
  | nil => simp
  | cons behind rest =>
      have isHead : node.next = some behind := tail.1
      rw [isLast] at isHead
      cases isHead

theorem Inserts.idxOf_first (inserts : Inserts) (isFirst : inserts.list.first = some addr) :
    inserts.addrs.idxOf addr = 0 := by
  have linked := inserts.chain
  cases addrs : inserts.addrs with
  | nil =>
      rw [addrs, isFirst] at linked
      cases linked
  | cons head rest =>
      rw [addrs, isFirst] at linked
      have isHead : some addr = some head := linked.1
      rw [Option.some.inj isHead, List.idxOf_cons_self]

end Positions

/-! ## A walker on its way stands on a node -/

def Pc.Standing (first : Option Addr) : Pc → Prop
  | .readFirst => first ≠ none
  | .unlockFirst current => current = first ∧ first ≠ none
  | .test current => current ≠ none
  | _ => True

section Steps

variable {inserts : Inserts} {routine : Fin n → Routine} {s next : State n} {action : Action n}

theorem standing_step (owned : Owned inserts s)
    (standing : ∀ thread, (s.pc thread).Standing inserts.list.first)
    (move : Move routine s action next) (thread : Fin n) :
    (next.pc thread).Standing inserts.list.first := by
  by_cases own : thread = action.thread
  · subst own
    have before := standing action.thread
    cases move with
    | crash => exact before
    | lockFirst here isFirst free =>
        rw [owned.links.first] at isFirst
        simp [State.goto, Pc.Standing, isFirst]
    | readFirst here =>
        rw [here] at before
        simpa [State.goto, Pc.Standing, owned.links.first] using before
    | unlockFirst here isFirst =>
        rw [here] at before
        simp only [State.goto, Function.update_self, Pc.Standing]
        rw [before.1]
        exact before.2
    | leaves here =>
        simp only [State.goto, Function.update_self]
        cases routine action.thread <;> trivial
    | lockNext here pair free goes =>
        simp only [State.goto, Function.update_self]
        rcases goes with rfl | rfl <;> trivial
    | advance here loaded =>
        have located := owned.located action.thread
        rw [here] at located
        obtain ⟨_, after, linked⟩ := located
        rw [← owned.links.next, Storage.next, loaded] at linked
        simp only [State.goto, Function.update_self]
        intro isNone
        rw [Option.bind_some, isNone] at linked
        cases linked
    | @printLock sync here | @printUnlock sync here =>
        simp only [State.goto, Function.update_self]
        cases sync <;> trivial
    | _ => simp [State.goto, Pc.Standing]
  · rw [move_pc move own]
    exact standing thread

/-- The last test of a pass, and the others. -/
theorem test_step (owned : Owned inserts s) {current : Addr}
    (here : s.pc action.thread = .test (some current))
    (stepped : step routine s action = some next) :
    current ∈ inserts.addrs ∧
      ((inserts.list.next current = none ∧
          next = s.goto action.thread (routine action.thread).again) ∨
        (∃ after, inserts.list.next current = some after ∧
          next = s.goto action.thread (.lockCurrent current))) := by
  have located := owned.located action.thread
  rw [here] at located
  have member : current ∈ inserts.addrs := located current rfl
  obtain ⟨node, loaded⟩ := owned.links.chain.allocated current member
  have link : inserts.list.next current = node.next := by
    rw [← owned.links.next, Storage.next, loaded]
    rfl
  unfold step at stepped
  simp only [here, State.load, loaded] at stepped
  split at stepped
  · cases stepped
  · rw [Option.some.injEq] at stepped
    refine ⟨member, ?_⟩
    rw [link]
    cases linked : node.next with
    | none =>
        rw [linked] at stepped
        exact Or.inl ⟨rfl, stepped.symm⟩
    | some after =>
        rw [linked] at stepped
        exact Or.inr ⟨after, rfl, stepped.symm⟩

/-- Looking at a pair cannot fail. -/
theorem examines_step (owned : Owned inserts s) (looks : (s.pc action.thread).examines = true)
    (stepped : step routine s action = some next) :
    ∃ current, (s.pc action.thread).visited inserts.addrs = inserts.addrs.idxOf current ∧
      (next.pc action.thread).visited inserts.addrs = inserts.addrs.idxOf current + 1 := by
  have located := owned.located action.thread
  unfold step at stepped
  cases here : s.pc action.thread with
  | compare current length nextLength =>
      simp only [here] at stepped
      split at stepped
      · cases stepped
      · cases stepped
        exact ⟨current, rfl, by simp [State.goto, Pc.visited]⟩
  | rand current =>
      rw [here] at located
      obtain ⟨node, loaded⟩ := owned.links.chain.allocated current located.1
      simp only [here, State.load, loaded] at stepped
      refine ⟨current, rfl, ?_⟩
      split at stepped
      · cases stepped
      · split at stepped
        · split at stepped <;>
            · cases stepped
              simp [State.goto, Pc.visited]
        · cases stepped
          simp [State.goto, Pc.visited]
  | _ =>
      rw [here] at looks
      cases looks

theorem visited_again (routine : Routine) (addrs : List Addr) :
    routine.again.visited addrs = 0 := by
  cases routine <;> rfl

/-- A step that neither looks at a pair nor ends a pass stays with its pair, or
goes on to the next one. -/
theorem quiet_step (owned : Owned inserts s)
    (standing : ∀ thread, (s.pc thread).Standing inserts.list.first)
    (move : Move routine s action next) (looksNot : (s.pc action.thread).examines = false)
    (goesOn : ∀ current, s.pc action.thread ≠ .test current) :
    (next.pc action.thread).visited inserts.addrs =
      (s.pc action.thread).visited inserts.addrs := by
  have stands := standing action.thread
  have located := owned.located action.thread
  cases move with
  | crash => rfl
  | @unlockFirst current first here isFirst =>
      rw [here] at stands ⊢
      rw [owned.links.first] at isFirst
      simp only [State.goto, Function.update_self]
      rw [stands.1, isFirst]
      exact inserts.idxOf_first isFirst
  | leaves here => exact absurd here (goesOn _)
  | enters here => exact absurd here (goesOn _)
  | lockNext here pair free goes =>
      rw [here]
      simp only [State.goto, Function.update_self]
      rcases goes with rfl | rfl <;> rfl
  | compare here | skips here | sameNode here | swaps here =>
      rw [here] at looksNot
      cases looksNot
  | advance here loaded =>
      rw [here] at located ⊢
      obtain ⟨member, after, linked⟩ := located
      have toAfter := linked
      rw [← owned.links.next, Storage.next, loaded, Option.bind_some] at toAfter
      simp only [State.goto, Function.update_self]
      rw [toAfter]
      exact inserts.idxOf_next member linked
  | @printLock sync here | @printUnlock sync here =>
      rw [here]
      simp only [State.goto, Function.update_self]
      cases sync <;> rfl
  | @countLock sync inside here | @countLoad sync inside here
  | @countStore sync inside value here =>
      rw [here]
      simp only [State.goto, Function.update_self]
      cases inside <;> rfl
  | lockFirst here | readFirst here | lockCurrent here | strlenCurrentByte here
  | strlenCurrentNul here | strlenNextByte here | strlenNextNul here | copyTmpByte here
  | copyTmpDone here | copyCurrentByte here | copyCurrentDone here | copyNextByte here
  | copyNextDone here | countUnlockInside here | countUnlock here | unlockCurrent here
  | unlockNext here | sleep here | print here =>
      rw [here]
      simp [State.goto, Pc.visited]

/-- What a step does to a walker's place on the list and to the number of its
passes. -/
theorem visited_step (owned : Owned inserts s)
    (standing : ∀ thread, (s.pc thread).Standing inserts.list.first)
    (stepped : step routine s action = some next) (thread : Fin n) :
    (next.pc thread).visited inserts.addrs +
        (inserts.addrs.length - 1) * (s.passes thread action).toNat =
      (s.pc thread).visited inserts.addrs + (s.examines thread action).toNat := by
  have move := step_move stepped
  by_cases own : thread = action.thread
  · subst own
    simp only [State.passes, State.examines, decide_true, Bool.true_and]
    cases looks : (s.pc action.thread).examines with
    | true =>
        obtain ⟨current, before, after⟩ := examines_step owned looks stepped
        have goesOn : (s.pc action.thread).ends s.list = false := by
          cases here : s.pc action.thread with
          | test current =>
              rw [here] at looks
              cases looks
          | _ => rfl
        rw [before, after, goesOn]
        rfl
    | false =>
        by_cases tests : ∃ current, s.pc action.thread = .test current
        · obtain ⟨current, here⟩ := tests
          have stands := standing action.thread
          rw [here] at stands
          obtain ⟨addr, isAddr⟩ := Option.ne_none_iff_exists'.mp stands
          subst isAddr
          obtain ⟨member, ⟨last, isNext⟩ | ⟨after, linked, isNext⟩⟩ := test_step owned here stepped
          · have ends : (Pc.test (some addr)).ends s.list = true := by
              simp [Pc.ends, owned.links.next, last]
            have place : (Pc.test (some addr)).visited inserts.addrs = inserts.addrs.length - 1 :=
              inserts.idxOf_last member last
            rw [isNext, here, ends, place]
            simp only [State.goto, Function.update_self, visited_again]
            simp
          · have goesOn : (Pc.test (some addr)).ends s.list = false := by
              simp [Pc.ends, owned.links.next, linked]
            rw [isNext, here, goesOn]
            simp [State.goto, Pc.visited]
        · have goesOn : (s.pc action.thread).ends s.list = false := by
            cases here : s.pc action.thread with
            | test current => exact absurd ⟨current, here⟩ tests
            | _ => rfl
          rw [goesOn,
            quiet_step owned standing move looks fun current here => tests ⟨current, here⟩]
          rfl
  · have apart : ¬ action.thread = thread := fun same => own same.symm
    simp [State.passes, State.examines, apart, move_pc move own]

end Steps

/-! ## The counters of the passes -/

section Counting

variable {inserts : Inserts} {routine : Fin n → Routine} {s next : State n} {action : Action n}
  {sync : Sync} {total : Nat}

/-- A pass is counted by the walkers of the counter. -/
theorem uncounted_again (routine : Routine) (sync : Sync) :
    routine.again.uncounted sync = decide (routine.iters = some sync) := by
  cases routine <;> cases sync <;> rfl

theorem exact_quiet (exact_ : Exact (Pc.uncounted sync) sync total s) (owned : Owned inserts s)
    (notSwap : sync ≠ .swap) (move : Move routine s action next) (goesOn : ∀ current, s.pc action.thread ≠ .test current) :
    Exact (Pc.uncounted sync) sync total next := by
  cases move with
  | crash => exact ⟨exact_.counted, exact_.loaded⟩
  | leaves here => exact absurd here (goesOn _)
  | enters here => exact absurd here (goesOn _)
  | lockNext here pair free goes =>
      rcases goes with rfl | rfl
      · exact exact_.moves here rfl rfl rfl (by simp)
      · exact exact_.moves here rfl rfl rfl (by simp)
  | sameNode here | copyNextDone here =>
      have other : (Sync.swap = sync) = False := by simp [Ne.symm notSwap]
      exact exact_.moves here rfl rfl (by simp [Pc.uncounted, other]) (by simp)
  | @printLock other here | @printUnlock other here =>
      refine exact_.moves here rfl rfl ?_ ?_
      · cases other <;> rfl
      · cases other <;> simp [Sync.next]
  | @countLock other inside here =>
      exact exact_.moves here rfl rfl (by simp [Pc.uncounted]) (by simp)
  | @countLoad other inside here =>
      refine exact_.moves here rfl rfl (by simp [Pc.uncounted]) ?_
      rintro place value stores
      cases stores
      rfl
  | @countStore other inside value here =>
      by_cases isSync : other = sync
      · subst isSync
        exact exact_.stores owned (by simp [Pc.uncounted]) (by simp [Pc.uncounted]) here rfl rfl
      · exact exact_.moves here rfl (Function.update_of_ne (Ne.symm isSync) _ _)
          (by simp [Pc.uncounted, isSync]) (by simp)
  | @countUnlockInside other current here | @countUnlock other here =>
      exact exact_.moves here rfl rfl (by simp [Pc.uncounted]) (by simp)
  | lockFirst here | readFirst here | unlockFirst here | lockCurrent here | skips here
  | compare here | unlockCurrent here | unlockNext here | advance here | sleep here | print here
  | strlenCurrentByte here | strlenCurrentNul here | strlenNextByte here | strlenNextNul here
  | swaps here | copyTmpByte here | copyTmpDone here | copyCurrentByte here | copyCurrentDone here
  | copyNextByte here =>
      exact exact_.moves here rfl rfl rfl (by simp)

theorem exact_step (exact_ : Exact (Pc.uncounted sync) sync total s) (owned : Owned inserts s)
    (standing : ∀ thread, (s.pc thread).Standing inserts.list.first) (notSwap : sync ≠ .swap)
    (stepped : step routine s action = some next) :
    Exact (Pc.uncounted sync) sync (total + ∑ thread with (routine thread).iters = some sync,
      (s.passes thread action).toNat) next := by
  have passes : ∑ thread with (routine thread).iters = some sync, (s.passes thread action).toNat =
      if (routine action.thread).iters = some sync then
        ((s.pc action.thread).ends s.list).toNat else 0 := by
    rw [Finset.sum_filter, Finset.sum_eq_single action.thread]
    · simp [State.passes]
    · intro other _ different
      simp [State.passes, Ne.symm different]
    · intro absent
      exact absurd (Finset.mem_univ _) absent
  rw [passes]
  by_cases tests : ∃ current, s.pc action.thread = .test current
  · obtain ⟨current, here⟩ := tests
    have stands := standing action.thread
    rw [here] at stands
    obtain ⟨addr, isAddr⟩ := Option.ne_none_iff_exists'.mp stands
    subst isAddr
    rw [here]
    obtain ⟨member, ⟨last, isNext⟩ | ⟨successor, linked, isNext⟩⟩ := test_step owned here stepped
    · have ends : (Pc.test (some addr)).ends s.list = true := by
        simp [Pc.ends, owned.links.next, last]
      rw [ends]
      refine exact_.moves here (by rw [isNext]; rfl) (by rw [isNext]; rfl) ?_ ?_
      · rw [uncounted_again]
        by_cases counts : (routine action.thread).iters = some sync <;> simp [counts, Pc.uncounted]
      · cases routine action.thread <;> simp [Routine.again, Routine.iters]
    · have goesOn : (Pc.test (some addr)).ends s.list = false := by
        simp [Pc.ends, owned.links.next, linked]
      rw [goesOn]
      refine exact_.moves here (by rw [isNext]; rfl) (by rw [isNext]; rfl) ?_ (by simp)
      simp [Pc.uncounted]
  · have goesOn : (s.pc action.thread).ends s.list = false := by
      cases here : s.pc action.thread with
      | test current => exact absurd ⟨current, here⟩ tests
      | _ => rfl
    rw [goesOn]
    simpa using exact_quiet exact_ owned notSwap (step_move stepped)
      fun current here => tests ⟨current, here⟩

/-- Whoever prints has all four spinlocks. -/
theorem Owned.prints (owned : Owned inserts s) {printer thread : Fin n} {inside : Option Addr}
    {stage : Stage} (prints : s.pc printer = .print)
    (here : s.pc thread = .counting sync inside stage) : stage = .lock := by
  by_contra locked
  have printerHolds : (s.pc printer).Holds inserts.list (.stat sync) := by
    rw [prints]
    trivial
  have threadHolds : (s.pc thread).Holds inserts.list (.stat sync) := by
    rw [here]
    exact ⟨rfl, locked⟩
  have same := owned.owners.unique printerHolds threadHolds
  rw [same, here] at prints
  cases prints

end Counting

/-! ## Every run -/

section Run

variable (inserts : Inserts) (routine : Fin n → Routine)

structure Tallied (actions : List (Action n)) (s : State n) : Prop where
  ran : (walkers inserts routine).run (State.start inserts routine) actions = some s
  owned : Owned inserts s
  standing : ∀ thread, (s.pc thread).Standing inserts.list.first
  visited : ∀ thread, examined inserts routine actions thread =
    (inserts.addrs.length - 1) * passed inserts routine actions thread +
      (s.pc thread).visited inserts.addrs
  counted : ∀ sync, sync ≠ .swap →
    Exact (Pc.uncounted sync) sync (∑ thread with (routine thread).iters = some sync,
      passed inserts routine actions thread) s

theorem start_tallied : Tallied inserts routine [] (State.start inserts routine) where
  ran := rfl
  owned := start_owned inserts routine
  standing thread := by
    simp only [State.start]
    split <;> trivial
  visited thread := by
    have place : ((State.start inserts routine).pc thread).visited inserts.addrs = 0 := by
      simp only [State.start]
      split <;> rfl
    rw [place]
    rfl
  counted sync _ := by
    have nobody : count (Pc.uncounted sync) (State.start inserts routine).pc = 0 := by
      rw [count_eq_zero_iff]
      intro thread
      simp only [State.start]
      split <;> rfl
    refine ⟨?_, fun thread inside value stores => ?_⟩
    · rw [nobody]
      simp [passed, System.steps, State.start]
    · simp only [State.start] at stores
      split at stores <;> cases stores

variable {inserts routine}

theorem tallied_step {actions : List (Action n)} {s next : State n} {action : Action n}
    (tallied : Tallied inserts routine actions s)
    (stepped : (walkers inserts routine).step s action = some next) :
    Tallied inserts routine (actions ++ [action]) next := by
  have examines : ∀ thread, examined inserts routine (actions ++ [action]) thread =
      examined inserts routine actions thread + (s.examines thread action).toNat :=
    fun thread => System.steps_snoc _ tallied.ran stepped
  have passes : ∀ thread, passed inserts routine (actions ++ [action]) thread =
      passed inserts routine actions thread + (s.passes thread action).toNat :=
    fun thread => System.steps_snoc _ tallied.ran stepped
  refine ⟨?_, owned_step tallied.owned (step_move stepped),
    standing_step tallied.owned tallied.standing (step_move stepped), fun thread => ?_,
    fun sync notSwap => ?_⟩
  · rw [System.run_append, tallied.ran]
    simp [System.run, stepped]
  · have place := visited_step tallied.owned tallied.standing stepped thread
    rw [examines, passes, tallied.visited, Nat.mul_add]
    omega
  · simp only [passes, Finset.sum_add_distrib]
    exact exact_step (tallied.counted sync notSwap) tallied.owned tallied.standing notSwap stepped

/-- In every run of any walkers on any list: each walker has looked at every
pair of neighbours once for each of its passes, however the strings were
swapped meanwhile, and each counter tells the passes of its walkers. -/
theorem statistics_exact {actions : List (Action n)} {s : State n}
    (ran : (walkers inserts routine).run (State.start inserts routine) actions = some s) :
    Statistics inserts routine actions s := by
  have tallied : Tallied inserts routine actions s :=
    System.run_history (Tallied inserts routine) (start_tallied inserts routine)
      (fun _ _ _ _ => tallied_step) ran
  exact ⟨tallied.visited, fun sync notSwap => (tallied.counted sync notSwap).counted,
    fun printer thread sync inside stage => (tallied.owned).prints⟩

end Run

/-- Two strings of one byte, and one walker that compares them. -/
def twoStrings : Inserts :=
  ⟨[(1, ⟨[49], by decide, by decide⟩), (0, ⟨[48], by decide, by decide⟩)], by decide⟩

def onePass : List (Action 1) := List.replicate 16 ⟨0, false, fun _ => 0⟩

/-- After its first pass the walker has looked at one pair and waits to count it. -/
theorem one_pass_counted :
    ∃ s, (walkers twoStrings fun _ => .incThread).run
        (State.start twoStrings fun _ => .incThread) onePass = some s ∧
      (s.pc 0).uncounted .inc = true ∧
      Statistics twoStrings (fun _ => .incThread) onePass s := by
  have reached : ((walkers twoStrings fun _ => .incThread).run
      (State.start twoStrings fun _ => .incThread) onePass).map (fun s =>
        (s.pc 0).uncounted .inc) = some true := by
    decide +kernel
  obtain ⟨s, ran, place⟩ := Option.map_eq_some_iff.mp reached
  exact ⟨s, ran, place, statistics_exact ran⟩

end OsLabs.SwapList
