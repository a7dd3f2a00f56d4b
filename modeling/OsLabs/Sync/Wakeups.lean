import Mathlib.Data.Fin.VecNotation
import OsLabs.Sync.CondQueue

/-!
# Wake-ups of the condition-variable queue

Each success makes room for one call on the other condition and signals it, so
that while a call sleeps there are as many woken calls as could be served.  The
rule is exact between two passes (`Wakes`); inside a pass it is off by the one
call or signal under way (`Thread.underway`).
-/

set_option autoImplicit false

namespace OsLabs.Sync

open OsLabs.Counting OsLabs.Exclusive OsLabs.Transition

variable {n : Nat}

/-- Woken, and not yet past the test that follows the wait. -/
def Thread.unchecked (condition : Condition) : Thread → Bool
  | .woken call => call.stalls condition
  | .inside call waited point =>
      waited && call.stalls condition && !(point.appends || point.removes)
  | _ => false

/-- Between a success and its signal, or past its test after a wait and still to
use up what it found. -/
def Thread.underway (condition : Condition) : Thread → Bool
  | .signalling call _ => call.signals = some condition
  | .inside call waited point =>
      (call.signals = some condition && point.change != 0) ||
        (waited && call.stalls condition && (point.appends || point.removes) && point.change == 0)
  | _ => false

/-! ## Between two passes -/

/-- Woken, until the end of the pass that follows the wait. -/
def Thread.resumes (condition : Condition) : Thread → Bool
  | .woken call => call.stalls condition
  | .inside call waited _ => waited && call.stalls condition
  | _ => false

def Thread.signalsTo (condition : Condition) : Thread → Bool
  | .signalling call _ => call.signals = some condition
  | _ => false

/-- While a call sleeps on a condition, as many others are on their way as
could be served. -/
def Awake (base : Queue) (place : Fin n → Thread) : Prop :=
  ∀ condition, 0 < count (Thread.sleepsOn condition) place →
    base.supply condition ≤
      count (Thread.resumes condition) place + count (Thread.signalsTo condition) place

structure Wakes (maxCount : Nat) (s : State n) : Prop where
  inv : CondInv maxCount s
  blocked : ∀ tid call condition, s.thread tid = .waiting call →
    call.waitsFor = some condition → s.base.supply condition = 0
  awake : Awake s.base s.thread

section Steps

variable {maxCount : Nat} {s next : State n} {tid : Fin n} {thread : Thread}

/-- A step that ends no pass, of a thread that keeps its part in the counts. -/
theorem Wakes.moves (wakes : Wakes maxCount s) (inv : CondInv maxCount next)
    (isNext : next.thread = Function.update s.thread tid thread) (sameBase : next.base = s.base)
    (notBlocked : ∀ call, thread ≠ .waiting call)
    (sleeps : ∀ condition, thread.sleepsOn condition = (s.thread tid).sleepsOn condition)
    (resumes : ∀ condition, thread.resumes condition = (s.thread tid).resumes condition)
    (signals : ∀ condition, thread.signalsTo condition = (s.thread tid).signalsTo condition) :
    Wakes maxCount next := by
  refine ⟨inv, ?_, ?_⟩
  · intro other call condition waiting waitsFor
    rw [sameBase]
    by_cases here : other = tid
    · rw [here, isNext, Function.update_self] at waiting
      exact absurd waiting (notBlocked call)
    · rw [isNext, Function.update_of_ne here] at waiting
      exact wakes.blocked other call condition waiting waitsFor
  · rw [sameBase, isNext]
    intro condition
    rw [count_update_same (sleeps condition), count_update_same (resumes condition),
      count_update_same (signals condition)]
    exact wakes.awake condition

theorem Wakes.others (wakes : Wakes maxCount s) (owns : (s.thread tid).owns = true)
    {other : Fin n} (elsewhere : other ≠ tid) (call : Call) : s.thread other ≠ .waiting call := by
  intro waiting
  exact elsewhere (wakes.inv.sections.exclusive (by rw [waiting]; rfl) owns)

/-- A step of the holder of the mutex, who finds nothing blocked. -/
theorem Wakes.turns (wakes : Wakes maxCount s) (owns : (s.thread tid).owns = true)
    (inv : CondInv maxCount next) (isNext : next.thread = Function.update s.thread tid thread)
    (notBlocked : ∀ call, thread ≠ .waiting call) (awake : Awake next.base next.thread) :
    Wakes maxCount next := by
  refine ⟨inv, ?_, awake⟩
  intro other call condition waiting waitsFor
  rw [isNext] at waiting
  by_cases here : other = tid
  · rw [here, Function.update_self] at waiting
    exact absurd waiting (notBlocked call)
  · rw [Function.update_of_ne here] at waiting
    exact absurd waiting (wakes.others owns here call)

end Steps

/-- A blocked pass found nothing for its call; another one uses up what it found
and makes room on the other condition. -/
theorem attempts_supply {base next : Queue} {addrs nextAddrs : List Addr} {call : Call}
    {waited : Bool} {outcome : Outcome}
    (attempts : Attempts (call.counted waited base) addrs call outcome next nextAddrs)
    (condition : Condition) :
    (outcome.isBlocked = true → next.supply condition = base.supply condition ∧
        (call.stalls condition = true → base.supply condition = 0)) ∧
      (outcome.isBlocked = false → next.supply condition + (call.stalls condition).toNat =
        base.supply condition + (decide (call.signals = some condition)).toNat) := by
  cases attempts <;> cases waited <;> cases condition <;>
    simp_all [Call.counted, Queue.supply, Call.stalls, Call.waitsFor, Call.signals,
      Outcome.isBlocked] <;> omega

/-- What one thread's move does to the three counts. -/
theorem tally (place : Fin n → Thread) (tid : Fin n) (thread : Thread) (condition : Condition) :
    (count (Thread.sleepsOn condition) (Function.update place tid thread) +
        ((place tid).sleepsOn condition).toNat =
      count (Thread.sleepsOn condition) place + (thread.sleepsOn condition).toNat) ∧
    (count (Thread.resumes condition) (Function.update place tid thread) +
        ((place tid).resumes condition).toNat =
      count (Thread.resumes condition) place + (thread.resumes condition).toNat) ∧
    (count (Thread.signalsTo condition) (Function.update place tid thread) +
        ((place tid).signalsTo condition).toNat =
      count (Thread.signalsTo condition) place + (thread.signalsTo condition).toNat) :=
  ⟨count_update _ _ _ _, count_update _ _ _ _, count_update _ _ _ _⟩

/-! ### The counts after a move -/

section Counts

variable {base queue : Queue} {place : Fin n → Thread} {tid : Fin n} {call : Call}

/-- A call that finds nothing does not take part in what is on its way. -/
theorem Awake.blocks (awake : Awake base place) {waited : Bool} {point : Point}
    (here : place tid = .inside call waited point)
    (same : ∀ condition, queue.supply condition = base.supply condition)
    (nothing : ∀ condition, call.stalls condition = true → base.supply condition = 0) :
    Awake queue (Function.update place tid (.waiting call)) := by
  intro condition sleeper
  have sameSupply := same condition
  obtain ⟨asleep, resumes, signals⟩ := tally place tid (.waiting call) condition
  simp only [here, Thread.sleepsOn, Thread.resumes, Thread.signalsTo, Bool.toNat_false]
    at asleep resumes signals
  have enough := awake condition (by omega)
  cases stalls : call.stalls condition with
  | true =>
      have empty := nothing condition stalls
      omega
  | false =>
      simp only [stalls, Bool.and_false, Bool.toNat_false] at resumes
      omega

/-- A success uses up what its call waited for, and is on its way to signal what
it has made room for. -/
theorem Awake.succeeds (awake : Awake base place) {waited : Bool} {point : Point} (ret : Ret)
    (here : place tid = .inside call waited point)
    (supplied : ∀ condition, queue.supply condition + (call.stalls condition).toNat =
      base.supply condition + (decide (call.signals = some condition)).toNat) :
    Awake queue (Function.update place tid (Variant.cond.afterDone call ret)) := by
  intro condition sleeper
  have supply := supplied condition
  obtain ⟨asleep, resumes, signals⟩ :=
    tally place tid (Variant.cond.afterDone call ret) condition
  have noSleep : (Variant.cond.afterDone call ret).sleepsOn condition = false :=
    afterDone_elim (P := fun thread => thread.sleepsOn condition = false) rfl rfl _
  have noResume : (Variant.cond.afterDone call ret).resumes condition = false :=
    afterDone_elim (P := fun thread => thread.resumes condition = false) rfl rfl _
  have signalling : (Variant.cond.afterDone call ret).signalsTo condition =
      decide (call.signals = some condition) := by
    cases call <;> cases condition <;> rfl
  rw [noSleep, here] at asleep
  rw [noResume, here] at resumes
  rw [signalling, here] at signals
  simp only [Thread.sleepsOn, Thread.resumes, Thread.signalsTo, Bool.toNat_false]
    at asleep resumes signals
  have enough := awake condition (by omega)
  cases waited <;> cases stalls : call.stalls condition <;>
    simp only [stalls, Bool.and_false, Bool.and_true, Bool.toNat_false, Bool.toNat_true]
      at resumes supply <;> omega

/-- A call goes to sleep because it found nothing. -/
theorem Awake.waits (awake : Awake base place) (here : place tid = .waiting call)
    (blocked : ∀ condition, call.waitsFor = some condition → base.supply condition = 0) :
    Awake base (Function.update place tid (.sleeping call)) := by
  intro condition sleeper
  obtain ⟨asleep, resumes, signals⟩ := tally place tid (.sleeping call) condition
  simp only [here, Thread.resumes, Thread.signalsTo, Bool.toNat_false] at resumes signals
  by_cases stalls : call.waitsFor = some condition
  · have empty := blocked condition stalls
    omega
  · simp only [here, Thread.sleepsOn, stalls, decide_false, Bool.toNat_false] at asleep
    have enough := awake condition (by omega)
    omega

/-- Who wakes up is on its way. -/
theorem Awake.wakes (awake : Awake base place) (here : place tid = .sleeping call) :
    Awake base (Function.update place tid (.woken call)) := by
  intro condition sleeper
  obtain ⟨asleep, resumes, signals⟩ := tally place tid (.woken call) condition
  simp only [here, Thread.sleepsOn, Thread.resumes, Thread.signalsTo, Bool.toNat_false]
    at asleep resumes signals
  have same : call.stalls condition = decide (call.waitsFor = some condition) := rfl
  rw [same] at resumes
  have enough := awake condition (by omega)
  omega

/-- A signal passes from its sender to the call it wakes. -/
theorem Awake.signals (awake : Awake base place) {other : Fin n} {sleeper : Call} (ret : Ret)
    (different : tid ≠ other) (here : place tid = .signalling call ret)
    (asleep : place other = .sleeping sleeper) (waits : sleeper.waitsFor = call.signals) :
    Awake base (Function.update (Function.update place other (.woken sleeper)) tid
      (.releasing call ret)) := by
  intro condition stillAsleep
  obtain ⟨asleepOne, resumesOne, signalsOne⟩ := tally place other (.woken sleeper) condition
  obtain ⟨asleepTwo, resumesTwo, signalsTwo⟩ :=
    tally (Function.update place other (.woken sleeper)) tid (.releasing call ret) condition
  simp only [asleep, Thread.sleepsOn, Thread.resumes, Thread.signalsTo, Bool.toNat_false]
    at asleepOne resumesOne signalsOne
  simp only [Function.update_of_ne different, here, Thread.sleepsOn, Thread.resumes,
    Thread.signalsTo, Bool.toNat_false] at asleepTwo resumesTwo signalsTwo
  have enough := awake condition (by omega)
  rw [← waits] at signalsTwo
  have same : sleeper.stalls condition = decide (sleeper.waitsFor = some condition) := rfl
  rw [same] at resumesOne
  omega

/-- A signal is lost only where nobody sleeps. -/
theorem Awake.signalsNobody (awake : Awake base place) (ret : Ret)
    (here : place tid = .signalling call ret)
    (nobody : ∀ other condition, call.signals = some condition →
      (place other).sleepsOn condition = false) :
    Awake base (Function.update place tid (.releasing call ret)) := by
  intro condition sleeper
  obtain ⟨asleep, resumes, signals⟩ := tally place tid (.releasing call ret) condition
  simp only [here, Thread.sleepsOn, Thread.resumes, Thread.signalsTo, Bool.toNat_false]
    at asleep resumes signals
  by_cases signalled : call.signals = some condition
  · have noSleeper := count_eq_zero_iff.mpr fun other => nobody other condition signalled
    omega
  · simp only [signalled, decide_false, Bool.toNat_false] at signals
    have enough := awake condition (by omega)
    omega

end Counts

theorem wakes_step {maxCount : Nat} {s next : State n} {action : Action n}
    (wakes : Wakes maxCount s) (stepped : threadStep .cond s action = some next) :
    Wakes maxCount next := by
  have inv := condInv_step wakes.inv stepped
  obtain ⟨running, move⟩ := threadStep_move stepped
  cases move with
  | call here | acquire here granted | reacquire here granted | release here | return_ here
  | goto here ran =>
      refine wakes.moves inv rfl rfl (by simp) ?_ ?_ ?_ <;>
        · intro condition
          rw [here]
          rfl
  | fault here ran => exact ⟨inv, wakes.blocked, wakes.awake⟩
  | @blocks tid block call waited point queue waits here ran =>
      obtain ⟨chosen, passed⟩ := (wakes.inv.underway here).blocked ran
      obtain ⟨addrs, buffer, holds, serves⟩ := wakes.inv.fifo
      obtain ⟨nextAddrs, attempts, shape⟩ := pass_cases holds passed
      have owns : (s.thread tid).owns = true := by rw [here]; rfl
      have unchanged := fun condition => (attempts_supply attempts condition).1 rfl
      refine ⟨inv, ?_, wakes.awake.blocks here (fun condition => (unchanged condition).1)
        fun condition => (unchanged condition).2⟩
      intro other otherCall condition waiting waitsFor
      obtain ⟨same, nothing⟩ := unchanged condition
      by_cases isTid : other = tid
      · simp only [State.setThread, isTid, Function.update_self, Thread.waiting.injEq] at waiting
        subst waiting
        exact same.trans (nothing (by simp [Call.stalls, waitsFor]))
      · simp only [State.setThread, Function.update_of_ne isTid] at waiting
        exact absurd waiting (wakes.others owns isTid otherCall)
  | gives tries here ran => cases tries
  | @done tid block call waited point queue ret here ran =>
      obtain ⟨chosen, passed⟩ := (wakes.inv.underway here).done ran
      obtain ⟨addrs, buffer, holds, serves⟩ := wakes.inv.fifo
      obtain ⟨nextAddrs, attempts, shape⟩ := pass_cases holds passed
      have owns : (s.thread tid).owns = true := by rw [here]; rfl
      refine wakes.turns owns inv rfl (fun otherCall => ?_)
        (wakes.awake.succeeds ret here fun condition => (attempts_supply attempts condition).2 rfl)
      exact afterDone_elim (P := fun thread => thread ≠ .waiting otherCall) (by simp) (by simp) _
  | @wait tid call here =>
      have owns : (s.thread tid).owns = true := by rw [here]; rfl
      exact wakes.turns owns inv rfl (by simp)
        (wakes.awake.waits here fun condition => wakes.blocked tid call condition here)
  | @wake tid call here =>
      refine ⟨inv, ?_, wakes.awake.wakes here⟩
      intro other otherCall condition waiting waitsFor
      by_cases isTid : other = tid
      · simp [State.setThread, isTid] at waiting
      · simp only [State.setThread, Function.update_of_ne isTid] at waiting
        exact wakes.blocked other otherCall condition waiting waitsFor
  | @signal tid other call sleeper ret here asleep waits =>
      have different : tid ≠ other := by
        intro same
        subst same
        rw [asleep] at here
        cases here
      have owns : (s.thread tid).owns = true := by rw [here]; rfl
      refine ⟨inv, ?_, wakes.awake.signals ret different here asleep waits⟩
      intro another otherCall condition waiting waitsFor
      by_cases isTid : another = tid
      · simp [State.setThread, isTid] at waiting
      · by_cases isOther : another = other
        · simp [State.setThread, isOther, Function.update_of_ne different.symm] at waiting
        · simp only [State.setThread, Function.update_of_ne isTid,
            Function.update_of_ne isOther] at waiting
          exact absurd waiting (wakes.others owns isTid otherCall)
  | @signalNobody tid call ret here nobody =>
      have owns : (s.thread tid).owns = true := by rw [here]; rfl
      exact wakes.turns owns inv rfl (by simp) (wakes.awake.signalsNobody ret here nobody)

theorem start_wakes (n maxCount : Nat) : Wakes maxCount (State.start .cond n maxCount) where
  inv := start_condInv n maxCount
  blocked tid call condition waiting := by cases waiting
  awake condition sleeper := by
    have nobody : count (Thread.sleepsOn condition) (fun _ : Fin n => Thread.idle) = 0 :=
      count_eq_zero_iff.mpr fun _ => rfl
    rw [State.start, nobody] at sleeper
    cases sleeper

/-! ## Inside a pass -/

theorem quiet_counts {thread : Thread} (notOwner : thread.owns = false) (condition : Condition) :
    thread.resumes condition = thread.unchecked condition ∧
      thread.signalsTo condition = false ∧ thread.underway condition = false := by
  cases thread with
  | inside | waiting | signalling | releasing => cases notOwner
  | idle | acquiring | sleeping | woken | returning => exact ⟨rfl, rfl, rfl⟩

/-- What the pass under way has changed in the queue, it has changed in the
counts. -/
theorem underway_supply {call : Call} {waited : Bool} {base queue : Queue} {point : Point}
    (underway : Underway call waited base point queue) (condition : Condition) :
    queue.supply condition +
        (((Thread.inside call waited point).resumes condition).toNat : Int) ≤
      base.supply condition + ((Thread.inside call waited point).unchecked condition).toNat +
        ((Thread.inside call waited point).underway condition).toNat := by
  have limit := underway.limit
  have changed := underway.count
  have visits := underway.visits
  cases call <;> cases point <;> cases waited <;> cases condition <;>
    simp_all [Call.visits, Point.appends, Point.removes, Point.change, Queue.supply,
      Thread.resumes, Thread.unchecked, Thread.underway, Call.stalls, Call.waitsFor,
      Call.signals] <;> omega

theorem tracks_supply {thread : Thread} {base queue : Queue} (tracks : thread.Tracks base queue)
    (owns : thread.owns = true) (condition : Condition) :
    queue.supply condition +
        (((thread.resumes condition).toNat + (thread.signalsTo condition).toNat : Nat) : Int) ≤
      base.supply condition +
        (((thread.unchecked condition).toNat + (thread.underway condition).toNat : Nat) : Int) := by
  cases thread with
  | inside call waited point =>
      have enough := underway_supply tracks condition
      simp only [Thread.signalsTo, Bool.toNat_false]
      omega
  | waiting call | releasing call ret =>
      have same : queue = base := tracks
      rw [same]
      exact le_refl _
  | signalling call ret =>
      have same : queue = base := tracks
      rw [same]
      exact le_refl _
  | idle | acquiring | sleeping | woken | returning => cases owns

theorem count_le_one {property : Thread → Bool} {s : State n} (sections : Sections .cond s)
    (owners : ∀ thread : Thread, property thread = true → thread.owns = true) :
    count property s.thread ≤ 1 := by
  obtain ⟨holder, held⟩ := sections
  rw [held.owners.count_eq owners]
  cases holder with
  | none => exact Nat.zero_le 1
  | some tid => exact Bool.toNat_le _

/-- The rule of `Awake`, for the queue as it is now. -/
theorem Wakes.supply {maxCount : Nat} {s : State n} (wakes : Wakes maxCount s)
    (condition : Condition) (sleeper : 0 < count (Thread.sleepsOn condition) s.thread) :
    s.queue.supply condition ≤
      count (Thread.unchecked condition) s.thread + count (Thread.underway condition) s.thread := by
  have enough := wakes.awake condition sleeper
  obtain ⟨holder, held⟩ := wakes.inv.sections
  cases holder with
  | none =>
      have quiet := held.owners.not_owns
      have resumes := count_congr fun tid => (quiet_counts (quiet tid) condition).1
      have signals := count_eq_zero_iff.mpr fun tid => (quiet_counts (quiet tid) condition).2.1
      rw [held.settled rfl]
      omega
  | some tid =>
      have owns := (held.owner tid).mpr rfl
      have tracks := tracks_supply (held.tracks tid rfl) owns condition
      -- the counts of the other threads are those with the holder taken out
      have without : Owner Thread.owns (Function.update s.thread tid .idle) none :=
        held.owners.gives rfl
      have quiet := without.not_owns
      have sameResumes := count_congr fun other => (quiet_counts (quiet other) condition).1
      have noSignals := count_eq_zero_iff.mpr fun other =>
        (quiet_counts (quiet other) condition).2.1
      have noUnderway := count_eq_zero_iff.mpr fun other =>
        (quiet_counts (quiet other) condition).2.2
      have resumes := count_leaves (Thread.resumes condition) s.thread tid .idle rfl
      have signals := count_leaves (Thread.signalsTo condition) s.thread tid .idle rfl
      have unchecked := count_leaves (Thread.unchecked condition) s.thread tid .idle rfl
      have underway := count_leaves (Thread.underway condition) s.thread tid .idle rfl
      omega

/-! ## Producers and consumers -/

inductive Role where
  | producer
  | consumer
  | monitor
  deriving DecidableEq

def Call.role : Call → Role
  | .add _ => .producer
  | .get _ => .consumer
  | .printStats => .monitor

/-- Each thread makes the calls of its role only. -/
def Action.fits (role : Fin n → Role) : Action n → Bool
  | .call tid made => made.role = role tid
  | _ => true

def producersAndConsumers (role : Fin n → Role) (maxCount : Nat) : System (State n) (Action n) :=
  (sharedQueue .cond n maxCount).restrict (Action.fits role)

def InRole (role : Fin n → Role) (s : State n) : Prop :=
  ∀ tid call, (s.thread tid).current = some call → call.role = role tid

theorem move_inRole {role : Fin n → Role} {s next : State n} {action : Action n}
    (inRole : InRole role s) (fits : action.fits role = true) (move : Move .cond s action next) :
    InRole role next := by
  intro other call isCurrent
  by_cases calls : ∃ tid made, action = .call tid made
  · obtain ⟨tid, made, rfl⟩ := calls
    rw [call_thread move] at isCurrent
    by_cases here : other = tid
    · rw [here, Function.update_self, Thread.current, Option.some.injEq] at isCurrent
      rw [here, ← isCurrent]
      exact of_decide_eq_true fits
    · rw [Function.update_of_ne here] at isCurrent
      exact inRole other call isCurrent
  · have inside : ∀ tid made, action ≠ .call tid made :=
      fun tid made isCall => calls ⟨tid, made, isCall⟩
    exact inRole other call (move_current move inside other call isCurrent)

/-- Only the holder of the mutex may have changed `count` and not yet signalled,
or found something and not yet taken it; the rule is exact where it has not. -/
structure NoLostWakeup (role : Fin n → Role) (s : State n) : Prop where
  someoneAwake : ∃ tid, role tid ≠ .monitor ∧ ∀ call, s.thread tid ≠ .sleeping call
  enoughWoken : ∀ condition tid, (s.thread tid).sleepsOn condition = true →
    (∀ other, (s.thread other).underway condition = false) →
      s.queue.supply condition ≤ count (Thread.unchecked condition) s.thread
  withinOne : ∀ condition tid, (s.thread tid).sleepsOn condition = true →
    s.queue.supply condition ≤ count (Thread.unchecked condition) s.thread + 1
  holderUnderway : ∀ condition tid, (s.thread tid).underway condition = true →
    s.lock = .mutex (some tid)
  settled : s.lock = .mutex none → ∀ condition tid, (s.thread tid).underway condition = false

structure Roled (role : Fin n → Role) (maxCount : Nat) (s : State n) : Prop
    extends Wakes maxCount s where
  inRole : InRole role s

/-- A producer or consumer that is asleep takes part in neither count. -/
theorem apart_counts {thread : Thread} {condition : Condition}
    (asleep : ∀ call, thread.current = some call → call ≠ .printStats →
      thread = .sleeping call) :
    thread.resumes condition = false ∧ thread.signalsTo condition = false := by
  cases thread with
  | woken call | inside call | signalling call =>
      cases call with
      | printStats => cases condition <;> simp [Thread.resumes, Thread.signalsTo, Call.stalls,
          Call.waitsFor, Call.signals]
      | add | get => cases asleep _ rfl (by simp)
  | idle | acquiring | sleeping | waiting | releasing | returning => exact ⟨rfl, rfl⟩

theorem Roled.someoneAwake {role : Fin n → Role} {maxCount : Nat} {s : State n}
    (roled : Roled role maxCount s) (room : 0 < maxCount) {producer consumer : Fin n}
    (produces : role producer = .producer) (consumes : role consumer = .consumer) :
    ∃ tid, role tid ≠ .monitor ∧ ∀ call, s.thread tid ≠ .sleeping call := by
  by_contra nobody
  have asleep : ∀ tid, role tid ≠ .monitor → ∃ call, s.thread tid = .sleeping call := by
    intro tid notMonitor
    by_contra awake
    exact nobody ⟨tid, notMonitor, fun call sleeping => awake ⟨call, sleeping⟩⟩
  have apart : ∀ condition tid, (s.thread tid).resumes condition = false ∧
      (s.thread tid).signalsTo condition = false := by
    intro condition tid
    refine apart_counts fun call isCurrent notPrint => ?_
    have isRole := roled.inRole tid call isCurrent
    have notMonitor : role tid ≠ .monitor := by
      rw [← isRole]
      cases call with
      | printStats => exact absurd rfl notPrint
      | add | get => simp [Call.role]
    obtain ⟨sleeper, sleeping⟩ := asleep tid notMonitor
    rw [sleeping, Thread.current, Option.some.injEq] at isCurrent
    rw [sleeping, isCurrent]
  have noSupply : ∀ condition, (∃ tid, (s.thread tid).sleepsOn condition = true) →
      s.base.supply condition ≤ 0 := by
    rintro condition ⟨tid, sleeps⟩
    have enough := roled.awake condition (count_pos sleeps)
    rwa [count_eq_zero_iff.mpr fun other => (apart condition other).1,
      count_eq_zero_iff.mpr fun other => (apart condition other).2] at enough
  have noRoom := noSupply .notFull ⟨producer, by
    obtain ⟨call, sleeping⟩ := asleep producer (by rw [produces]; simp)
    have isRole := roled.inRole producer call (by rw [sleeping]; rfl)
    rw [produces] at isRole
    rw [sleeping]
    cases call <;> simp_all [Call.role, Thread.sleepsOn, Call.waitsFor]⟩
  have nothing := noSupply .notEmpty ⟨consumer, by
    obtain ⟨call, sleeping⟩ := asleep consumer (by rw [consumes]; simp)
    have isRole := roled.inRole consumer call (by rw [sleeping]; rfl)
    rw [consumes] at isRole
    rw [sleeping]
    cases call <;> simp_all [Call.role, Thread.sleepsOn, Call.waitsFor]⟩
  obtain ⟨addrs, buffer, holds, _⟩ := roled.inv.fifo
  have limit := holds.limit
  simp only [Queue.supply] at noRoom nothing
  omega

theorem underway_owns (condition : Condition) (thread : Thread)
    (underway : thread.underway condition = true) : thread.owns = true := by
  by_contra notOwner
  rw [(quiet_counts (Bool.eq_false_iff.mpr notOwner) condition).2.2] at underway
  cases underway

theorem Roled.noLostWakeup {role : Fin n → Role} {maxCount : Nat} {s : State n}
    (roled : Roled role maxCount s) (room : 0 < maxCount) {producer consumer : Fin n}
    (produces : role producer = .producer) (consumes : role consumer = .consumer) :
    NoLostWakeup role s := by
  refine ⟨roled.someoneAwake room produces consumes, ?_, ?_, ?_, ?_⟩
  · intro condition tid sleeps nobody
    have enough := roled.supply condition (count_pos sleeps)
    rw [count_eq_zero_iff.mpr nobody] at enough
    omega
  · intro condition tid sleeps
    have enough := roled.supply condition (count_pos sleeps)
    have one := count_le_one roled.inv.sections (underway_owns condition)
    omega
  · intro condition tid underway
    obtain ⟨holder, held⟩ := roled.inv.sections
    rw [held.lock, (held.owners tid).mp (underway_owns condition _ underway)]
    rfl
  · intro free condition tid
    obtain ⟨holder, held⟩ := roled.inv.sections
    have isFree := held.lock
    rw [free] at isFree
    obtain rfl : none = holder := Lock.mutex.inj isFree
    exact (quiet_counts (held.owners.not_owns tid) condition).2.2

theorem no_lost_wakeup (n maxCount : Nat) (role : Fin n → Role) (room : 0 < maxCount)
    (producer consumer : Fin n) (produces : role producer = .producer)
    (consumes : role consumer = .consumer) (actions : List (Action n)) :
    (producersAndConsumers role maxCount).Always (NoLostWakeup role) (State.start .cond n maxCount)
      actions := by
  refine System.always_of_invariant (Roled role maxCount)
    ⟨start_wakes n maxCount, fun tid call isCurrent => by cases isCurrent⟩ ?_
    (fun _ roled => roled.noLostWakeup room produces consumes) actions
  intro before action after roled stepped
  obtain ⟨fits, stepped⟩ := System.restrict_step _ _ _ _ _ stepped
  exact ⟨wakes_step roled.toWakes stepped,
    move_inRole roled.inRole fits (threadStep_move stepped).2⟩

def oneOfEach : Fin 2 → Role := ![.consumer, .producer]

/-- The consumer falls asleep on the empty queue and the producer has counted
its value, but not yet signalled. -/
def addsToSleeper (consumer producer : Fin n) : List (Action n) :=
  [.call consumer (.get (-1)), .acquire consumer] ++ List.replicate 3 (.statement consumer none) ++
    [.wait consumer] ++ [.call producer (.add 7), .acquire producer] ++
    List.replicate 9 (.statement producer (some (100, ⟨0, none⟩)))

theorem no_lost_wakeup_addsToSleeper :
    (producersAndConsumers oneOfEach 1).Always (NoLostWakeup oneOfEach) (State.start .cond 2 1)
      (addsToSleeper 0 1) :=
  no_lost_wakeup 2 1 oneOfEach (by decide) 1 0 rfl rfl (addsToSleeper 0 1)

theorem counted_before_signal :
    ¬ (producersAndConsumers oneOfEach 1).Always
      (fun s => ∀ condition tid, (s.thread tid).sleepsOn condition = true →
        s.queue.supply condition ≤ count (Thread.unchecked condition) s.thread)
      (State.start .cond 2 1) (addsToSleeper 0 1) := by
  intro always
  have enough := always.along (addsToSleeper 0 1) [] rfl
  exact absurd (enough .notEmpty 0 rfl) (by decide)

end OsLabs.Sync
