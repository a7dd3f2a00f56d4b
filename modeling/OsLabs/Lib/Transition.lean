import Mathlib.Logic.Basic
import Mathlib.Data.List.Induction

/-!
# Labelled transition systems and their runs

A system is a partial step function.  Every choice that is not the program's
own (which thread moves, what the environment answers) is part of the action,
so a run is determined by its list of actions.  `Always` speaks of every state
a run passes through, `Meets` of every step it takes; `always_iff_meets` is the
rule that turns a property of single steps into an exact condition on runs.
-/

set_option autoImplicit false

namespace OsLabs.Transition

universe u v

/-! ## Fallible operations -/

section Fallible

variable {Error Value Result : Type}

theorem ok_bind (value : Value) (rest : Value → Except Error Result) :
    (Except.ok value >>= rest) = rest value := rfl

theorem bind_ok {first : Except Error Value} {rest : Value → Except Error Result} {result : Result}
    (ran : (first >>= rest) = .ok result) :
    ∃ value, first = .ok value ∧ rest value = .ok result := by
  cases first with
  | error fault => cases ran
  | ok value => exact ⟨value, rfl, ran⟩

end Fallible

/-! ## Systems -/

structure System (State : Type u) (Action : Type v) where
  init : State
  step : State → Action → Option State

namespace System

variable {State : Type u} {Action : Type v} (S : System State Action)

def run : State → List Action → Option State
  | state, [] => some state
  | state, action :: rest =>
      match S.step state action with
      | none => none
      | some next => run next rest

def Reachable (state : State) : Prop :=
  ∃ actions, S.run S.init actions = some state

/-- The property holds in every state the actions lead through, the first one
included.  A run stops at the first action that is not possible. -/
def Always (P : State → Prop) : State → List Action → Prop
  | state, [] => P state
  | state, action :: rest =>
      P state ∧ ∀ next, S.step state action = some next → Always P next rest

/-- Every step the actions take starts in a state that meets the guard. -/
def Meets (guard : State → Action → Prop) : State → List Action → Prop
  | _, [] => True
  | state, action :: rest =>
      ∀ next, S.step state action = some next →
        guard state action ∧ Meets guard next rest

/-- The same system, where only the allowed actions are taken. -/
def restrict (allowed : Action → Bool) : System State Action where
  init := S.init
  step state action := if allowed action then S.step state action else none

theorem restrict_step (allowed : Action → Bool) (state next : State)
    (action : Action) (stepped : (S.restrict allowed).step state action = some next) :
    allowed action = true ∧ S.step state action = some next := by
  simp only [restrict] at stepped
  by_cases permitted : allowed action
  · exact ⟨permitted, by simpa [permitted] using stepped⟩
  · simp [permitted] at stepped

theorem run_append (first second : List Action) (state : State) :
    S.run state (first ++ second) =
      (S.run state first).bind fun middle => S.run middle second := by
  induction first generalizing state with
  | nil => rfl
  | cons action rest ih =>
      simp only [List.cons_append, run]
      cases stepped : S.step state action with
      | none => rfl
      | some next => exact ih next

variable {S}

theorem Reachable.step {state next : State} {action : Action}
    (reached : S.Reachable state) (stepped : S.step state action = some next) :
    S.Reachable next := by
  obtain ⟨actions, ran⟩ := reached
  refine ⟨actions ++ [action], ?_⟩
  rw [run_append, ran]
  simp [run, stepped]

theorem run_invariant (Inv : State → Prop)
    (preserved : ∀ state action next, Inv state →
      S.step state action = some next → Inv next)
    (state final : State) (actions : List Action) (start : Inv state)
    (ran : S.run state actions = some final) : Inv final := by
  induction actions generalizing state with
  | nil =>
      simp only [run, Option.some.injEq] at ran
      subst final
      exact start
  | cons action rest ih =>
      simp only [run] at ran
      cases stepped : S.step state action with
      | none => simp [stepped] at ran
      | some next =>
          simp only [stepped] at ran
          exact ih next (preserved state action next start stepped) ran

/-- An invariant of the state and the actions that have led to it. -/
theorem run_history (Inv : List Action → State → Prop) (start : Inv [] S.init)
    (preserved : ∀ actions state action next, Inv actions state →
      S.step state action = some next → Inv (actions ++ [action]) next)
    {actions : List Action} {state : State} (ran : S.run S.init actions = some state) :
    Inv actions state := by
  induction actions using List.reverseRecOn generalizing state with
  | nil =>
      simp only [run, Option.some.injEq] at ran
      subst state
      exact start
  | append_singleton front action ih =>
      rw [run_append] at ran
      obtain ⟨middle, ranFront, ranLast⟩ := Option.bind_eq_some_iff.mp ran
      have stepped : S.step middle action = some state := by
        cases last : S.step middle action with
        | none => simp [run, last] at ranLast
        | some next => simpa [run, last] using ranLast
      exact preserved front middle action state (ih ranFront) stepped

theorem Reachable.invariant (Inv : State → Prop) (start : Inv S.init)
    (preserved : ∀ state action next, Inv state →
      S.step state action = some next → Inv next)
    {state : State} (reached : S.Reachable state) : Inv state := by
  obtain ⟨actions, ran⟩ := reached
  exact run_invariant Inv preserved S.init state actions start ran

/-- A guard that every action of the list meets in every state. -/
theorem meets_of_actions (guard : State → Action → Prop) (state : State) (actions : List Action)
    (everywhere : ∀ action ∈ actions, ∀ state, guard state action) :
    S.Meets guard state actions := by
  induction actions generalizing state with
  | nil => trivial
  | cons action rest ih =>
      intro next _
      exact ⟨everywhere action (by simp) state,
        ih next fun later member => everywhere later (by simp [member])⟩

/-- A guard that every step meets under an invariant. -/
theorem meets_of_invariant (guard : State → Action → Prop) (Inv : State → Prop)
    (preserved : ∀ state action next, Inv state →
      S.step state action = some next → Inv next)
    (gives : ∀ state action, Inv state → guard state action)
    (state : State) (actions : List Action) (start : Inv state) : S.Meets guard state actions := by
  induction actions generalizing state with
  | nil => trivial
  | cons action rest ih =>
      intro next stepped
      exact ⟨gives state action start, ih next (preserved state action next start stepped)⟩

/-- A run never gets stuck when every action is possible under the invariant. -/
theorem run_total (Inv : State → Prop)
    (progress : ∀ state action, Inv state →
      ∃ next, S.step state action = some next ∧ Inv next)
    (state : State) (actions : List Action) (start : Inv state) :
    ∃ final, S.run state actions = some final ∧ Inv final := by
  induction actions generalizing state with
  | nil => exact ⟨state, rfl, start⟩
  | cons action rest ih =>
      obtain ⟨next, stepped, after⟩ := progress state action start
      obtain ⟨final, ran, holds⟩ := ih next after
      exact ⟨final, by simp only [run, stepped, ran], holds⟩

/-- How many steps of a run are counted.  A run stops at the first action that
is not possible. -/
def steps (S : System State Action) (counted : State → Action → Bool) :
    State → List Action → Nat
  | _, [] => 0
  | state, action :: rest =>
      match S.step state action with
      | none => 0
      | some next => (counted state action).toNat + steps S counted next rest

theorem steps_snoc (counted : State → Action → Bool) {state middle next : State}
    {actions : List Action} {action : Action} (ran : S.run state actions = some middle)
    (stepped : S.step middle action = some next) :
    S.steps counted state (actions ++ [action]) =
      S.steps counted state actions + (counted middle action).toNat := by
  induction actions generalizing state with
  | nil =>
      simp only [run, Option.some.injEq] at ran
      subst middle
      simp [steps, stepped]
  | cons first rest ih =>
      simp only [run] at ran
      cases firstStepped : S.step state first with
      | none => simp [firstStepped] at ran
      | some between =>
          simp only [firstStepped] at ran
          simp only [List.cons_append, steps, firstStepped, ih ran]
          omega

/-- Where every counted step uses up one unit of work and no other step uses
any, the counted steps of a run are the work that it has done. -/
theorem steps_add_work (counted : State → Action → Bool) (work : State → Nat)
    (Inv : State → Prop)
    (preserved : ∀ state action next, Inv state →
      S.step state action = some next → Inv next)
    (uses : ∀ state action next, Inv state → S.step state action = some next →
      work next + (counted state action).toNat = work state)
    (state final : State) (actions : List Action) (start : Inv state)
    (ran : S.run state actions = some final) :
    S.steps counted state actions + work final = work state := by
  induction actions generalizing state with
  | nil =>
      simp only [run, Option.some.injEq] at ran
      subst final
      simp [steps]
  | cons action rest ih =>
      simp only [run] at ran
      cases stepped : S.step state action with
      | none => simp [stepped] at ran
      | some next =>
          simp only [stepped] at ran
          have later := ih next (preserved state action next start stepped) ran
          have here := uses state action next start stepped
          simp only [steps, stepped]
          omega

/-- Some continuation leads to a state with the property. -/
def Can (S : System State Action) (P : State → Prop) (state : State) : Prop :=
  ∃ actions final, S.run state actions = some final ∧ P final

theorem Can.now {P : State → Prop} {state : State} (holds : P state) : S.Can P state :=
  ⟨[], state, rfl, holds⟩

theorem Can.step {P : State → Prop} {state next : State} {action : Action}
    (stepped : S.step state action = some next) (later : S.Can P next) : S.Can P state := by
  obtain ⟨actions, final, ran, holds⟩ := later
  exact ⟨action :: actions, final, by simp only [run, stepped, ran], holds⟩

theorem Can.trans {P Q : State → Prop} {state : State} (first : S.Can Q state)
    (second : ∀ next, Q next → S.Can P next) : S.Can P state := by
  obtain ⟨front, middle, ranFront, holds⟩ := first
  obtain ⟨back, final, ranBack, ends⟩ := second middle holds
  exact ⟨front ++ back, final, by rw [run_append, ranFront]; exact ranBack, ends⟩

/-- What every continuation keeps excludes what it excludes. -/
theorem not_can_of_invariant {P : State → Prop} (Inv : State → Prop)
    (preserved : ∀ state action next, Inv state →
      S.step state action = some next → Inv next)
    (excludes : ∀ state, Inv state → ¬ P state) {state : State} (start : Inv state) :
    ¬ S.Can P state := by
  rintro ⟨actions, final, ran, holds⟩
  exact excludes final (run_invariant Inv preserved state final actions start ran) holds

/-- The property can be reached where some continuation always reaches it or
leaves less work. -/
theorem can_of_descent {P : State → Prop} (Inv : Nat → State → Prop)
    (descends : ∀ work state, Inv work state →
      S.Can (fun next => P next ∨ ∃ less < work, Inv less next) state)
    {work : Nat} {state : State} (start : Inv work state) : S.Can P state := by
  induction work using Nat.strongRecOn generalizing state with
  | _ work ih =>
      refine (descends work state start).trans fun next after => ?_
      rcases after with holds | ⟨less, below, later⟩
      · exact Can.now holds
      · exact ih less below later

/-- Guards that agree under an invariant are met by the same runs. -/
theorem meets_congr (guard other : State → Action → Prop) (Inv : State → Prop)
    (preserved : ∀ state action next, Inv state →
      S.step state action = some next → Inv next)
    (agree : ∀ state action, Inv state → (guard state action ↔ other state action))
    (state : State) (actions : List Action) (start : Inv state) :
    S.Meets guard state actions ↔ S.Meets other state actions := by
  induction actions generalizing state with
  | nil => exact Iff.rfl
  | cons action rest ih =>
      simp only [Meets]
      apply forall_congr'
      intro next
      apply imp_congr_right
      intro stepped
      exact and_congr (agree state action start)
        (ih next (preserved state action next start stepped))

/-- Safety under a guard: an invariant that guarded steps preserve holds along
every run whose steps meet the guard. -/
theorem always_of_meets (guard : State → Action → Prop) (Inv : State → Prop)
    (preserved : ∀ state action next, Inv state → guard state action →
      S.step state action = some next → Inv next)
    (state : State) (actions : List Action) (start : Inv state)
    (met : S.Meets guard state actions) : S.Always Inv state actions := by
  induction actions generalizing state with
  | nil => exact start
  | cons action rest ih =>
      refine ⟨start, ?_⟩
      intro next stepped
      obtain ⟨guarded, restMet⟩ := met next stepped
      exact ih next (preserved state action next start guarded stepped) restMet

/-- The guard at one step in the middle of a run that meets it. -/
theorem Meets.at_step {guard : State → Action → Prop} {state middle next : State}
    {action : Action} (front back : List Action)
    (met : S.Meets guard state (front ++ action :: back))
    (ran : S.run state front = some middle) (stepped : S.step middle action = some next) :
    guard middle action := by
  induction front generalizing state with
  | nil =>
      simp only [run, Option.some.injEq] at ran
      subst middle
      exact (met next stepped).1
  | cons first rest ih =>
      simp only [run] at ran
      cases firstStepped : S.step state first with
      | none => simp [firstStepped] at ran
      | some between =>
          simp only [firstStepped] at ran
          exact ih (met between firstStepped).2 ran

theorem Always.mono {P Q : State → Prop} (weaker : ∀ state, P state → Q state)
    {state : State} {actions : List Action} (holds : S.Always P state actions) :
    S.Always Q state actions := by
  induction actions generalizing state with
  | nil => exact weaker state holds
  | cons action rest ih =>
      refine ⟨weaker state holds.1, ?_⟩
      intro next stepped
      exact ih (holds.2 next stepped)

/-- The rest of a run, from the end of its first part on. -/
theorem Always.after {P : State → Prop} {state middle : State} (front back : List Action)
    (holds : S.Always P state (front ++ back)) (ran : S.run state front = some middle) :
    S.Always P middle back := by
  induction front generalizing state with
  | nil =>
      simp only [run, Option.some.injEq] at ran
      subst middle
      exact holds
  | cons first rest ih =>
      simp only [run] at ran
      cases stepped : S.step state first with
      | none => simp [stepped] at ran
      | some between =>
          simp only [stepped] at ran
          exact ih (holds.2 between stepped) ran

theorem Always.head {P : State → Prop} {state : State} {actions : List Action}
    (holds : S.Always P state actions) : P state := by
  cases actions with
  | nil => exact holds
  | cons action rest => exact holds.1

/-- The property at the end of the first part of a run. -/
theorem Always.along {P : State → Prop} {state middle : State} (front back : List Action)
    (holds : S.Always P state (front ++ back)) (ran : S.run state front = some middle) :
    P middle :=
  (holds.after front back ran).head

/-- When guarded steps preserve an invariant that implies the property, and an
unguarded step destroys the property at once, the guard is the exact condition
for the property to hold throughout a run. -/
theorem always_iff_meets (guard : State → Action → Prop) (Inv P : State → Prop)
    (enough : ∀ state, Inv state → P state)
    (preserved : ∀ state action next, Inv state → guard state action →
      S.step state action = some next → Inv next)
    (necessary : ∀ state action next, Inv state →
      S.step state action = some next → P next → guard state action)
    (state : State) (actions : List Action) (start : Inv state) :
    S.Always P state actions ↔ S.Meets guard state actions := by
  constructor
  · intro holds
    induction actions generalizing state with
    | nil => trivial
    | cons action rest ih =>
        intro next stepped
        have later := holds.2 next stepped
        have guarded := necessary state action next start stepped later.head
        exact ⟨guarded, ih next (preserved state action next start guarded stepped) later⟩
  · intro met
    exact (always_of_meets guard Inv preserved state actions start met).mono enough

/-- A property of every reachable state holds all along every run. -/
theorem always_of_reachable {P : State → Prop}
    (everywhere : ∀ state, S.Reachable state → P state)
    {state : State} (actions : List Action) (reached : S.Reachable state) :
    S.Always P state actions := by
  induction actions generalizing state with
  | nil => exact everywhere state reached
  | cons action rest ih =>
      refine ⟨everywhere state reached, ?_⟩
      intro next stepped
      exact ih (reached.step stepped)

/-- An invariant that gives the property in every state it holds in. -/
theorem always_of_invariant {P : State → Prop} (Inv : State → Prop) (start : Inv S.init)
    (preserved : ∀ state action next, Inv state →
      S.step state action = some next → Inv next)
    (gives : ∀ state, Inv state → P state) (actions : List Action) :
    S.Always P S.init actions := by
  have started : S.Reachable S.init := ⟨[], rfl⟩
  refine always_of_reachable ?_ actions started
  intro state reached
  exact gives state (reached.invariant Inv start preserved)

end System

end OsLabs.Transition
