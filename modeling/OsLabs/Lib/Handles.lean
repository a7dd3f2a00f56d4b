import OsLabs.Lib.Exclusive

/-!
# Descriptors and blocks in the hands of threads

A process whose threads open descriptors, allocate blocks that hold one, and
pass them on to threads they create.  The system gives any number that is not
in use, so a number comes back as soon as it was closed or freed.  `Roles` says
what a thread has at each place; `Handed` is the invariant, and its lemmas are
the things a thread can do.
-/

set_option autoImplicit false

namespace OsLabs.Handles

open OsLabs.Exclusive

universe u

abbrev Tid := Nat

abbrev Fd := Nat

abbrev Block := Nat

inductive Resource where
  | descriptor (fd : Fd)
  | block (block : Block)
  deriving DecidableEq

/-- A block that was allocated and not filled holds nothing.  `faulted` is set by
a close of a number that is not open, and by a free or a use of a block that is
not there. -/
structure Process (Place : Type u) where
  isOpen : Fd → Bool
  heap : Block → Option (Option Fd)
  place : Tid → Place
  faulted : Bool

/-- What a thread is still to pass on, close or free, and which of its blocks it
knows the content of. -/
structure Roles (Place : Type u) where
  unborn : Place
  resources : Place → List Resource
  knows : Place → List (Block × Fd)
  unborn_idle : resources unborn = []
  knows_own : ∀ place known, known ∈ knows place → .block known.1 ∈ resources place

variable {Place : Type u}

namespace Process

def goto (s : Process Place) (tid : Tid) (place : Place) : Process Place :=
  { s with place := Function.update s.place tid place }

def fault (s : Process Place) : Process Place := { s with faulted := true }

/-- A new descriptor is a number that is not in use. -/
def openNew (s : Process Place) (tid : Tid) (fd : Fd) (place : Place) : Option (Process Place) :=
  if s.isOpen fd then none
  else some { s.goto tid place with isOpen := Function.update s.isOpen fd true }

def close (s : Process Place) (tid : Tid) (fd : Fd) (place : Place) : Process Place :=
  if s.isOpen fd then { s.goto tid place with isOpen := Function.update s.isOpen fd false }
  else s.fault

def malloc (s : Process Place) (tid : Tid) (block : Block) (place : Place) :
    Option (Process Place) :=
  if (s.heap block).isSome then none
  else some { s.goto tid place with heap := Function.update s.heap block (some none) }

def fill (s : Process Place) (tid : Tid) (fd : Fd) (block : Block) (place : Place) :
    Process Place :=
  if (s.heap block).isSome then
    { s.goto tid place with heap := Function.update s.heap block (some (some fd)) }
  else s.fault

def free (s : Process Place) (tid : Tid) (block : Block) (place : Place) : Process Place :=
  if (s.heap block).isSome then
    { s.goto tid place with heap := Function.update s.heap block none }
  else s.fault

/-- A new thread, at its first statement. -/
def create [DecidableEq Place] (roles : Roles Place) (s : Process Place) (child : Tid)
    (first : Place) : Option (Process Place) :=
  if s.place child = roles.unborn then some (s.goto child first) else none

/-- One descriptor is open, and only the first thread is there. -/
def start (roles : Roles Place) (listening : Fd) (first : Place) : Process Place where
  isOpen fd := fd = listening
  heap := fun _ => none
  place tid := if tid = 0 then first else roles.unborn
  faulted := false

variable {s next : Process Place} {tid : Tid} {fd : Fd} {block : Block} {place : Place}

theorem malloc_place (allocated : s.malloc tid block place = some next) :
    next.place = Function.update s.place tid place := by
  unfold malloc at allocated
  split at allocated <;> cases allocated
  rfl

theorem fill_place (isThere : (s.heap block).isSome = true) :
    (s.fill tid fd block place).place = Function.update s.place tid place := by
  rw [fill, if_pos isThere]
  rfl

theorem close_place (isThere : s.isOpen fd = true) :
    (s.close tid fd place).place = Function.update s.place tid place := by
  rw [close, if_pos isThere]
  rfl

end Process

variable {roles : Roles Place}

def Roles.Holds (roles : Roles Place) (place : Place) (resource : Resource) : Prop :=
  resource ∈ roles.resources place

/-- The blocks a thread knows the content of hold what it knows. -/
def Roles.Known (roles : Roles Place) (heap : Block → Option (Option Fd)) (place : Place) : Prop :=
  ∀ known ∈ roles.knows place, heap known.1 = some (some known.2)

/-- Nothing is closed or freed twice, or used after its end; each open descriptor
but the listening one, and each block, is in the hands of exactly one thread. -/
structure Accounted (roles : Roles Place) (listening : Fd) (s : Process Place) : Prop where
  sound : s.faulted = false
  descriptors : ∀ fd, s.isOpen fd = true ↔
    fd = listening ∨ ∃ tid, roles.Holds (s.place tid) (.descriptor fd)
  blocks : ∀ block, s.heap block ≠ none ↔ ∃ tid, roles.Holds (s.place tid) (.block block)
  listens : ∀ tid, ¬ roles.Holds (s.place tid) (.descriptor listening)
  single : ∀ resource first second, roles.Holds (s.place first) resource →
    roles.Holds (s.place second) resource → first = second

structure Handed (roles : Roles Place) (listening : Fd) (owner : Resource → Option Tid)
    (s : Process Place) : Prop where
  owners : Owners roles.Holds s.place owner
  descriptors : ∀ fd, s.isOpen fd = true ↔ fd = listening ∨ owner (.descriptor fd) ≠ none
  blocks : ∀ block, s.heap block ≠ none ↔ owner (.block block) ≠ none
  listens : owner (.descriptor listening) = none
  known : ∀ tid, roles.Known s.heap (s.place tid)
  sound : s.faulted = false

theorem Roles.known_of_nil (heap : Block → Option (Option Fd)) {place : Place}
    (nothing : roles.knows place = []) : roles.Known heap place := by
  intro known member
  rw [nothing] at member
  cases member

/-- Without a block there is nothing to know. -/
theorem Roles.known_idle (heap : Block → Option (Option Fd)) {place : Place}
    (idle : roles.resources place = []) : roles.Known heap place := by
  intro known member
  have own := roles.knows_own place known member
  rw [idle] at own
  cases own

theorem start_handed (listening : Fd) {first : Place} (idle : roles.resources first = []) :
    Handed roles listening (fun _ => none) (.start roles listening first) := by
  have allIdle : ∀ tid, roles.resources ((Process.start roles listening first).place tid) = [] := by
    intro tid
    simp only [Process.start]
    split
    · exact idle
    · exact roles.unborn_idle
  refine ⟨fun resource tid => ?_, fun fd => ?_, fun block => ?_, rfl, fun tid => ?_, rfl⟩
  · simp [Roles.Holds, allIdle]
  · simp [Process.start]
  · simp [Process.start]
  · exact Roles.known_idle _ (allIdle tid)

theorem Roles.Known.update {place : Place} {heap : Block → Option (Option Fd)} {block : Block}
    (known : roles.Known heap place) (apart : ¬ roles.Holds place (.block block))
    (value : Option (Option Fd)) : roles.Known (Function.update heap block value) place := by
  intro found member
  have different : found.1 ≠ block := by
    rintro rfl
    exact apart (roles.knows_own place found member)
  rw [Function.update_of_ne different]
  exact known found member

theorem place_update {P : Place → Prop} {place : Tid → Place} (all : ∀ other, P (place other))
    (tid : Tid) {new : Place} (holds : P new) (other : Tid) :
    P (Function.update place tid new other) := by
  by_cases here : other = tid
  · rw [here, Function.update_self]
    exact holds
  · rw [Function.update_of_ne here]
    exact all other

section Steps

variable {listening : Fd} {owner : Resource → Option Tid} {s next : Process Place} {tid : Tid}
  {place : Place}

theorem Handed.has (handed : Handed roles listening owner s) {resource : Resource}
    (holds : roles.Holds (s.place tid) resource) : owner resource ≠ none := by
  rw [(handed.owners resource tid).mpr holds]
  exact nofun

/-- A thread's own descriptor is open, and is not the listening one. -/
theorem Handed.own_open (handed : Handed roles listening owner s) {fd : Fd}
    (holds : roles.Holds (s.place tid) (.descriptor fd)) :
    s.isOpen fd = true ∧ fd ≠ listening := by
  refine ⟨(handed.descriptors fd).mpr (Or.inr (handed.has holds)), ?_⟩
  rintro rfl
  exact handed.has holds handed.listens

theorem Handed.own_block (handed : Handed roles listening owner s) {block : Block}
    (holds : roles.Holds (s.place tid) (.block block)) : (s.heap block).isSome = true :=
  Option.isSome_iff_ne_none.mpr ((handed.blocks block).mpr (handed.has holds))

/-- The thread goes on with what it has. -/
theorem Handed.goes (handed : Handed roles listening owner s)
    (same : roles.resources place = roles.resources (s.place tid))
    (known : roles.Known s.heap place) : Handed roles listening owner (s.goto tid place) where
  owners := handed.owners.keeps fun other => by simp only [Roles.Holds, same]
  descriptors := handed.descriptors
  blocks := handed.blocks
  listens := handed.listens
  known := place_update (P := roles.Known s.heap) handed.known tid known
  sound := handed.sound

theorem Handed.proceeds (handed : Handed roles listening owner s)
    (same : roles.resources place = roles.resources (s.place tid))
    (nothing : roles.knows place = []) : ∃ owner, Handed roles listening owner (s.goto tid place) :=
  ⟨owner, handed.goes same (Roles.known_of_nil _ nothing)⟩

theorem Handed.opens (handed : Handed roles listening owner s) {fd : Fd}
    (after : roles.resources place = [.descriptor fd])
    (before : roles.resources (s.place tid) = [])
    (known : roles.knows place = []) (opened : s.openNew tid fd place = some next) :
    ∃ owner, Handed roles listening owner next := by
  unfold Process.openNew at opened
  split at opened
  · cases opened
  · rename_i closed
    cases opened
    have unused := mt (handed.descriptors fd).mpr closed
    rw [not_or, not_not] at unused
    refine ⟨Function.update owner (.descriptor fd) (some tid),
      handed.owners.takes unused.2 fun other => ?_, fun other => ?_, fun block => ?_, ?_,
      place_update (P := roles.Known s.heap) handed.known tid (Roles.known_of_nil _ known),
      handed.sound⟩
    · simp [Roles.Holds, after, before]
    · by_cases here : other = fd
      · simp [here]
      · have apart : Resource.descriptor other ≠ .descriptor fd := by simpa using here
        rw [Function.update_of_ne apart]
        simpa [Function.update_of_ne here] using handed.descriptors other
    · rw [Function.update_of_ne (by simp)]
      exact handed.blocks block
    · have apart : Resource.descriptor listening ≠ .descriptor fd := by
        simpa using Ne.symm unused.1
      rw [Function.update_of_ne apart]
      exact handed.listens

/-- Nobody else has the number that is closed. -/
theorem Handed.closes (handed : Handed roles listening owner s) {fd : Fd}
    (holds : roles.Holds (s.place tid) (.descriptor fd))
    (after : ∀ other, roles.Holds place other ↔
      roles.Holds (s.place tid) other ∧ other ≠ .descriptor fd)
    (known : roles.knows place = []) :
    ∃ owner, Handed roles listening owner (s.close tid fd place) := by
  obtain ⟨isOpen, notListening⟩ := handed.own_open holds
  rw [Process.close, if_pos isOpen]
  refine ⟨Function.update owner (.descriptor fd) none,
    handed.owners.gives holds after, fun other => ?_, fun block => ?_, ?_,
    place_update (P := roles.Known s.heap) handed.known tid (Roles.known_of_nil _ known),
    handed.sound⟩
  · by_cases here : other = fd
    · simp [here, notListening]
    · have apart : Resource.descriptor other ≠ .descriptor fd := by simpa using here
      rw [Function.update_of_ne apart]
      simpa [Function.update_of_ne here] using handed.descriptors other
  · rw [Function.update_of_ne (by simp)]
    exact handed.blocks block
  · have apart : Resource.descriptor listening ≠ .descriptor fd := by
      simpa using Ne.symm notListening
    rw [Function.update_of_ne apart]
    exact handed.listens

/-- The thread is left with nothing. -/
theorem Handed.closes_only (handed : Handed roles listening owner s) {fd : Fd}
    (before : roles.resources (s.place tid) = [.descriptor fd])
    (after : roles.resources place = []) :
    ∃ owner, Handed roles listening owner (s.close tid fd place) := by
  refine handed.closes ?_ (fun other => ?_) ?_
  · simp [Roles.Holds, before]
  · simp [Roles.Holds, before, after]
  · rw [List.eq_nil_iff_forall_not_mem]
    intro known member
    have own := roles.knows_own place known member
    rw [after] at own
    cases own

theorem Handed.mallocs (handed : Handed roles listening owner s) {fd : Fd} {block : Block}
    (before : roles.resources (s.place tid) = [.descriptor fd])
    (after : roles.resources place = [.descriptor fd, .block block])
    (known : roles.knows place = []) (allocated : s.malloc tid block place = some next) :
    ∃ owner, Handed roles listening owner next := by
  unfold Process.malloc at allocated
  split at allocated
  · cases allocated
  · rename_i free
    cases allocated
    have unused : owner (.block block) = none := by
      by_contra owned
      have stored := (handed.blocks block).mpr owned
      exact free (Option.isSome_iff_ne_none.mpr stored)
    have others : ∀ other, ¬ roles.Holds (s.place other) (.block block) := by
      intro other holds
      exact handed.has holds unused
    refine ⟨Function.update owner (.block block) (some tid),
      handed.owners.takes unused fun other => ?_, fun other => ?_, fun other => ?_, ?_,
      place_update (P := roles.Known _)
        (fun other => (handed.known other).update (others other) _) tid
        (Roles.known_of_nil _ known), handed.sound⟩
    · simp [Roles.Holds, after, before]
    · rw [Function.update_of_ne (by simp)]
      exact handed.descriptors other
    · by_cases here : other = block
      · simp [here]
      · have apart : Resource.block other ≠ .block block := by simpa using here
        rw [Function.update_of_ne apart]
        simpa [Function.update_of_ne here] using handed.blocks other
    · rw [Function.update_of_ne (by simp)]
      exact handed.listens

/-- What a thread does to its own block matters to no other thread. -/
theorem Handed.others_known (handed : Handed roles listening owner s) {block : Block}
    (holds : roles.Holds (s.place tid) (.block block)) (value : Option (Option Fd)) {place : Place}
    (known : roles.Known (Function.update s.heap block value) place) (other : Tid) :
    roles.Known (Function.update s.heap block value) (Function.update s.place tid place other) := by
  by_cases here : other = tid
  · rw [here, Function.update_self]
    exact known
  · rw [Function.update_of_ne here]
    exact (handed.known other).update (fun also => here (handed.owners.unique also holds)) value

theorem Handed.fills (handed : Handed roles listening owner s) {fd : Fd} {block : Block}
    (holds : roles.Holds (s.place tid) (.block block))
    (same : roles.resources place = roles.resources (s.place tid))
    (known : ∀ found ∈ roles.knows place, found = (block, fd)) :
    Handed roles listening owner (s.fill tid fd block place) := by
  have isKnown : roles.Known (Function.update s.heap block (some (some fd))) place := by
    intro found member
    rw [known found member, Function.update_self]
  rw [Process.fill, if_pos (handed.own_block holds)]
  refine ⟨handed.owners.keeps fun other => by simp only [Roles.Holds, same],
    handed.descriptors, fun other => ?_, handed.listens, handed.others_known holds _ isKnown,
    handed.sound⟩
  by_cases here : other = block
  · simpa [here] using handed.has holds
  · simpa [Function.update_of_ne here] using handed.blocks other

theorem Handed.frees (handed : Handed roles listening owner s) {fd : Fd} {block : Block}
    (before : roles.resources (s.place tid) = [.descriptor fd, .block block])
    (after : roles.resources place = [.descriptor fd]) (known : roles.knows place = []) :
    ∃ owner, Handed roles listening owner (s.free tid block place) := by
  have holds : roles.Holds (s.place tid) (.block block) := by simp [Roles.Holds, before]
  rw [Process.free, if_pos (handed.own_block holds)]
  refine ⟨Function.update owner (.block block) none,
    handed.owners.gives holds fun other => ?_, fun other => ?_, fun other => ?_, ?_,
    handed.others_known holds _ (Roles.known_of_nil _ known), handed.sound⟩
  · simp only [Roles.Holds, after, before, List.mem_cons, List.not_mem_nil, or_false]
    constructor
    · rintro rfl
      exact ⟨Or.inl rfl, by simp⟩
    · rintro ⟨isFd | isBlock, apart⟩
      · exact isFd
      · exact absurd isBlock apart
  · rw [Function.update_of_ne (by simp)]
    exact handed.descriptors other
  · by_cases here : other = block
    · simp [here]
    · have apart : Resource.block other ≠ .block block := by simpa using here
      rw [Function.update_of_ne apart]
      simpa [Function.update_of_ne here] using handed.blocks other
  · rw [Function.update_of_ne (by simp)]
    exact handed.listens

variable [DecidableEq Place]

/-- All that a thread has goes to a new one. -/
theorem Handed.creates (handed : Handed roles listening owner s) {child : Tid}
    {left first : Place} (nothing : roles.resources left = []) (isBorn : left ≠ roles.unborn)
    (same : roles.resources first = roles.resources (s.place tid))
    (known : roles.Known s.heap first)
    (created : (s.goto tid left).create roles child first = some next) :
    ∃ owner, Handed roles listening owner next := by
  unfold Process.create at created
  split at created
  · rename_i unborn
    cases created
    simp only [Process.goto] at unborn
    have different : child ≠ tid := by
      rintro rfl
      rw [Function.update_self] at unborn
      exact isBorn unborn
    rw [Function.update_of_ne different] at unborn
    have childIdle : roles.resources (s.place child) = [] := by
      rw [unborn]
      exact roles.unborn_idle
    have isOwned : ∀ resource, owner resource ≠ none ↔
        (if owner resource = some tid then some child else owner resource) ≠ none := by
      intro resource
      split
      · rename_i owned
        simp [owned]
      · rfl
    refine ⟨fun resource => if owner resource = some tid then some child else owner resource,
      handed.owners.passes (fun resource => ?_) (fun resource => ?_) (fun resource => ?_),
      fun fd => ?_, fun block => ?_, ?_, ?_, handed.sound⟩
    · simp [Roles.Holds, childIdle]
    · simp [Roles.Holds, nothing]
    · simp only [Roles.Holds, same]
    · rw [← isOwned]
      exact handed.descriptors fd
    · rw [← isOwned]
      exact handed.blocks block
    · simp [handed.listens]
    · exact place_update (P := roles.Known s.heap)
        (place_update (P := roles.Known s.heap) handed.known tid (Roles.known_idle _ nothing))
        child known
  · cases created

/-- A new thread starts with empty hands. -/
theorem Handed.starts (handed : Handed roles listening owner s) {child : Tid} {first : Place}
    (idle : roles.resources first = []) (created : s.create roles child first = some next) :
    Handed roles listening owner next := by
  unfold Process.create at created
  split at created
  · rename_i unborn
    cases created
    have same : roles.resources first = roles.resources (s.place child) := by
      rw [idle, unborn, roles.unborn_idle]
    exact handed.goes same (Roles.known_idle _ idle)
  · cases created

end Steps

theorem Handed.accounted {listening : Fd} {owner : Resource → Option Tid} {s : Process Place}
    (handed : Handed roles listening owner s) : Accounted roles listening s where
  sound := handed.sound
  descriptors fd := by
    rw [handed.descriptors fd, Option.ne_none_iff_exists']
    simp only [handed.owners (.descriptor fd)]
  blocks block := by
    rw [handed.blocks block, Option.ne_none_iff_exists']
    simp only [handed.owners (.block block)]
  listens tid holds := handed.has holds handed.listens
  single _ _ _ firstHolds secondHolds := handed.owners.unique firstHolds secondHolds

end OsLabs.Handles
