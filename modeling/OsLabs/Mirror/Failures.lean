import OsLabs.Mirror.Copying

/-!
# Calls that fail during the copy

`reverse_inside` returns 1 at the first call that fails, but a call of it for a
directory inside drops this code.  The predicates say which names pass, where
the directory of a failure loses something by it, and where the overflow of
`reverse_file` is met; all of them speak of the tree as it is before the copy.
-/

set_option autoImplicit false

namespace OsLabs.Mirror

open OsLabs.Files OsLabs.Transition

/-! ## Names of the tree -/

def isCopied : Option Object → Bool
  | some (.directory _) | some (.regular _ _) => true
  | some (.other _) | none => false

/-- What belongs in the destination for an object of the source. -/
def Stands : Option Object → Option Object → Prop
  | some (.directory _), copy => isDirectory copy = true
  | some (.regular _ bytes), copy => ∃ mode, copy = some (.regular mode bytes.reverse)
  | some (.other _), _ | none, _ => True

theorem flat_of_not_copied {object : Option Object} (notCopied : isCopied object = false) :
    isDirectory object = false := by
  cases object with
  | none => rfl
  | some object =>
      cases object with
      | directory mode => cases notCopied
      | regular mode bytes => rfl
      | other mode => rfl

theorem isCopied_directory {object : Option Object} (isDir : isDirectory object = true) :
    isCopied object = true := by
  by_contra notCopied
  rw [flat_of_not_copied (Bool.eq_false_iff.mpr notCopied)] at isDir
  cases isDir

theorem stands_none {object : Option Object} : Stands object none ↔ isCopied object = false := by
  cases object with
  | none => simp [Stands, isCopied]
  | some object => cases object <;> simp [Stands, isCopied, isDirectory]

section Tree

variable (env : Environment) (src : FileSystem)

/-- A name that the loop does not pass over. -/
def Wanted (path : Path) (name : Name) : Prop :=
  name.head? ≠ some 46 ∧ isCopied (src.object (name :: path)) = true

/-- The calls of the loop for a name succeed. -/
def Passes (path pathReversed : Path) (name : Name) : Prop :=
  Wanted src path name →
    env.succeeds .stat (name :: path) = true ∧
      if isDirectory (src.object (name :: path)) then
        env.succeeds .mkdir (name.reverse :: pathReversed) = true
      else
        env.succeeds .fopen (name :: path) = true ∧
          env.succeeds .fopen (name.reverse :: pathReversed) = true ∧
          env.succeeds .chmod (name.reverse :: pathReversed) = true

/-- An empty file, which is as it should be once it is opened for writing. -/
def Harmless (path pathReversed : Path) (name : Name) : Prop :=
  (∃ mode, src.object (name :: path) = some (.regular mode [])) ∧
    env.succeeds .fopen (name.reverse :: pathReversed) = true

/-- A call fails for a harmless name only, and only after all that is wanted. -/
def StopsLate (path pathReversed : Path) (names : List Name) : Prop :=
  ∀ front name rest, names = front ++ name :: rest → ¬ Passes env src path pathReversed name →
    Harmless env src path pathReversed name ∧ ∀ other ∈ rest, ¬ Wanted src path other

/-- A directory of which nothing is lost by a failure among its own names. -/
def LosesNothing (path pathReversed : Path) : Prop :=
  (env.succeeds .opendir path = true ∨ ∀ name ∈ src.entries path, ¬ Wanted src path name) ∧
    StopsLate env src path pathReversed (src.entries path)

def SoundAt (path pathReversed : Path) : Prop :=
  (isDirectory (src.object path) = true → LosesNothing env src path pathReversed) ∧
    ∀ mode bytes, src.object path = some (.regular mode bytes) → bytes.length ≤ 2 ^ 31

/-- Nothing is lost anywhere in the tree. -/
def Sound (path pathReversed : Path) : Prop :=
  ∀ rel, visible rel = true → SoundAt env src (rel ++ path) (mirrorPath rel ++ pathReversed)

/-- The same for one name of a directory. -/
def SoundBelow (path pathReversed : Path) (name : Name) : Prop :=
  ∀ rel, visible (rel ++ [name]) = true →
    SoundAt env src (rel ++ name :: path) (mirrorPath rel ++ name.reverse :: pathReversed)

/-- No call fails for the directory itself or for a name in it. -/
def Clean (path pathReversed : Path) : Prop :=
  env.succeeds .opendir path = true ∧
    ∀ name ∈ src.entries path, Passes env src path pathReversed name

/-- The copy comes to a file for which `reverse_file` overflows: no call fails
for the names before, or for the directories on the way. -/
inductive Overflows : Path → Path → Prop where
  | file {path pathReversed : Path} {front rest : List Name} {name : Name} {mode : Nat}
      {bytes : List UInt8} (opens : env.succeeds .opendir path = true)
      (listing : src.entries path = front ++ name :: rest)
      (passes : ∀ other ∈ front ++ [name], Passes env src path pathReversed other)
      (seen : name.head? ≠ some 46) (found : src.object (name :: path) = some (.regular mode bytes))
      (overflow : reverseFile bytes = .error .overflow) : Overflows path pathReversed
  | inside {path pathReversed : Path} {front rest : List Name} {name : Name}
      (opens : env.succeeds .opendir path = true)
      (listing : src.entries path = front ++ name :: rest)
      (passes : ∀ other ∈ front ++ [name], Passes env src path pathReversed other)
      (seen : name.head? ≠ some 46) (found : isDirectory (src.object (name :: path)) = true)
      (below : Overflows (name :: path) (name.reverse :: pathReversed)) : Overflows path pathReversed

/-- The same for one name of a directory. -/
def OverflowsAt (path pathReversed : Path) (name : Name) : Prop :=
  name.head? ≠ some 46 ∧
    ((∃ mode bytes, src.object (name :: path) = some (.regular mode bytes) ∧
        reverseFile bytes = .error .overflow) ∨
      (isDirectory (src.object (name :: path)) = true ∧
        Overflows env src (name :: path) (name.reverse :: pathReversed)))

/-- The same for some of the names, one after the other. -/
def OverflowsIn (path pathReversed : Path) (names : List Name) : Prop :=
  ∃ front name rest, names = front ++ name :: rest ∧
    (∀ other ∈ front ++ [name], Passes env src path pathReversed other) ∧
      OverflowsAt env src path pathReversed name

/-- Every directory and every file is in the destination. -/
def Filled (path pathReversed : Path) (after : FileSystem) : Prop :=
  ∀ rel, rel ≠ [] → visible rel = true →
    Stands (src.object (rel ++ path)) (after.object (mirrorPath rel ++ pathReversed))

/-- The same for one name of a directory. -/
def FilledBelow (path pathReversed : Path) (after : FileSystem) (name : Name) : Prop :=
  ∀ rel, visible (rel ++ [name]) = true →
    Stands (src.object (rel ++ name :: path))
      (after.object (mirrorPath rel ++ name.reverse :: pathReversed))

end Tree

/-! ## From a directory to its names -/

section Names

variable {env : Environment} {src after : FileSystem} {path pathReversed : Path} {name : Name}

theorem visible_below (seen : name.head? ≠ some 46) (rel : Path) :
    visible (rel ++ [name]) = visible rel := by
  rw [visible_append]
  simp [seen]

theorem visible_hidden (hidden : name.head? = some 46) (rel : Path) :
    visible (rel ++ [name]) = false := by
  rw [visible_append, hidden]
  simp

/-- Nothing is below a name that `readdir` does not deliver. -/
theorem object_unlisted (source : isDirectory (src.object path) = true)
    (unlisted : name ∉ src.entries path) (rel : Path) : src.object (rel ++ name :: path) = none := by
  apply src.absent_below
  rw [src.listed name path source, not_or, not_or, not_not] at unlisted
  exact unlisted.2.2

theorem soundAt_absent {target : Path} (absent : src.object path = none) :
    SoundAt env src path target := by
  constructor
  · intro isDir
    rw [absent] at isDir
    cases isDir
  · intro mode bytes found
    rw [absent] at found
    cases found

theorem sound_iff (source : isDirectory (src.object path) = true) :
    Sound env src path pathReversed ↔ LosesNothing env src path pathReversed ∧
      ∀ name ∈ src.entries path, SoundBelow env src path pathReversed name := by
  constructor
  · intro sound
    refine ⟨(sound [] rfl).1 source, fun name _ rel seen => ?_⟩
    simpa using sound (rel ++ [name]) seen
  · intro ⟨here, below⟩ rel seen
    rcases List.eq_nil_or_concat' rel with rfl | ⟨front, name, rfl⟩
    · refine ⟨fun _ => here, fun mode bytes found => ?_⟩
      rw [List.nil_append] at found
      rw [found] at source
      cases source
    · rw [List.append_assoc, List.singleton_append]
      by_cases listed : name ∈ src.entries path
      · simpa using below name listed front seen
      · exact soundAt_absent (object_unlisted source listed front)

theorem filled_iff (source : isDirectory (src.object path) = true) :
    Filled src path pathReversed after ↔
      ∀ name ∈ src.entries path, FilledBelow src path pathReversed after name := by
  constructor
  · intro filled name _ rel seen
    simpa using filled (rel ++ [name]) (by simp) seen
  · intro below rel nonempty seen
    rcases List.eq_nil_or_concat' rel with isNil | ⟨front, name, rfl⟩
    · exact absurd isNil nonempty
    · by_cases listed : name ∈ src.entries path
      · simpa using below name listed front seen
      · rw [List.append_assoc, List.singleton_append, object_unlisted source listed front]
        trivial

theorem overflows_iff : Overflows env src path pathReversed ↔
    env.succeeds .opendir path = true ∧ OverflowsIn env src path pathReversed (src.entries path) := by
  constructor
  · intro overflows
    cases overflows with
    | file opens listing passes seen found overflow =>
        exact ⟨opens, _, _, _, listing, passes, seen, Or.inl ⟨_, _, found, overflow⟩⟩
    | inside opens listing passes seen found below =>
        exact ⟨opens, _, _, _, listing, passes, seen, Or.inr ⟨found, below⟩⟩
  · rintro ⟨opens, front, name, rest, listing, passes, seen, ⟨mode, bytes, found, overflow⟩ |
      ⟨found, below⟩⟩
    · exact .file opens listing passes seen found overflow
    · exact .inside opens listing passes seen found below

theorem stopsLate_cons {rest : List Name} : StopsLate env src path pathReversed (name :: rest) ↔
    (¬ Passes env src path pathReversed name →
      Harmless env src path pathReversed name ∧ ∀ other ∈ rest, ¬ Wanted src path other) ∧
      StopsLate env src path pathReversed rest := by
  constructor
  · intro late
    refine ⟨late [] name rest rfl, ?_⟩
    rintro front other back rfl
    exact late (name :: front) other back rfl
  · rintro ⟨first, later⟩ front other back split
    cases front with
    | nil =>
        obtain ⟨rfl, rfl⟩ := List.cons.inj split
        exact first
    | cons head front =>
        obtain ⟨rfl, rfl⟩ := List.cons.inj split
        exact later front other back rfl

theorem overflowsIn_cons {rest : List Name} :
    OverflowsIn env src path pathReversed (name :: rest) ↔ Passes env src path pathReversed name ∧
      (OverflowsAt env src path pathReversed name ∨ OverflowsIn env src path pathReversed rest) := by
  constructor
  · intro assumed
    obtain ⟨front, other, back, split, passes, overflow⟩ := assumed
    cases front with
    | nil =>
        obtain ⟨rfl, rfl⟩ := List.cons.inj split
        exact ⟨passes name (by simp), Or.inl overflow⟩
    | cons head front =>
        obtain ⟨rfl, rfl⟩ := List.cons.inj split
        refine ⟨passes name (by simp), Or.inr ⟨front, other, back, rfl, ?_, overflow⟩⟩
        intro earlier member
        exact passes earlier (List.mem_cons_of_mem name member)
  · intro assumed
    rcases assumed with ⟨pass, overflow | ⟨front, other, back, rfl, passes, overflow⟩⟩
    · refine ⟨[], name, rest, rfl, ?_, overflow⟩
      intro earlier member
      rw [List.mem_singleton.mp member]
      exact pass
    · refine ⟨name :: front, other, back, rfl, ?_, overflow⟩
      intro earlier member
      rcases List.mem_cons.mp member with rfl | later
      · exact pass
      · exact passes earlier later

/-! ## Names without anything below them -/

theorem soundBelow_hidden (hidden : name.head? = some 46) :
    SoundBelow env src path pathReversed name := by
  intro rel seen
  rw [visible_hidden hidden] at seen
  cases seen

theorem filledBelow_hidden (hidden : name.head? = some 46) :
    FilledBelow src path pathReversed after name := by
  intro rel seen
  rw [visible_hidden hidden] at seen
  cases seen

theorem object_flat (flat : isDirectory (src.object (name :: path)) = false) {rel : Path}
    (below : rel ≠ []) : src.object (rel ++ name :: path) = none :=
  src.none_below rel (name :: path) flat below

theorem soundBelow_flat (flat : isDirectory (src.object (name :: path)) = false)
    (seen : name.head? ≠ some 46) : SoundBelow env src path pathReversed name ↔
      ∀ mode bytes, src.object (name :: path) = some (.regular mode bytes) →
        bytes.length ≤ 2 ^ 31 := by
  constructor
  · intro sound
    have here := sound [] (by rw [visible_below seen]; rfl)
    exact here.2
  · intro small rel _
    by_cases here : rel = []
    · subst here
      refine ⟨fun isDir => ?_, small⟩
      rw [List.nil_append, flat] at isDir
      cases isDir
    · exact soundAt_absent (object_flat flat here)

theorem filledBelow_flat (flat : isDirectory (src.object (name :: path)) = false)
    (seen : name.head? ≠ some 46) : FilledBelow src path pathReversed after name ↔
      Stands (src.object (name :: path)) (after.object (name.reverse :: pathReversed)) := by
  constructor
  · intro filled
    exact filled [] (by rw [visible_below seen]; rfl)
  · intro stands rel _
    by_cases here : rel = []
    · subst here
      exact stands
    · rw [object_flat flat here]
      trivial

theorem soundBelow_directory (seen : name.head? ≠ some 46) :
    SoundBelow env src path pathReversed name ↔
      Sound env src (name :: path) (name.reverse :: pathReversed) := by
  simp only [SoundBelow, Sound, visible_below seen]

theorem filledBelow_directory (seen : name.head? ≠ some 46)
    (isDir : isDirectory (src.object (name :: path)) = true) :
    FilledBelow src path pathReversed after name ↔
      isDirectory (after.object (name.reverse :: pathReversed)) = true ∧
        Filled src (name :: path) (name.reverse :: pathReversed) after := by
  have stands : Stands (src.object (name :: path)) (after.object (name.reverse :: pathReversed)) ↔
      isDirectory (after.object (name.reverse :: pathReversed)) = true := by
    cases found : src.object (name :: path) with
    | none =>
        rw [found] at isDir
        cases isDir
    | some object =>
        cases object with
        | directory mode => exact Iff.rfl
        | regular mode bytes =>
            rw [found] at isDir
            cases isDir
        | other mode =>
            rw [found] at isDir
            cases isDir
  constructor
  · intro filled
    refine ⟨stands.mp (filled [] (by rw [visible_below seen]; rfl)), ?_⟩
    intro rel _ seenRel
    exact filled rel (by rw [visible_below seen]; exact seenRel)
  · intro ⟨made, filled⟩ rel seenRel
    by_cases here : rel = []
    · subst here
      exact stands.mpr made
    · rw [visible_below seen] at seenRel
      exact filled rel here seenRel

/-! ## Names that are not wanted -/

theorem passes_unwanted (unwanted : ¬ Wanted src path name) :
    Passes env src path pathReversed name := fun wanted => absurd wanted unwanted

theorem soundBelow_unwanted (unwanted : ¬ Wanted src path name) :
    SoundBelow env src path pathReversed name := by
  by_cases hidden : name.head? = some 46
  · exact soundBelow_hidden hidden
  · have notCopied : isCopied (src.object (name :: path)) = false := by
      simpa [Wanted, hidden] using unwanted
    rw [soundBelow_flat (flat_of_not_copied notCopied) hidden]
    intro mode bytes found
    rw [found] at notCopied
    cases notCopied

/-- Where nothing has been made, nothing must have been wanted. -/
theorem filledBelow_fresh (fresh : after.object (name.reverse :: pathReversed) = none) :
    FilledBelow src path pathReversed after name ↔ ¬ Wanted src path name := by
  constructor
  · rintro filled ⟨seen, copied⟩
    have here := filled [] (by rw [visible_below seen]; rfl)
    rw [mirrorPath_nil, List.nil_append, List.nil_append, fresh, stands_none, copied] at here
    cases here
  · intro unwanted
    by_cases hidden : name.head? = some 46
    · exact filledBelow_hidden hidden
    · have notCopied : isCopied (src.object (name :: path)) = false := by
        simpa [Wanted, hidden] using unwanted
      rw [filledBelow_flat (flat_of_not_copied notCopied) hidden, fresh]
      exact stands_none.mpr notCopied

end Names

end OsLabs.Mirror
