import OsLabs.Lib.Transition
import OsLabs.Mirror.ReverseFile

/-!
# The mirror copy of a directory tree

`reverse_inside` of `lab3/part1.c`.  `Copied` says what the names of a
directory handled so far have left in the destination; it composes along the
loop, and over all names of a directory it is the mirror of the whole tree
(`Copied.mirrored`).  Since reversing the names of a path is its own inverse,
the mirror is given position by position.
-/

set_option autoImplicit false

namespace OsLabs.Mirror

open OsLabs.Files OsLabs.Transition

/-- What the body of the loop does: it goes on, or returns a code. -/
inductive Flow where
  | returned (code : Nat) (fs : FileSystem)
  | goesOn (fs : FileSystem)

variable (env : Environment)

/-- The branch for `DT_DIR`; the code of the recursive call is dropped. -/
def copyDirectory (recurse : Path → Path → FileSystem → Except Fault (Nat × FileSystem))
    (fpath fpathReversed : Path) (fs : FileSystem) : Except Fault Flow :=
  match fs.stat env fpath with
  | none => .ok (.returned 1 fs)
  | some dirMode =>
      match fs.mkdir env fpathReversed dirMode with
      | none => .ok (.returned 1 fs)
      | some fs => do
          let (_, fs) ← recurse fpath fpathReversed fs
          .ok (.goesOn fs)

/-- The branch for `DT_REG`; both files are opened before either is tested. -/
def copyFile (localPath localPathReversed : Path) (fs : FileSystem) : Except Fault Flow :=
  let opened := fs.fopenRead env localPath
  match fs.fopenWrite env localPathReversed with
  | none => .ok (.returned 1 fs)
  | some fs =>
      if !opened then .ok (.returned 1 fs)
      else
        match fs.stat env localPath with
        | none => .ok (.returned 1 fs)
        | some fileMode =>
            match fs.chmod env localPathReversed fileMode with
            | none => .ok (.returned 1 fs)
            | some fs => do
                let out ← reverseFile (fs.bytes localPath)
                .ok (.goesOn (fs.write env localPathReversed out))

/-- The body of the loop for one name that `readdir` delivers. -/
def loopBody (recurse : Path → Path → FileSystem → Except Fault (Nat × FileSystem))
    (path pathReversed : Path) (name : Name) (fs : FileSystem) : Except Fault Flow :=
  if name.head? = some 46 then .ok (.goesOn fs)
  else
    match fs.object (name :: path) with
    | some (.directory _) =>
        copyDirectory env recurse (name :: path) (nameReversed name :: pathReversed) fs
    | some (.regular _ _) => copyFile env (name :: path) (nameReversed name :: pathReversed) fs
    | some (.other _) | none => .ok (.goesOn fs)

def readLoop (recurse : Path → Path → FileSystem → Except Fault (Nat × FileSystem))
    (path pathReversed : Path) : List Name → FileSystem → Except Fault (Nat × FileSystem)
  | [], fs => .ok (0, fs)
  | name :: rest, fs => do
      match ← loopBody env recurse path pathReversed name fs with
      | .returned code fs => .ok (code, fs)
      | .goesOn fs => readLoop recurse path pathReversed rest fs

/-- At most so many levels of directories. -/
def reverseInside : Nat → Path → Path → FileSystem → Except Fault (Nat × FileSystem)
  | 0, _, _, _ => .error .levels
  | levels + 1, path, pathReversed, fs =>
      match fs.opendir env path with
      | none => .ok (1, fs)
      | some names => readLoop env (reverseInside levels) path pathReversed names fs

/-! ## The mirror -/

/-- No name on the way begins with a dot. -/
def visible (rel : Path) : Bool := rel.all fun name => name.head? != some 46

def mirrorPath (rel : Path) : Path := rel.map List.reverse

/-- The copy of an object, when the bytes of a file become `content`. -/
def copyOf (content : List UInt8 → List UInt8) : Object → Option Object
  | .directory mode => some (.directory (env.masked mode))
  | .regular mode bytes =>
      some (.regular (env.afterWrite (env.changed mode) (content bytes)) (content bytes))
  | .other _ => none

/-- What belongs at the mirror position of a relative path. -/
def expected (content : List UInt8 → List UInt8) (fs : FileSystem) (path rel : Path) :
    Option Object :=
  if visible rel then (fs.object (rel ++ path)).bind (copyOf env content) else none

/-- The mirror of a tree, and nothing else changed. -/
structure Mirrored (content : List UInt8 → List UInt8) (path pathReversed : Path)
    (before after : FileSystem) : Prop where
  outside : ∀ other, (¬ pathReversed <:+ other ∨ other = pathReversed) →
    after.object other = before.object other
  listing : ∀ other, ¬ pathReversed <:+ other → after.entries other = before.entries other
  copied : ∀ rel, rel ≠ [] →
    after.object (mirrorPath rel ++ pathReversed) = expected env content before path rel

/-- The same for some of the names in a directory. -/
structure Copied (content : List UInt8 → List UInt8) (path pathReversed : Path)
    (names : List Name) (before after : FileSystem) : Prop where
  outside : ∀ other, (¬ pathReversed <:+ other ∨ other = pathReversed) →
    after.object other = before.object other
  listing : ∀ other, ¬ pathReversed <:+ other → after.entries other = before.entries other
  copied : ∀ name ∈ names, ∀ rel, after.object (mirrorPath rel ++ name.reverse :: pathReversed) =
    expected env content before path (rel ++ [name])
  kept : ∀ name, name ∉ names → ∀ rel, after.object (rel ++ name.reverse :: pathReversed) =
    before.object (rel ++ name.reverse :: pathReversed)

/-! ## Paths -/

@[simp] theorem mirrorPath_nil : mirrorPath [] = [] := rfl

@[simp] theorem mirrorPath_append (rel other : Path) :
    mirrorPath (rel ++ other) = mirrorPath rel ++ mirrorPath other := List.map_append

@[simp] theorem mirrorPath_singleton (name : Name) : mirrorPath [name] = [name.reverse] := rfl

theorem mirrorPath_mirrorPath (rel : Path) : mirrorPath (mirrorPath rel) = rel := by
  induction rel with
  | nil => rfl
  | cons name rel ih =>
      simp only [mirrorPath, List.map_cons, List.reverse_reverse] at ih ⊢
      rw [ih]

theorem visible_append (rel : Path) (name : Name) :
    visible (rel ++ [name]) = (visible rel && (name.head? != some 46)) := by
  simp [visible]

/-- A path lies below one child only. -/
theorem child_unique {name other : Name} {path rel : Path}
    (below : name :: path <:+ rel ++ other :: path) : name = other := by
  have also : other :: path <:+ rel ++ other :: path := List.suffix_append rel (other :: path)
  have same : name :: path = other :: path :=
    (List.suffix_of_suffix_length_le below also (Nat.le_refl _)).eq_of_length rfl
  exact (List.cons.inj same).1

theorem not_below_self (name : Name) (path : Path) : ¬ name :: path <:+ path := by
  intro below
  have longer := below.length_le
  rw [List.length_cons] at longer
  omega

/-- What is not at or below a directory is not at or below a child of it. -/
theorem not_below_child {path other : Path} (name : Name)
    (outside : ¬ path <:+ other ∨ other = path) : ¬ name :: path <:+ other := by
  intro below
  rcases outside with notBelow | rfl
  · exact notBelow ((List.suffix_cons name path).trans below)
  · exact not_below_self name other below

/-! ## Names handled one after the other -/

section Copying

variable {env : Environment} {content : List UInt8 → List UInt8} {path pathReversed : Path}
  {before between after : FileSystem}

theorem expected_congr (same : ∀ rel, after.object (rel ++ path) = before.object (rel ++ path))
    (rel : Path) : expected env content after path rel = expected env content before path rel := by
  rw [expected, expected, same]

theorem expected_absent {fs : FileSystem} {rel : Path} (absent : fs.object (rel ++ path) = none) :
    expected env content fs path rel = none := by
  rw [expected, absent]
  simp

theorem Copied.nil (fs : FileSystem) : Copied env content path pathReversed [] fs fs where
  outside _ _ := rfl
  listing _ _ := rfl
  copied _ member := absurd member List.not_mem_nil
  kept _ _ _ := rfl

theorem Copied.cons {name : Name} {rest : List Name}
    (first : Copied env content path pathReversed [name] before between)
    (later : Copied env content path pathReversed rest between after)
    (once : name ∉ rest) (apart : ∀ rel, ¬ pathReversed <:+ rel ++ path) :
    Copied env content path pathReversed (name :: rest) before after where
  outside other isOutside := (later.outside other isOutside).trans (first.outside other isOutside)
  listing other isOutside := (later.listing other isOutside).trans (first.listing other isOutside)
  copied other member rel := by
    have source : ∀ rel, between.object (rel ++ path) = before.object (rel ++ path) :=
      fun rel => first.outside _ (Or.inl (apart rel))
    rcases List.mem_cons.mp member with rfl | inRest
    · rw [later.kept other once]
      exact first.copied other List.mem_cons_self rel
    · rw [later.copied other inRest rel, expected_congr source]
  kept other notMember rel := by
    rw [List.mem_cons, not_or] at notMember
    rw [later.kept other notMember.2 rel,
      first.kept other (fun isName => notMember.1 (List.mem_singleton.mp isName)) rel]

/-- All names of a directory are the whole tree. -/
theorem Copied.mirrored
    (copied : Copied env content path pathReversed (before.entries path) before after)
    (source : isDirectory (before.object path) = true)
    (fresh : ∀ rel, rel ≠ [] → before.object (rel ++ pathReversed) = none) :
    Mirrored env content path pathReversed before after where
  outside := copied.outside
  listing := copied.listing
  copied rel nonempty := by
    rcases List.eq_nil_or_concat' rel with isNil | ⟨front, name, rfl⟩
    · exact absurd isNil nonempty
    have place : mirrorPath (front ++ [name]) ++ pathReversed =
        mirrorPath front ++ name.reverse :: pathReversed := by simp
    rw [place]
    by_cases member : name ∈ before.entries path
    · exact copied.copied name member front
    · have absent : before.object (name :: path) = none := by
        rw [before.listed name path source, not_or, not_or, not_not] at member
        exact member.2.2
      have nothing := before.absent_below front (name :: path) absent
      rw [copied.kept name member, ← place, fresh _ (by simp), expected_absent]
      simpa using nothing

end Copying

/-! ## Which trees are copied -/

/-- `reverse_file` ends on every regular file that is reached. -/
def Finishes (fs : FileSystem) (path : Path) : Prop :=
  ∀ rel mode bytes, visible rel = true → fs.object (rel ++ path) = some (.regular mode bytes) →
    ∃ out, reverseFile bytes = .ok out

/-- The same for one name of a directory. -/
def FinishesBelow (fs : FileSystem) (path : Path) (name : Name) : Prop :=
  ∀ rel mode bytes, visible (rel ++ [name]) = true →
    fs.object (rel ++ name :: path) = some (.regular mode bytes) →
    ∃ out, reverseFile bytes = .ok out

/-- The bytes `reverse_file` writes, where it ends. -/
def written (bytes : List UInt8) : List UInt8 := (reverseFile bytes).toOption.getD []

theorem written_ok {bytes out : List UInt8} (ends : reverseFile bytes = .ok out) :
    written bytes = out := by
  rw [written, ends]
  rfl

/-- A part of the copy is made, or runs into the overflow. -/
def Outcome {Result : Type} (finishes : Prop) (good : Result → Prop)
    (result : Except Fault Result) : Prop :=
  (finishes ∧ ∃ value, result = .ok value ∧ good value) ∨
    (¬ finishes ∧ result = .error .overflow)

/-- A directory and a place for its mirror. -/
structure Ready (fs : FileSystem) (path pathReversed : Path) : Prop where
  source : isDirectory (fs.object path) = true
  target : isDirectory (fs.object pathReversed) = true
  apart : ∀ rel, ¬ pathReversed <:+ rel ++ path

theorem Ready.of_outside {fs : FileSystem} {path pathReversed : Path}
    (source : isDirectory (fs.object path) = true)
    (target : isDirectory (fs.object pathReversed) = true) (notInside : ¬ path <:+ pathReversed)
    (notAround : ¬ pathReversed <:+ path) : Ready fs path pathReversed where
  source := source
  target := target
  apart rel below := by
    rcases List.suffix_or_suffix_of_suffix below (List.suffix_append rel path) with around | inside
    · exact notAround around
    · exact notInside inside

/-- The tree has so many levels at most. -/
def Levels (fs : FileSystem) (path : Path) (levels : Nat) : Prop :=
  ∀ rel, fs.object (rel ++ path) ≠ none → rel.length < levels

def Correct (recurse : Path → Path → FileSystem → Except Fault (Nat × FileSystem))
    (levels : Nat) : Prop :=
  ∀ path pathReversed fs, Levels fs path levels → Ready fs path pathReversed →
    (∀ rel, rel ≠ [] → fs.object (rel ++ pathReversed) = none) →
    Outcome (Finishes fs path)
      (fun result => result.1 = 0 ∧ Mirrored env written path pathReversed fs result.2)
      (recurse path pathReversed fs)

theorem finishes_iff (fs : FileSystem) (path : Path) (source : isDirectory (fs.object path) = true) :
    Finishes fs path ↔ ∀ name ∈ fs.entries path, FinishesBelow fs path name := by
  constructor
  · intro finishes name _ rel mode bytes seen found
    exact finishes (rel ++ [name]) mode bytes seen (by simpa using found)
  · intro finishes rel mode bytes seen found
    rcases List.eq_nil_or_concat' rel with rfl | ⟨front, name, rfl⟩
    · rw [List.nil_append] at found
      rw [found] at source
      cases source
    · rw [List.append_assoc, List.singleton_append] at found
      have there : fs.object (name :: path) ≠ none := by
        intro absent
        rw [fs.absent_below front _ absent] at found
        cases found
      have listed := (fs.listed name path source).mpr (Or.inr (Or.inr there))
      exact finishes name listed front mode bytes seen found

theorem finishesBelow_directory (fs : FileSystem) (path : Path) (name : Name)
    (seen : name.head? ≠ some 46) : FinishesBelow fs path name ↔ Finishes fs (name :: path) := by
  have same : ∀ rel, visible (rel ++ [name]) = visible rel := fun rel => by
    rw [visible_append]
    simp [seen]
  constructor
  · intro below rel mode bytes seenRel
    exact below rel mode bytes ((same rel).trans seenRel)
  · intro finishes rel mode bytes seenRel
    exact finishes rel mode bytes ((same rel).symm.trans seenRel)

theorem finishesBelow_hidden (fs : FileSystem) (path : Path) (name : Name)
    (hidden : name.head? = some 46) : FinishesBelow fs path name := by
  intro rel mode bytes seen
  rw [visible_append, hidden] at seen
  simp at seen

/-- What is no directory has nothing below it. -/
theorem finishesBelow_flat (fs : FileSystem) (path : Path) (name : Name)
    (flat : isDirectory (fs.object (name :: path)) = false) (seen : name.head? ≠ some 46) :
    FinishesBelow fs path name ↔
      ∀ mode bytes, fs.object (name :: path) = some (.regular mode bytes) →
        ∃ out, reverseFile bytes = .ok out := by
  constructor
  · intro below mode bytes found
    exact below [] mode bytes (by simp [visible, seen]) found
  · intro here rel mode bytes _ found
    cases rel with
    | nil => exact here mode bytes found
    | cons child rel =>
        rw [fs.none_below (child :: rel) (name :: path) flat (by simp)] at found
        cases found

end OsLabs.Mirror
