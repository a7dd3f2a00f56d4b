import OsLabs.Mirror.Copying

/-!
# Which trees are mirrored

`mirror_iff` is exact: a block counter that is too narrow and a mode that is set
before the bytes are written are all that can go wrong.  A file of 2^36 bytes
has 2^31 blocks, a negative `int`, so its copy stays empty and no call fails.
-/

set_option autoImplicit false

namespace OsLabs.Mirror

open OsLabs.Files

/-! ## The task -/

/-- A directory of a file system, an empty directory outside it, and calls
that do not fail. -/
structure MirrorTask where
  env : Environment
  fs : FileSystem
  path : Path
  pathReversed : Path
  depth : Nat
  permits : ∀ call path, env.succeeds call path = true
  source : isDirectory (fs.object path) = true
  finite : ∀ rel, fs.object (rel ++ path) ≠ none → rel.length ≤ depth
  target : isDirectory (fs.object pathReversed) = true
  fresh : ∀ rel, rel ≠ [] → fs.object (rel ++ pathReversed) = none
  notInside : ¬ path <:+ pathReversed
  notAround : ¬ pathReversed <:+ path

namespace MirrorTask

/-- The object that belongs at the mirror position of a relative path: none for
names that begin with a dot and for objects of other kinds. -/
def mirror (task : MirrorTask) (rel : Path) : Option Object :=
  if visible rel then
    match task.fs.object (rel ++ task.path) with
    | some (.directory mode) => some (.directory (task.env.masked mode))
    | some (.regular mode bytes) => some (.regular mode bytes.reverse)
    | some (.other _) | none => none
  else none

/-- The destination is the mirror, position by position, and everything else is
as it was. -/
structure Done (task : MirrorTask) (final : FileSystem) : Prop where
  mirrored : ∀ rel, rel ≠ [] →
    final.object (mirrorPath rel ++ task.pathReversed) = task.mirror rel
  source : ∀ rel, final.object (rel ++ task.path) = task.fs.object (rel ++ task.path)
  nothingElse : ∀ other, (¬ task.pathReversed <:+ other ∨ other = task.pathReversed) →
    final.object other = task.fs.object other

def run (task : MirrorTask) (levels : Nat) : Except Fault (Nat × FileSystem) :=
  reverseInside task.env levels task.path task.pathReversed task.fs

theorem ready (task : MirrorTask) : Ready task.fs task.path task.pathReversed :=
  .of_outside task.source task.target task.notInside task.notAround

theorem bounded (task : MirrorTask) (more : Nat) :
    Levels task.fs task.path (task.depth + 1 + more) := by
  intro rel there
  have inTree := task.finite rel there
  omega

theorem outcome (task : MirrorTask) (more : Nat) :
    Outcome (Finishes task.fs task.path)
      (fun result => result.1 = 0 ∧
        Mirrored task.env written task.path task.pathReversed task.fs result.2)
      (task.run (task.depth + 1 + more)) :=
  reverseInside_correct task.permits _ task.path task.pathReversed task.fs (task.bounded more)
    task.ready task.fresh

/-- What belongs at a position is the copy of the file, when this is its mirror. -/
theorem expected_eq (task : MirrorTask) (rel : Path)
    (reversed : ∀ mode bytes, visible rel = true →
      task.fs.object (rel ++ task.path) = some (.regular mode bytes) →
      written bytes = bytes.reverse ∧ task.env.Keeps mode bytes) :
    expected task.env written task.fs task.path rel = task.mirror rel := by
  unfold expected mirror
  split
  · rename_i seen
    cases found : task.fs.object (rel ++ task.path) with
    | none => rfl
    | some object =>
        cases object with
        | directory mode => rfl
        | other mode => rfl
        | regular mode bytes =>
            obtain ⟨isReverse, keeps⟩ := reversed mode bytes seen found
            rw [Option.bind_some, copyOf, isReverse, Environment.afterWrite_reverse, keeps]
  · rfl

theorem not_root (task : MirrorTask) {rel : Path} {mode : Nat} {bytes : List UInt8}
    (found : task.fs.object (rel ++ task.path) = some (.regular mode bytes)) : rel ≠ [] := by
  intro same
  subst same
  have source := task.source
  rw [List.nil_append] at found
  rw [found] at source
  cases source

/-- Every position of the destination is a mirror position. -/
theorem Done.everywhere {task : MirrorTask} {final : FileSystem} (done : task.Done final)
    (rel : Path) (nonempty : rel ≠ []) :
    final.object (rel ++ task.pathReversed) = task.mirror (mirrorPath rel) := by
  have below : mirrorPath rel ≠ [] := by
    rw [mirrorPath, Ne, List.map_eq_nil_iff]
    exact nonempty
  rw [← done.mirrored (mirrorPath rel) below, mirrorPath_mirrorPath]

/-- The file at a mirror position is the reversed one, with the same mode, when
the copy is done. -/
theorem Done.reversed {task : MirrorTask} {final : FileSystem} (done : task.Done final)
    (copied : Mirrored task.env written task.path task.pathReversed task.fs final)
    {rel : Path} {mode : Nat} {bytes : List UInt8} (seen : visible rel = true)
    (found : task.fs.object (rel ++ task.path) = some (.regular mode bytes)) :
    written bytes = bytes.reverse ∧ task.env.Keeps mode bytes := by
  have nonempty := task.not_root found
  have same := (copied.copied rel nonempty).symm.trans (done.mirrored rel nonempty)
  have both : task.env.afterWrite (task.env.changed mode) (written bytes) = mode ∧
      written bytes = bytes.reverse := by
    simpa [expected, mirror, seen, found, copyOf] using same
  refine ⟨both.2, ?_⟩
  rw [Environment.Keeps, ← Environment.afterWrite_reverse, ← both.2]
  exact both.1

/-- A tree is mirrored exactly when no file that is reached has more than 2^31
bytes, and none has a mode of which `chmod` or the write behind it takes a bit. -/
theorem mirror_iff (task : MirrorTask) (more : Nat) :
    (∃ final, task.run (task.depth + 1 + more) = .ok (0, final) ∧ task.Done final) ↔
      ∀ rel mode bytes, visible rel = true →
        task.fs.object (rel ++ task.path) = some (.regular mode bytes) →
        bytes.length ≤ 2 ^ 31 ∧ task.env.Keeps mode bytes := by
  rcases task.outcome more with ⟨finishes, ⟨code, final⟩, ran, zero, copied⟩ |
    ⟨unfinished, overflow⟩
  · dsimp only at zero copied
    subst zero
    constructor
    · intro ⟨other, alsoRan, done⟩ rel mode bytes seen found
      rw [ran, Except.ok.injEq, Prod.mk.injEq] at alsoRan
      obtain ⟨_, rfl⟩ := alsoRan
      obtain ⟨out, ends⟩ := finishes rel mode bytes seen found
      obtain ⟨isReverse, keeps⟩ := done.reversed copied seen found
      rw [written_ok ends] at isReverse
      refine ⟨?_, keeps⟩
      rw [← reverseFile_iff, ends, isReverse]
    · intro small
      refine ⟨final, ran, ?_, ?_, copied.outside⟩
      · intro rel nonempty
        rw [copied.copied rel nonempty, task.expected_eq]
        intro mode bytes seen found
        obtain ⟨short, keeps⟩ := small rel mode bytes seen found
        exact ⟨written_ok ((reverseFile_iff bytes).mpr short), keeps⟩
      · intro rel
        exact copied.outside _ (Or.inl (task.ready.apart rel))
  · constructor
    · intro ⟨other, alsoRan, _⟩
      rw [overflow] at alsoRan
      cases alsoRan
    · intro small
      exfalso
      apply unfinished
      intro rel mode bytes seen found
      exact ⟨_, (reverseFile_iff bytes).mpr (small rel mode bytes seen found).1⟩

/-- An ordinary user's copy of a set-user-ID program is none. -/
example : ¬ Environment.Keeps ⟨fun _ _ => true, id, id, fun mode => mode &&& 1023⟩ 2541 [97] := by
  unfold Environment.Keeps
  decide

end MirrorTask

/-! ## A file of 2^36 bytes -/

/-- Directories `ab` and `ba`, and a file `ab/c`. -/
def oneFile (bytes : List UInt8) : FileSystem :=
  (((FileSystem.root 493).create [97, 98] [] (.directory 493) rfl rfl (by decide)).create
    [98, 97] [] (.directory 493) rfl rfl (by decide)).create
      [99] [[97, 98]] (.regular 420 bytes) rfl rfl (by decide)

theorem oneFile_object (bytes : List UInt8) (path : Path) :
    (oneFile bytes).object path =
      if path = [[99], [97, 98]] then some (.regular 420 bytes)
      else if path = [[98, 97]] ∨ path = [[97, 98]] ∨ path = [] then some (.directory 493)
      else none := by
  simp only [oneFile, FileSystem.create, FileSystem.root, Function.update_apply]
  split
  · rfl
  · by_cases isTarget : path = [[98, 97]]
    · simp [isTarget]
    · by_cases isSource : path = [[97, 98]] <;> simp [isTarget, isSource]

theorem oneFile_shallow (bytes : List UInt8) (path : Path)
    (there : (oneFile bytes).object path ≠ none) : path.length ≤ 2 := by
  rw [oneFile_object] at there
  split at there
  · rename_i isFile
    rw [isFile]
    decide
  · split at there
    · rename_i isDirectory
      rcases isDirectory with rfl | rfl | rfl <;> decide
    · exact absurd rfl there

def oneFileTask (bytes : List UInt8) : MirrorTask where
  env := ⟨fun _ _ => true, id, id, id⟩
  fs := oneFile bytes
  path := [[97, 98]]
  pathReversed := [[98, 97]]
  depth := 1
  permits _ _ := rfl
  source := rfl
  finite rel there := by
    have shallow := oneFile_shallow bytes _ there
    rw [List.length_append, List.length_singleton] at shallow
    omega
  target := rfl
  fresh rel nonempty := by
    rcases List.eq_nil_or_concat' rel with isNil | ⟨front, name, rfl⟩
    · exact absurd isNil nonempty
    · rw [List.append_assoc]
      apply (oneFile bytes).absent_below front
      rw [oneFile_object]
      simp
  notInside := by decide
  notAround := by decide

def hugeFile : List UInt8 := List.replicate (2 ^ 36) 0

/-- 2^31 blocks are the least `int`. -/
theorem hugeFile_count : reverseFile hugeFile = .ok [] := by
  have count : (asInt (blockCount hugeFile.length)).toNat = 0 := by
    rw [hugeFile, List.length_replicate]
    decide
  rw [reverseFile, count, reverseBlocks]

theorem hugeFile_finishes : Finishes (oneFile hugeFile) [[97, 98]] := by
  intro rel mode bytes _ found
  rw [oneFile_object] at found
  split at found
  · rw [Option.some.injEq, Object.regular.injEq] at found
    exact ⟨[], by rw [← found.2, hugeFile_count]⟩
  · split at found <;> cases found

/-- No call fails, and the copy of the file is empty. -/
theorem huge_lost :
    (¬ ∃ final, (oneFileTask hugeFile).run 2 = .ok (0, final) ∧
        (oneFileTask hugeFile).Done final) ∧
      ∃ final, (oneFileTask hugeFile).run 2 = .ok (0, final) ∧
        final.object [[99], [98, 97]] = some (.regular 420 []) := by
  rcases (oneFileTask hugeFile).outcome 0 with ⟨_, ⟨code, final⟩, ran, zero, copied⟩ |
    ⟨unfinished, _⟩
  · dsimp only at zero copied
    subst zero
    change (oneFileTask hugeFile).run 2 = .ok (0, final) at ran
    have found : (oneFile hugeFile).object ([[99]] ++ [[97, 98]]) =
        some (.regular 420 hugeFile) := by
      rw [oneFile_object]
      rfl
    have seen : visible [[99]] = true := rfl
    have lost : written hugeFile = [] := written_ok hugeFile_count
    constructor
    · intro ⟨other, alsoRan, done⟩
      rw [ran, Except.ok.injEq, Prod.mk.injEq] at alsoRan
      obtain ⟨_, rfl⟩ := alsoRan
      have isReverse := (done.reversed copied seen found).1
      have lengths := congrArg List.length isReverse
      rw [lost, List.length_reverse, hugeFile, List.length_replicate, List.length_nil] at lengths
      omega
    · have placed := copied.copied [[99]] (by simp)
      rw [expected, if_pos seen] at placed
      refine ⟨final, ran, placed.trans ?_⟩
      change ((oneFile hugeFile).object ([[99]] ++ [[97, 98]])).bind _ = _
      rw [found, Option.bind_some, copyOf, lost]
      rfl
  · exact absurd hugeFile_finishes unfinished

end OsLabs.Mirror
