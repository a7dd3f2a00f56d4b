import OsLabs.Mirror.Failures
import OsLabs.Mirror.MirrorTree

/-!
# The mirror of the mirror

The copy is itself a tree, and `reverse_inside` may be run on it.  Reversing a
name twice gives it back, but a name that ends in a dot begins with one in the
copy, where the second run passes it over: `round_trip_iff`.
-/

set_option autoImplicit false

namespace OsLabs.Mirror

open OsLabs.Files

namespace MirrorTask

/-! ## The second task -/

/-- An empty directory for the second copy, apart from the first one. -/
structure Back (task : MirrorTask) where
  path : Path
  isDir : isDirectory (task.fs.object path) = true
  fresh : ∀ rel, rel ≠ [] → task.fs.object (rel ++ path) = none
  notInside : ¬ task.pathReversed <:+ path
  notAround : ¬ path <:+ task.pathReversed

/-- What a copy of a copy can bring back: the umask is applied twice. -/
def restored (task : MirrorTask) (rel : Path) : Option Object :=
  if visible rel then
    match task.fs.object (rel ++ task.path) with
    | some (.directory mode) => some (.directory (task.env.masked (task.env.masked mode)))
    | some (.regular mode bytes) => some (.regular mode bytes)
    | some (.other _) | none => none
  else none

/-- No file that is reached has more than 2^31 bytes, and each has a mode that
`chmod` and writing keep. -/
def Copyable (task : MirrorTask) : Prop :=
  ∀ rel mode bytes, visible rel = true →
    task.fs.object (rel ++ task.path) = some (.regular mode bytes) →
    bytes.length ≤ 2 ^ 31 ∧ task.env.Keeps mode bytes

variable {task : MirrorTask} {copy : FileSystem}

theorem Copyable.done (copyable : task.Copyable) (more : Nat) :
    ∃ final, task.run (task.depth + 1 + more) = .ok (0, final) ∧ task.Done final := by
  have ends : ∀ rel mode bytes, visible rel = true →
      task.fs.object (rel ++ task.path) = some (.regular mode bytes) →
      reverseFile bytes = .ok bytes.reverse := by
    intro rel mode bytes seen found
    exact (reverseFile_iff bytes).mpr (copyable rel mode bytes seen found).1
  rcases task.outcome more with ⟨_, ⟨code, final⟩, ran, zero, copied⟩ | ⟨unfinished, _⟩
  · dsimp only at zero copied
    subst zero
    refine ⟨final, ran, ?_, fun rel => copied.outside _ (Or.inl (task.ready.apart rel)),
      copied.outside⟩
    intro rel nonempty
    rw [copied.copied rel nonempty, task.expected_eq]
    intro mode bytes seen found
    exact ⟨written_ok (ends rel mode bytes seen found), (copyable rel mode bytes seen found).2⟩
  · exact absurd (fun rel mode bytes seen found => ⟨_, ends rel mode bytes seen found⟩) unfinished

theorem mirror_some {rel : Path} (there : task.mirror rel ≠ none) :
    visible rel = true ∧ isCopied (task.fs.object (rel ++ task.path)) = true := by
  unfold mirror at there
  split at there
  · rename_i seen
    refine ⟨seen, ?_⟩
    cases found : task.fs.object (rel ++ task.path) with
    | none => simp [found] at there
    | some object => cases object <;> simp [found, isCopied] at there ⊢
  · exact absurd rfl there

/-- The task of the second run. -/
def again (back : task.Back) (done : task.Done copy) : MirrorTask where
  env := task.env
  fs := copy
  path := task.pathReversed
  pathReversed := back.path
  depth := task.depth
  permits := task.permits
  source := by
    rw [done.nothingElse _ (Or.inr rfl)]
    exact task.target
  finite rel there := by
    by_cases isNil : rel = []
    · rw [isNil]
      exact Nat.zero_le _
    · rw [done.everywhere rel isNil] at there
      have isThere := (mirror_some there).2
      have inTree := task.finite (mirrorPath rel) (by
        intro absent
        rw [absent] at isThere
        cases isThere)
      rwa [mirrorPath, List.length_map] at inTree
  target := by
    rw [done.nothingElse _ (Or.inl back.notInside)]
    exact back.isDir
  fresh rel nonempty := by
    have apart : ¬ task.pathReversed <:+ rel ++ back.path := by
      intro below
      rcases List.suffix_or_suffix_of_suffix below (List.suffix_append rel back.path) with
        inside | around
      · exact back.notInside inside
      · exact back.notAround around
    rw [done.nothingElse _ (Or.inl apart)]
    exact back.fresh rel nonempty
  notInside := back.notInside
  notAround := back.notAround

/-- The files of the copy are as long as those of the source, with their modes. -/
theorem Copyable.again (copyable : task.Copyable) (back : task.Back) (done : task.Done copy) :
    (again back done).Copyable := by
  intro rel mode bytes _ found
  have nonempty := (MirrorTask.again back done).not_root found
  have isMirror : task.mirror (mirrorPath rel) = some (.regular mode bytes) := by
    rw [← done.everywhere rel nonempty]
    exact found
  unfold mirror at isMirror
  split at isMirror
  · rename_i seen
    cases source : task.fs.object (mirrorPath rel ++ task.path) with
    | none => simp [source] at isMirror
    | some object =>
        cases object with
        | regular sourceMode sourceBytes =>
            simp only [source, Option.some.injEq, Object.regular.injEq] at isMirror
            obtain ⟨short, keeps⟩ := copyable _ _ _ seen source
            rw [← isMirror.1, ← isMirror.2, List.length_reverse, Environment.Keeps,
              Environment.afterWrite_reverse]
            exact ⟨short, keeps⟩
        | directory | other => simp [source] at isMirror
  · cases isMirror

/-! ## What comes back -/

/-- The second mirror of a position: what the first one kept, unless the
reversed name is hidden. -/
theorem again_mirror (back : task.Back) (done : task.Done copy) (rel : Path) (nonempty : rel ≠ []) :
    (again back done).mirror (mirrorPath rel) =
      if visible (mirrorPath rel) then task.restored rel else none := by
  have isCopy : copy.object (mirrorPath rel ++ task.pathReversed) = task.mirror rel :=
    done.mirrored rel nonempty
  by_cases hidden : visible (mirrorPath rel) = true
  · rw [mirror, if_pos hidden, if_pos hidden]
    show (match copy.object (mirrorPath rel ++ task.pathReversed) with
      | some (.directory mode) => some (Object.directory (task.env.masked mode))
      | some (.regular mode bytes) => some (Object.regular mode bytes.reverse)
      | some (.other _) | none => none) = _
    rw [isCopy, mirror, restored]
    by_cases seen : visible rel = true
    · rw [if_pos seen, if_pos seen]
      cases task.fs.object (rel ++ task.path) with
      | none => rfl
      | some object => cases object <;> simp
    · rw [if_neg seen, if_neg seen]
  · rw [mirror, if_neg hidden, if_neg hidden]

theorem restored_isSome_iff (rel : Path) :
    task.restored rel ≠ none ↔
      visible rel = true ∧ isCopied (task.fs.object (rel ++ task.path)) = true := by
  unfold restored
  by_cases seen : visible rel = true
  · rw [if_pos seen]
    cases task.fs.object (rel ++ task.path) with
    | none => simp [isCopied]
    | some object => cases object <;> simp [isCopied, seen]
  · simp [seen]

/-- No name on the way to a copied object ends in a dot. -/
def NoTrailingDots (task : MirrorTask) : Prop :=
  ∀ rel, visible rel = true → isCopied (task.fs.object (rel ++ task.path)) = true →
    ∀ name ∈ rel, name.getLast? ≠ some 46

theorem visible_mirrorPath_iff (rel : Path) :
    visible (mirrorPath rel) = true ↔ ∀ name ∈ rel, name.getLast? ≠ some 46 := by
  simp [visible, mirrorPath]

/-- Two runs, the second one on the copy that the first one made: both return 0,
and the second copy is the source again, without what the program never copies,
exactly when no copied name ends in a dot. -/
theorem round_trip_iff (task : MirrorTask) (back : task.Back) (copyable : task.Copyable)
    (more more' : Nat) :
    ∃ copy final, task.run (task.depth + 1 + more) = .ok (0, copy) ∧
      reverseInside task.env (task.depth + 1 + more') task.pathReversed back.path copy =
        .ok (0, final) ∧
      ((∀ rel, rel ≠ [] → final.object (rel ++ back.path) = task.restored rel) ↔
        task.NoTrailingDots) := by
  obtain ⟨copy, ran, done⟩ := copyable.done more
  obtain ⟨final, ranAgain, doneAgain⟩ := (copyable.again back done).done more'
  refine ⟨copy, final, ran, ranAgain, ?_⟩
  have isFinal : ∀ rel, rel ≠ [] → final.object (rel ++ back.path) =
      if visible (mirrorPath rel) then task.restored rel else none := by
    intro rel nonempty
    rw [← again_mirror back done rel nonempty]
    exact doneAgain.everywhere rel nonempty
  constructor
  · intro restores rel seen copied
    rw [← visible_mirrorPath_iff]
    by_cases isNil : rel = []
    · rw [isNil]
      rfl
    by_contra hidden
    have there := (restored_isSome_iff rel).mpr ⟨seen, copied⟩
    rw [← restores rel isNil, isFinal rel isNil, if_neg hidden] at there
    exact there rfl
  · intro noDots rel nonempty
    rw [isFinal rel nonempty]
    by_cases there : task.restored rel = none
    · rw [there, ite_self]
    · obtain ⟨seen, copied⟩ := (restored_isSome_iff rel).mp there
      rw [if_pos ((visible_mirrorPath_iff rel).mpr (noDots rel seen copied))]

/-! ## A file that comes back -/

/-- The file system of `oneFile` with a directory `d`. -/
def withBack (bytes : List UInt8) : FileSystem :=
  (oneFile bytes).create [100] [] (.directory 493) rfl rfl (by decide)

theorem withBack_object (bytes : List UInt8) (path : Path) :
    (withBack bytes).object path =
      if path = [[100]] then some (.directory 493) else (oneFile bytes).object path := by
  simp [withBack, FileSystem.create, Function.update_apply]

theorem withBack_absent (bytes : List UInt8) {place rel : Path} (nonempty : rel ≠ [])
    (empty : ∀ name, (withBack bytes).object (name :: place) = none) :
    (withBack bytes).object (rel ++ place) = none := by
  rcases List.eq_nil_or_concat' rel with isNil | ⟨front, name, rfl⟩
  · exact absurd isNil nonempty
  · rw [List.append_assoc]
    exact (withBack bytes).absent_below front _ (empty name)

theorem withBack_shallow (bytes : List UInt8) {rel : Path}
    (there : (withBack bytes).object (rel ++ [[97, 98]]) ≠ none) : rel.length ≤ 1 := by
  rw [withBack_object] at there
  split at there
  · rename_i isBack
    have lengths := congrArg List.length isBack
    rw [List.length_append, List.length_singleton, List.length_singleton] at lengths
    omega
  · have shallow := oneFile_shallow bytes _ there
    rw [List.length_append, List.length_singleton] at shallow
    omega

def withBackTask (bytes : List UInt8) : MirrorTask where
  env := ⟨fun _ _ => true, id, id, id⟩
  fs := withBack bytes
  path := [[97, 98]]
  pathReversed := [[98, 97]]
  depth := 1
  permits := (oneFileTask bytes).permits
  source := rfl
  finite rel := withBack_shallow bytes
  target := rfl
  fresh rel nonempty := withBack_absent bytes nonempty fun name => by
    rw [withBack_object, oneFile_object]
    simp
  notInside := (oneFileTask bytes).notInside
  notAround := (oneFileTask bytes).notAround

def backPlace (bytes : List UInt8) : (withBackTask bytes).Back where
  path := [[100]]
  isDir := rfl
  fresh rel nonempty := withBack_absent bytes nonempty fun name => by
    rw [withBack_object, oneFile_object]
    simp
  notInside := by
    change ¬ ([[98, 97]] : Path) <:+ [[100]]
    decide
  notAround := by
    change ¬ ([[100]] : Path) <:+ [[98, 97]]
    decide

theorem abc_comes_back :
    ∃ copy final, (withBackTask [97, 98, 99]).run 2 = .ok (0, copy) ∧
      reverseInside ⟨fun _ _ => true, id, id, id⟩ 2 [[98, 97]] [[100]] copy = .ok (0, final) ∧
      ((∀ rel, rel ≠ [] →
          final.object (rel ++ [[100]]) = (withBackTask [97, 98, 99]).restored rel) ↔
        (withBackTask [97, 98, 99]).NoTrailingDots) := by
  have copyable : (withBackTask [97, 98, 99]).Copyable := by
    intro rel mode bytes _ found
    change (withBack _).object _ = _ at found
    rw [withBack_object, oneFile_object] at found
    split at found
    · cases found
    · split at found
      · rw [Option.some.injEq, Object.regular.injEq] at found
        rw [← found.1, ← found.2]
        exact ⟨by decide, rfl⟩
      · split at found <;> cases found
  exact round_trip_iff (withBackTask [97, 98, 99]) (backPlace _) copyable 0 0

end MirrorTask

end OsLabs.Mirror
