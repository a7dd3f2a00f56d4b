import OsLabs.Mirror.Failures

/-!
# Which failures are reported

One lemma for each branch of the loop of `reverse_inside`, now with calls that
may fail, one for its body, one for the loop, and `reverseInside_result` for
the recursion.  A failure at the top is reported, and one below it only by the
overflow; `failures_reported_iff` puts this together.
-/

set_option autoImplicit false

namespace OsLabs.Mirror

open OsLabs.Files OsLabs.Transition

/-- The source is as it was before the copy. -/
structure Ongoing (src fs : FileSystem) (path pathReversed : Path) : Prop where
  ready : Ready fs path pathReversed
  object : ∀ rel, fs.object (rel ++ path) = src.object (rel ++ path)
  entries : ∀ rel, fs.entries (rel ++ path) = src.entries (rel ++ path)

section Results

variable (env : Environment) (src : FileSystem) (path pathReversed : Path)

/-- What the body of the loop does for a name. -/
inductive BodyResult (name : Name) (fs : FileSystem) : Except Fault Flow → Prop where
  | overflows (passes : Passes env src path pathReversed name)
      (overflow : OverflowsAt env src path pathReversed name) : BodyResult name fs (.error .overflow)
  | stops {after : FileSystem} (fails : ¬ Passes env src path pathReversed name)
      (framed : FramedAt name.reverse pathReversed fs after)
      (filled : FilledBelow src path pathReversed after name ↔
        Harmless env src path pathReversed name) : BodyResult name fs (.ok (.returned 1 after))
  | goesOn {after : FileSystem} (passes : Passes env src path pathReversed name)
      (fits : ¬ OverflowsAt env src path pathReversed name)
      (framed : FramedAt name.reverse pathReversed fs after)
      (filled : FilledBelow src path pathReversed after name ↔
        SoundBelow env src path pathReversed name) : BodyResult name fs (.ok (.goesOn after))

/-- What the loop does for the names that are left. -/
inductive LoopResult (names : List Name) (fs : FileSystem) :
    Except Fault (Nat × FileSystem) → Prop where
  | overflows (overflow : OverflowsIn env src path pathReversed names) :
      LoopResult names fs (.error .overflow)
  | returns {code : Nat} {after : FileSystem}
      (fits : ¬ OverflowsIn env src path pathReversed names)
      (framed : Framed pathReversed fs after)
      (others : ∀ other, other ∉ names → ∀ rel,
        after.object (rel ++ other.reverse :: pathReversed) =
          fs.object (rel ++ other.reverse :: pathReversed))
      (zero : code = 0 ↔ ∀ name ∈ names, Passes env src path pathReversed name)
      (filled : (∀ name ∈ names, FilledBelow src path pathReversed after name) ↔
        StopsLate env src path pathReversed names ∧
          ∀ name ∈ names, SoundBelow env src path pathReversed name) :
      LoopResult names fs (.ok (code, after))

/-- What `reverse_inside` does for a directory. -/
inductive CopyResult (fs : FileSystem) : Except Fault (Nat × FileSystem) → Prop where
  | overflows (overflow : Overflows env src path pathReversed) : CopyResult fs (.error .overflow)
  | returns {code : Nat} {after : FileSystem} (fits : ¬ Overflows env src path pathReversed)
      (framed : Framed pathReversed fs after) (zero : code = 0 ↔ Clean env src path pathReversed)
      (filled : Filled src path pathReversed after ↔ Sound env src path pathReversed) :
      CopyResult fs (.ok (code, after))

end Results

def Answers (env : Environment) (src : FileSystem)
    (recurse : Path → Path → FileSystem → Except Fault (Nat × FileSystem)) (levels : Nat) : Prop :=
  ∀ path pathReversed fs, Levels src path levels → Ongoing src fs path pathReversed →
    (∀ rel, rel ≠ [] → fs.object (rel ++ pathReversed) = none) →
    CopyResult env src path pathReversed fs (recurse path pathReversed fs)

/-! ## One name -/

section OneName

variable {env : Environment} {src fs between : FileSystem} {path pathReversed : Path} {name : Name}

theorem Ongoing.child_object (ongoing : Ongoing src fs path pathReversed) (name : Name) :
    fs.object (name :: path) = src.object (name :: path) := ongoing.object [name]

theorem fopenWrite_fails (may : env.succeeds .fopen (name :: path) ≠ true) :
    fs.fopenWrite env (name :: path) = none :=
  dif_neg fun allowed => may allowed.1

theorem mkdir_fails (may : env.succeeds .mkdir (name :: path) ≠ true) (mode : Nat) :
    fs.mkdir env (name :: path) mode = none :=
  dif_neg fun allowed => may allowed.1

theorem stat_fails (may : env.succeeds .stat path ≠ true) : fs.stat env path = none := if_neg may

theorem chmod_fails (may : env.succeeds .chmod path ≠ true) (mode : Nat) :
    fs.chmod env path mode = none := if_neg may

theorem stat_succeeds {object : Object} (may : env.succeeds .stat path = true)
    (found : fs.object path = some object) : fs.stat env path = some object.mode := by
  rw [FileSystem.stat, if_pos may, found]
  rfl

/-- A file for which every call succeeds. -/
theorem copyFile_writes (ongoing : Ongoing src fs path pathReversed) (seen : name.head? ≠ some 46)
    {mode : Nat} {bytes : List UInt8} (found : src.object (name :: path) = some (.regular mode bytes))
    (fresh : fs.object (name.reverse :: pathReversed) = none)
    (stats : env.succeeds .stat (name :: path) = true)
    (reads : env.succeeds .fopen (name :: path) = true)
    (creates : env.succeeds .fopen (name.reverse :: pathReversed) = true)
    (changes : env.succeeds .chmod (name.reverse :: pathReversed) = true) :
    BodyResult env src path pathReversed name fs
      (copyFile env (name :: path) (name.reverse :: pathReversed) fs) := by
  have flat : isDirectory (src.object (name :: path)) = false := by
    rw [found]
    rfl
  have passes : Passes env src path pathReversed name := by
    intro _
    rw [flat, if_neg Bool.false_ne_true]
    exact ⟨stats, reads, creates, changes⟩
  obtain ⟨changed, puts, result⟩ := copyFile_calls stats reads creates changes ongoing.ready seen
    ((ongoing.child_object name).trans found) fresh
  rw [result]
  rcases reverseFile_cases bytes with overflow | ⟨count, _, _, blocks⟩
  · rw [overflow]
    exact .overflows passes ⟨seen, Or.inl ⟨mode, bytes, found, overflow⟩⟩
  · have last := FileSystem.write_puts env (bytes.take (32 * count)).reverse puts.found
    rw [blocks, ok_bind]
    refine .goesOn passes ?_ (FramedAt.of_puts (puts.trans last) (Framed.refl _ _)) ?_
    · intro assumed
      rcases assumed with ⟨_, ⟨otherMode, other, isOther, overflow⟩ | ⟨isDir, _⟩⟩
      · rw [found, Option.some.injEq, Object.regular.injEq] at isOther
        rw [← isOther.2, blocks] at overflow
        cases overflow
      · rw [flat] at isDir
        cases isDir
    · rw [filledBelow_flat flat seen, soundBelow_flat flat seen, last.found, found]
      have small := reverseFile_iff bytes
      rw [blocks, Except.ok.injEq] at small
      simp [Stands, small]

/-- The branch for regular files. -/
theorem copyFile_result (ongoing : Ongoing src fs path pathReversed) (seen : name.head? ≠ some 46)
    {mode : Nat} {bytes : List UInt8} (found : src.object (name :: path) = some (.regular mode bytes))
    (fresh : fs.object (name.reverse :: pathReversed) = none) :
    BodyResult env src path pathReversed name fs
      (copyFile env (name :: path) (name.reverse :: pathReversed) fs) := by
  have ready := ongoing.ready
  have foundNow : fs.object (name :: path) = some (.regular mode bytes) :=
    (ongoing.child_object name).trans found
  have wanted : Wanted src path name := ⟨seen, by rw [found]; rfl⟩
  have flat : isDirectory (src.object (name :: path)) = false := by
    rw [found]
    rfl
  have calls : Passes env src path pathReversed name →
      env.succeeds .stat (name :: path) = true ∧ env.succeeds .fopen (name :: path) = true ∧
        env.succeeds .fopen (name.reverse :: pathReversed) = true ∧
        env.succeeds .chmod (name.reverse :: pathReversed) = true := by
    intro passes
    have succeeds := passes wanted
    rwa [flat, if_neg Bool.false_ne_true] at succeeds
  by_cases creates : env.succeeds .fopen (name.reverse :: pathReversed) = true
  · obtain ⟨created, opens, first⟩ := FileSystem.fopenWrite_puts creates ready.target fresh
      (reverse_proper seen)
    have stillFound : created.object (name :: path) = some (.regular mode bytes) := by
      rw [first.others (ready.different name _), foundNow]
    have framed := FramedAt.of_puts first (Framed.refl (name.reverse :: pathReversed) created)
    have left : FilledBelow src path pathReversed created name ↔
        Harmless env src path pathReversed name := by
      rw [filledBelow_flat flat seen, first.found, Harmless, found]
      simp [Stands, creates]
    by_cases reads : env.succeeds .fopen (name :: path) = true
    · have readable : fs.fopenRead env (name :: path) = true := by
        simp [FileSystem.fopenRead, reads, foundNow, isDirectory]
      by_cases stats : env.succeeds .stat (name :: path) = true
      · have itsMode := stat_succeeds stats stillFound
        by_cases changes : env.succeeds .chmod (name.reverse :: pathReversed) = true
        · exact copyFile_writes ongoing seen found fresh stats reads creates changes
        · have result : copyFile env (name :: path) (name.reverse :: pathReversed) fs =
              .ok (.returned 1 created) := by
            simp [copyFile, opens, readable, itsMode, chmod_fails changes]
          rw [result]
          exact .stops (fun passes => changes (calls passes).2.2.2) framed left
      · have result : copyFile env (name :: path) (name.reverse :: pathReversed) fs =
            .ok (.returned 1 created) := by
          simp [copyFile, opens, readable, stat_fails stats]
        rw [result]
        exact .stops (fun passes => stats (calls passes).1) framed left
    · have unreadable : fs.fopenRead env (name :: path) = false := by
        simp [FileSystem.fopenRead, reads]
      have result : copyFile env (name :: path) (name.reverse :: pathReversed) fs =
          .ok (.returned 1 created) := by
        simp [copyFile, opens, unreadable]
      rw [result]
      exact .stops (fun passes => reads (calls passes).2.1) framed left
  · have result : copyFile env (name :: path) (name.reverse :: pathReversed) fs =
        .ok (.returned 1 fs) := by
      simp [copyFile, fopenWrite_fails creates]
    rw [result]
    refine .stops (fun passes => creates (calls passes).2.2.1) (FramedAt.refl _ _ fs) ?_
    rw [filledBelow_fresh fresh]
    exact ⟨fun unwanted => absurd wanted unwanted, fun harmless => absurd harmless.2 creates⟩

theorem Ongoing.child {mode : Nat} (ongoing : Ongoing src fs path pathReversed)
    (puts : FileSystem.Puts fs between name.reverse pathReversed (.directory mode))
    (isDir : isDirectory (src.object (name :: path)) = true) :
    Ongoing src between (name :: path) (name.reverse :: pathReversed) where
  ready := ongoing.ready.child puts (by rw [ongoing.child_object name]; exact isDir)
  object rel := by
    have same := ongoing.ready.puts_source puts (rel ++ [name])
    rw [List.append_assoc, List.singleton_append] at same
    rw [same]
    simpa using ongoing.object (rel ++ [name])
  entries rel := by
    have apart := ongoing.ready.apart (rel ++ [name])
    rw [List.append_assoc, List.singleton_append] at apart
    have kept : between.entries (rel ++ name :: path) = fs.entries (rel ++ name :: path) := by
      apply puts.entries
      · intro same
        rw [same] at apart
        exact apart (List.suffix_refl _)
      · intro same
        rw [same] at apart
        exact apart (List.suffix_cons _ pathReversed)
    rw [kept]
    simpa using ongoing.entries (rel ++ [name])

theorem Harmless.soundBelow (harmless : Harmless env src path pathReversed name) :
    SoundBelow env src path pathReversed name := by
  obtain ⟨⟨mode, found⟩, _⟩ := harmless
  have flat : isDirectory (src.object (name :: path)) = false := by
    rw [found]
    rfl
  by_cases hidden : name.head? = some 46
  · exact soundBelow_hidden hidden
  · rw [soundBelow_flat flat hidden]
    intro otherMode bytes isFile
    rw [found, Option.some.injEq, Object.regular.injEq] at isFile
    rw [← isFile.2]
    exact Nat.zero_le _

/-- The branch for directories. -/
theorem copyDirectory_result
    {recurse : Path → Path → FileSystem → Except Fault (Nat × FileSystem)} {levels : Nat}
    (answers : Answers env src recurse levels) (ongoing : Ongoing src fs path pathReversed)
    (bounded : Levels src path (levels + 1)) (seen : name.head? ≠ some 46) {mode : Nat}
    (found : src.object (name :: path) = some (.directory mode))
    (fresh : fs.object (name.reverse :: pathReversed) = none) :
    BodyResult env src path pathReversed name fs
      (copyDirectory env recurse (name :: path) (name.reverse :: pathReversed) fs) := by
  have wanted : Wanted src path name := ⟨seen, by rw [found]; rfl⟩
  have isDir : isDirectory (src.object (name :: path)) = true := by
    rw [found]
    rfl
  have calls : Passes env src path pathReversed name ↔ env.succeeds .stat (name :: path) = true ∧
      env.succeeds .mkdir (name.reverse :: pathReversed) = true := by
    simp [Passes, wanted, isDir]
  have notHarmless : ¬ Harmless env src path pathReversed name := by
    intro assumed
    obtain ⟨⟨other, isFile⟩, _⟩ := assumed
    rw [found] at isFile
    cases isFile
  -- the directory is not made
  have stopped : ¬ Passes env src path pathReversed name →
      BodyResult env src path pathReversed name fs (.ok (.returned 1 fs)) := by
    intro fails
    refine .stops fails (FramedAt.refl _ _ fs) ?_
    rw [filledBelow_fresh fresh]
    exact ⟨fun unwanted => absurd wanted unwanted, fun harmless => absurd harmless notHarmless⟩
  by_cases stats : env.succeeds .stat (name :: path) = true
  · have itsMode := stat_succeeds stats ((ongoing.child_object name).trans found)
    by_cases makes : env.succeeds .mkdir (name.reverse :: pathReversed) = true
    · obtain ⟨made, mkdirOk, puts⟩ := FileSystem.mkdir_puts mode makes ongoing.ready.target fresh
        (reverse_proper seen)
      have below : Levels src (name :: path) levels := by
        intro rel there
        have lengths := bounded (rel ++ [name]) (by simpa using there)
        rw [List.length_append, List.length_singleton] at lengths
        omega
      have passes := calls.mpr ⟨stats, makes⟩
      have result : copyDirectory env recurse (name :: path) (name.reverse :: pathReversed) fs =
          (recurse (name :: path) (name.reverse :: pathReversed) made >>= fun answer =>
            .ok (.goesOn answer.2)) := by
        simp [copyDirectory, itsMode, Object.mode, mkdirOk]
      rw [result]
      have answer := answers (name :: path) (name.reverse :: pathReversed) made below
        (ongoing.child puts isDir) (empty_child puts fresh)
      generalize recurse (name :: path) (name.reverse :: pathReversed) made = answered at answer
      cases answer with
      | overflows overflow => exact .overflows passes ⟨seen, Or.inr ⟨isDir, overflow⟩⟩
      | @returns code after fits framed zero filled =>
          refine .goesOn passes ?_ (FramedAt.of_puts puts framed) ?_
          · intro assumed
            rcases assumed with ⟨_, ⟨otherMode, bytes, isFile, _⟩ | ⟨_, overflow⟩⟩
            · rw [found] at isFile
              cases isFile
            · exact fits overflow
          · have stillMade : isDirectory (after.object (name.reverse :: pathReversed)) = true := by
              rw [framed.outside _ (Or.inr rfl), puts.found]
              rfl
            rw [filledBelow_directory seen isDir, soundBelow_directory seen, filled]
            exact and_iff_right stillMade
    · have result : copyDirectory env recurse (name :: path) (name.reverse :: pathReversed) fs =
          .ok (.returned 1 fs) := by
        simp [copyDirectory, itsMode, mkdir_fails makes]
      rw [result]
      exact stopped fun passes => makes (calls.mp passes).2
  · have result : copyDirectory env recurse (name :: path) (name.reverse :: pathReversed) fs =
        .ok (.returned 1 fs) := by
      simp [copyDirectory, stat_fails stats]
    rw [result]
    exact stopped fun passes => stats (calls.mp passes).1

/-- The body of the loop. -/
theorem loopBody_result {recurse : Path → Path → FileSystem → Except Fault (Nat × FileSystem)}
    {levels : Nat} (answers : Answers env src recurse levels)
    (ongoing : Ongoing src fs path pathReversed) (bounded : Levels src path (levels + 1))
    (fresh : fs.object (name.reverse :: pathReversed) = none) :
    BodyResult env src path pathReversed name fs
      (loopBody env recurse path pathReversed name fs) := by
  -- a name that the loop passes over
  have skipped : ¬ Wanted src path name →
      BodyResult env src path pathReversed name fs (.ok (.goesOn fs)) := by
    intro unwanted
    refine .goesOn (passes_unwanted unwanted) ?_ (FramedAt.refl _ _ fs) ?_
    · intro assumed
      rcases assumed with ⟨seen, ⟨mode, bytes, found, _⟩ | ⟨isDir, _⟩⟩
      · exact unwanted ⟨seen, by rw [found]; rfl⟩
      · exact unwanted ⟨seen, isCopied_directory isDir⟩
    · exact ⟨fun _ => soundBelow_unwanted unwanted, fun _ => (filledBelow_fresh fresh).mpr unwanted⟩
  by_cases hidden : name.head? = some 46
  · rw [loopBody, if_pos hidden]
    exact skipped fun wanted => wanted.1 hidden
  rw [loopBody, if_neg hidden, nameReversed_eq, ongoing.child_object name]
  cases found : src.object (name :: path) with
  | none =>
      apply skipped
      intro assumed
      obtain ⟨_, copied⟩ := assumed
      rw [found] at copied
      cases copied
  | some object =>
      cases object with
      | directory mode => exact copyDirectory_result answers ongoing bounded hidden found fresh
      | regular mode bytes => exact copyFile_result ongoing hidden found fresh
      | other mode =>
          apply skipped
          intro assumed
          obtain ⟨_, copied⟩ := assumed
          rw [found] at copied
          cases copied

end OneName

/-! ## All names, all levels -/

section AllNames

variable {env : Environment} {src fs after : FileSystem} {path pathReversed : Path}

theorem Ongoing.framed (ongoing : Ongoing src fs path pathReversed)
    (framed : Framed pathReversed fs after) : Ongoing src after path pathReversed := by
  have apart := ongoing.ready.apart
  have same : ∀ rel, after.object (rel ++ path) = fs.object (rel ++ path) :=
    fun rel => framed.outside _ (Or.inl (apart rel))
  refine ⟨⟨?_, ?_, apart⟩, fun rel => (same rel).trans (ongoing.object rel),
    fun rel => (framed.listing _ (apart rel)).trans (ongoing.entries rel)⟩
  · rw [← List.nil_append path, same]
    exact ongoing.ready.source
  · rw [framed.outside _ (Or.inr rfl)]
    exact ongoing.ready.target

/-- What is below another name stays as it is. -/
theorem FramedAt.other {name other : Name} (framed : FramedAt name.reverse pathReversed fs after)
    (different : other ≠ name) (rel : Path) :
    after.object (rel ++ other.reverse :: pathReversed) =
      fs.object (rel ++ other.reverse :: pathReversed) :=
  framed.others other.reverse (fun same => different (List.reverse_inj.mp same)) rel

/-- The loop ends at a name for which a call fails. -/
theorem stopped_result {name : Name} {rest : List Name}
    (fresh : ∀ other ∈ rest, fs.object (other.reverse :: pathReversed) = none)
    (notAgain : name ∉ rest) (fails : ¬ Passes env src path pathReversed name)
    (framed : FramedAt name.reverse pathReversed fs after)
    (filled : FilledBelow src path pathReversed after name ↔ Harmless env src path pathReversed name) :
    LoopResult env src path pathReversed (name :: rest) fs (.ok (1, after)) := by
  have left : ∀ other ∈ rest, FilledBelow src path pathReversed after other ↔
      ¬ Wanted src path other := by
    intro other member
    have different : other ≠ name := by
      intro same
      subst same
      exact notAgain member
    apply filledBelow_fresh
    rw [← List.nil_append (other.reverse :: pathReversed), framed.other different,
      List.nil_append]
    exact fresh other member
  refine .returns ?_ framed.framed ?_ ?_ ?_
  · intro overflows
    exact fails (overflowsIn_cons.mp overflows).1
  · intro other notMember
    apply framed.other
    intro same
    subst same
    exact notMember List.mem_cons_self
  · constructor
    · intro nonzero
      cases nonzero
    · intro passes
      exact absurd (passes name List.mem_cons_self) fails
  · rw [List.forall_mem_cons, List.forall_mem_cons, filled, stopsLate_cons]
    constructor
    · intro assumed
      obtain ⟨harmless, others⟩ := assumed
      have unwanted : ∀ other ∈ rest, ¬ Wanted src path other :=
        fun other member => (left other member).mp (others other member)
      refine ⟨⟨fun _ => ⟨harmless, unwanted⟩, ?_⟩, harmless.soundBelow,
        fun other member => soundBelow_unwanted (unwanted other member)⟩
      rintro front other back rfl otherFails
      exact absurd (passes_unwanted (unwanted other (by simp))) otherFails
    · intro assumed
      obtain ⟨⟨late, _⟩, _⟩ := assumed
      obtain ⟨harmless, unwanted⟩ := late fails
      exact ⟨harmless, fun other member => (left other member).mpr (unwanted other member)⟩

theorem readLoop_result {recurse : Path → Path → FileSystem → Except Fault (Nat × FileSystem)}
    {levels : Nat} (answers : Answers env src recurse levels) (names : List Name)
    (ongoing : Ongoing src fs path pathReversed) (bounded : Levels src path (levels + 1))
    (once : names.Nodup) (fresh : ∀ name ∈ names, fs.object (name.reverse :: pathReversed) = none) :
    LoopResult env src path pathReversed names fs
      (readLoop env recurse path pathReversed names fs) := by
  induction names generalizing fs with
  | nil =>
      refine .returns ?_ (Framed.refl _ fs) (fun _ _ _ => rfl) (by simp) ?_
      · intro assumed
        obtain ⟨front, name, rest, split, _⟩ := assumed
        simp at split
      · simp [StopsLate]
  | cons name rest ih =>
      obtain ⟨notAgain, restOnce⟩ := List.nodup_cons.mp once
      have restFresh : ∀ other ∈ rest, fs.object (other.reverse :: pathReversed) = none :=
        fun other member => fresh other (List.mem_cons_of_mem name member)
      have body := loopBody_result answers ongoing bounded (fresh name List.mem_cons_self)
      rw [readLoop]
      generalize loopBody env recurse path pathReversed name fs = flow at body
      cases body with
      | overflows passes overflow =>
          exact .overflows (overflowsIn_cons.mpr ⟨passes, Or.inl overflow⟩)
      | stops fails framed filled => exact stopped_result restFresh notAgain fails framed filled
      | @goesOn between passes fits framed filled =>
          have different : ∀ other ∈ rest, other ≠ name := by
            rintro other member rfl
            exact notAgain member
          have stillFresh : ∀ other ∈ rest,
              between.object (other.reverse :: pathReversed) = none := by
            intro other member
            rw [← List.nil_append (other.reverse :: pathReversed),
              framed.other (different other member), List.nil_append]
            exact restFresh other member
          have later := ih (ongoing.framed framed.framed) restOnce stillFresh
          rw [ok_bind]
          dsimp only
          generalize readLoop env recurse path pathReversed rest between = result at later
          cases later with
          | overflows overflow =>
              exact .overflows (overflowsIn_cons.mpr ⟨passes, Or.inr overflow⟩)
          | @returns code final restFits restFramed others zero restFilled =>
              have own : FilledBelow src path pathReversed final name ↔
                  SoundBelow env src path pathReversed name := by
                rw [← filled]
                simp only [FilledBelow, others name notAgain]
              refine .returns ?_ (framed.framed.trans restFramed) ?_ ?_ ?_
              · rw [overflowsIn_cons]
                intro assumed
                rcases assumed with ⟨_, overflow | overflow⟩
                · exact fits overflow
                · exact restFits overflow
              · intro other notMember rel
                rw [List.mem_cons, not_or] at notMember
                rw [others other notMember.2, framed.other notMember.1]
              · rw [List.forall_mem_cons, zero]
                exact (and_iff_right passes).symm
              · rw [List.forall_mem_cons, List.forall_mem_cons, own, restFilled, stopsLate_cons]
                constructor
                · intro assumed
                  obtain ⟨here, late, below⟩ := assumed
                  exact ⟨⟨fun fails => absurd passes fails, late⟩, here, below⟩
                · intro assumed
                  obtain ⟨⟨_, late⟩, here, below⟩ := assumed
                  exact ⟨here, late, below⟩

/-- The recursion on the levels of the tree. -/
theorem reverseInside_result (levels : Nat) : Answers env src (reverseInside env levels) levels := by
  induction levels with
  | zero =>
      intro path pathReversed fs bounded ongoing _
      have there : src.object ([] ++ path) ≠ none := by
        intro absent
        have source := ongoing.ready.source
        rw [← List.nil_append path, ongoing.object, absent] at source
        cases source
      have impossible := bounded [] there
      cases impossible
  | succ levels ih =>
      intro path pathReversed fs bounded ongoing fresh
      have sameSource : fs.object path = src.object path := ongoing.object []
      have sameListing : fs.entries path = src.entries path := ongoing.entries []
      have source : isDirectory (src.object path) = true := by
        rw [← sameSource]
        exact ongoing.ready.source
      have first : ∀ name ∈ src.entries path, fs.object (name.reverse :: pathReversed) = none :=
        fun name _ => fresh [name.reverse] (by simp)
      rw [reverseInside]
      by_cases opens : env.succeeds .opendir path = true
      · have listing : fs.opendir env path = some (src.entries path) := by
          simp [FileSystem.opendir, opens, ongoing.ready.source, sameListing]
        rw [listing]
        dsimp only
        have loop := readLoop_result ih (src.entries path) ongoing bounded (src.nodup path source) first
        generalize readLoop env (reverseInside env levels) path pathReversed (src.entries path) fs =
          result at loop
        cases loop with
        | overflows overflow => exact .overflows (overflows_iff.mpr ⟨opens, overflow⟩)
        | returns fits framed others zero filled =>
            refine .returns (fun overflow => fits (overflows_iff.mp overflow).2) framed ?_ ?_
            · rw [zero]
              exact (and_iff_right opens).symm
            · rw [filled_iff source, sound_iff source, filled, LosesNothing]
              simp [opens]
      · have closed : fs.opendir env path = none := by
          simp [FileSystem.opendir, opens]
        rw [closed]
        refine .returns (fun overflow => opens (overflows_iff.mp overflow).1) (Framed.refl _ fs) ?_ ?_
        · simp [Clean, opens]
        · rw [filled_iff source, sound_iff source]
          constructor
          · intro filled
            have unwanted : ∀ name ∈ src.entries path, ¬ Wanted src path name :=
              fun name listed => (filledBelow_fresh (first name listed)).mp (filled name listed)
            refine ⟨⟨Or.inr unwanted, ?_⟩,
              fun name listed => soundBelow_unwanted (unwanted name listed)⟩
            intro front name rest split fails
            exact absurd (passes_unwanted (unwanted name (by rw [split]; simp))) fails
          · intro assumed
            rcases assumed with ⟨⟨opened | unwanted, _⟩, _⟩
            · exact absurd opened opens
            · intro name listed
              exact (filledBelow_fresh (first name listed)).mpr (unwanted name listed)

end AllNames

/-! ## The outermost call -/

/-- A directory of a file system and an empty directory outside it. -/
structure CopyTask where
  env : Environment
  fs : FileSystem
  path : Path
  pathReversed : Path
  depth : Nat
  source : isDirectory (fs.object path) = true
  finite : ∀ rel, fs.object (rel ++ path) ≠ none → rel.length ≤ depth
  target : isDirectory (fs.object pathReversed) = true
  fresh : ∀ rel, rel ≠ [] → fs.object (rel ++ pathReversed) = none
  notInside : ¬ path <:+ pathReversed
  notAround : ¬ pathReversed <:+ path

namespace CopyTask

def run (task : CopyTask) (levels : Nat) : Except Fault (Nat × FileSystem) :=
  reverseInside task.env levels task.path task.pathReversed task.fs

/-- Every directory and every regular file of the tree is in the destination,
the files with all their bytes. -/
def Complete (task : CopyTask) (final : FileSystem) : Prop :=
  Filled task.fs task.path task.pathReversed final

theorem ongoing (task : CopyTask) : Ongoing task.fs task.fs task.path task.pathReversed where
  ready := .of_outside task.source task.target task.notInside task.notAround
  object _ := rfl
  entries _ := rfl

theorem result (task : CopyTask) (more : Nat) :
    CopyResult task.env task.fs task.path task.pathReversed task.fs
      (task.run (task.depth + 1 + more)) := by
  refine reverseInside_result (task.depth + 1 + more) _ _ _ ?_ task.ongoing task.fresh
  intro rel there
  have inTree := task.finite rel there
  omega

/-- The run returns, with 0 only for a complete copy, exactly when it does not come
to the overflow and the outermost call reports its own failures or nothing is
lost; where it comes to the overflow, that is all that happens. -/
theorem failures_reported_iff (task : CopyTask) (more : Nat) :
    ((∃ code final, task.run (task.depth + 1 + more) = .ok (code, final) ∧
        (code = 0 → task.Complete final)) ↔
      ¬ Overflows task.env task.fs task.path task.pathReversed ∧
        (¬ Clean task.env task.fs task.path task.pathReversed ∨
          Sound task.env task.fs task.path task.pathReversed)) ∧
    (task.run (task.depth + 1 + more) = .error .overflow ↔
      Overflows task.env task.fs task.path task.pathReversed) := by
  have result := task.result more
  generalize task.run (task.depth + 1 + more) = ran at result
  cases result with
  | overflows overflow =>
      refine ⟨⟨?_, fun condition => absurd overflow condition.1⟩, ⟨fun _ => overflow, fun _ => rfl⟩⟩
      rintro ⟨code, final, returned, _⟩
      cases returned
  | @returns code after fits framed zero filled =>
      refine ⟨⟨?_, ?_⟩, ⟨?_, fun overflow => absurd overflow fits⟩⟩
      · rintro ⟨returned, final, ran, complete⟩
        rw [Except.ok.injEq, Prod.mk.injEq] at ran
        obtain ⟨rfl, rfl⟩ := ran
        refine ⟨fits, ?_⟩
        by_cases clean : Clean task.env task.fs task.path task.pathReversed
        · exact Or.inr (filled.mp (complete (zero.mpr clean)))
        · exact Or.inl clean
      · rintro ⟨_, dirty | sound⟩
        · exact ⟨code, after, rfl, fun isZero => absurd (zero.mp isZero) dirty⟩
        · exact ⟨code, after, rfl, fun _ => filled.mpr sound⟩
      · intro overflow
        cases overflow

end CopyTask

/-! ## A directory that cannot be opened -/

/-- Directories `cd`, `dc` and `cd/e`, and a file `cd/e/f` of one byte. -/
def deepFile : FileSystem :=
  ((((FileSystem.root 511).create [99, 100] [] (.directory 493) rfl rfl (by decide)).create
    [100, 99] [] (.directory 493) rfl rfl (by decide)).create
      [101] [[99, 100]] (.directory 493) rfl rfl (by decide)).create
        [102] [[101], [99, 100]] (.regular 420 [1]) rfl rfl (by decide)

/-- `opendir` fails on `cd/e`. -/
def closedInside : Environment where
  succeeds call path := !(call == .opendir && path == [[101], [99, 100]])
  masked mode := mode
  changed mode := mode
  written mode := mode

def deepPaths : List Path :=
  [[[102], [101], [99, 100]], [[101], [99, 100]], [[100, 99]], [[99, 100]], []]

theorem deepFile_object (path : Path) (there : deepFile.object path ≠ none) : path ∈ deepPaths := by
  by_contra elsewhere
  simp only [deepPaths, List.mem_cons, List.not_mem_nil, or_false, not_or] at elsewhere
  obtain ⟨notFile, notInner, notTarget, notSource, notRoot⟩ := elsewhere
  apply there
  simp [deepFile, FileSystem.create, FileSystem.root, notFile, notInner, notTarget, notSource,
    notRoot]

def deepTask : CopyTask where
  env := closedInside
  fs := deepFile
  path := [[99, 100]]
  pathReversed := [[100, 99]]
  depth := 2
  source := rfl
  finite rel there := by
    have found := deepFile_object _ there
    have short : ∀ path ∈ deepPaths, path.length ≤ 3 := by decide
    have bound := short _ found
    rw [List.length_append, List.length_singleton] at bound
    omega
  target := rfl
  fresh rel nonempty := by
    by_contra there
    have found := deepFile_object _ there
    have only : ∀ path ∈ deepPaths, path.getLast? = some [100, 99] → path.length = 1 := by decide
    have bound := only _ found List.getLast?_concat
    rw [List.length_append, List.length_singleton, Nat.add_eq_right, List.length_eq_zero_iff] at bound
    exact nonempty bound
  notInside := by decide
  notAround := by decide

/-- The outermost call returns 0, and `dc/e` is empty. -/
theorem closed_directory_lost : ∃ final,
    deepTask.run (deepTask.depth + 1) = .ok (0, final) ∧ ¬ deepTask.Complete final := by
  have ran : ∃ final, deepTask.run (deepTask.depth + 1) = .ok (0, final) ∧
      final.object [[102], [101], [100, 99]] = none := ⟨_, rfl, rfl⟩
  obtain ⟨final, ran, lost⟩ := ran
  refine ⟨final, ran, ?_⟩
  intro complete
  have copy : ∃ mode, final.object [[102], [101], [100, 99]] = some (.regular mode [1]) :=
    complete [[102], [101]] (by decide) rfl
  obtain ⟨mode, isCopy⟩ := copy
  rw [lost] at isCopy
  cases isCopy

end OsLabs.Mirror
