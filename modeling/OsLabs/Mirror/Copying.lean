import OsLabs.Mirror.ReverseInside

/-!
# A copy is made, or runs into the overflow

One lemma for each branch of the loop of `reverse_inside`, one for its body,
one for the loop, and `reverseInside_correct` for the recursion.  Apart from
the overflow in `reverse_file` nothing goes wrong when no call is made to
fail: names are reversed one-to-one, so `mkdir` and `fopen` find their places
free.
-/

set_option autoImplicit false

namespace OsLabs.Mirror

open OsLabs.Files OsLabs.Transition

/-! ## What a copy leaves alone -/

/-- What is strictly below the destination may change, and nothing else. -/
structure Framed (pathReversed : Path) (before after : FileSystem) : Prop where
  outside : ∀ other, (¬ pathReversed <:+ other ∨ other = pathReversed) →
    after.object other = before.object other
  listing : ∀ other, ¬ pathReversed <:+ other → after.entries other = before.entries other

theorem Framed.refl (pathReversed : Path) (fs : FileSystem) : Framed pathReversed fs fs :=
  ⟨fun _ _ => rfl, fun _ _ => rfl⟩

theorem Framed.trans {pathReversed : Path} {before between after : FileSystem}
    (first : Framed pathReversed before between) (later : Framed pathReversed between after) :
    Framed pathReversed before after where
  outside other isOutside := (later.outside other isOutside).trans (first.outside other isOutside)
  listing other isOutside := (later.listing other isOutside).trans (first.listing other isOutside)

/-- The same for one name of the destination, which may itself be new. -/
structure FramedAt (target : Name) (pathReversed : Path) (before after : FileSystem) : Prop where
  framed : Framed pathReversed before after
  others : ∀ other, other ≠ target → ∀ rel,
    after.object (rel ++ other :: pathReversed) = before.object (rel ++ other :: pathReversed)

theorem FramedAt.refl (target : Name) (pathReversed : Path) (fs : FileSystem) :
    FramedAt target pathReversed fs fs :=
  ⟨Framed.refl pathReversed fs, fun _ _ _ => rfl⟩

/-- A new object, and what was then put below it. -/
theorem FramedAt.of_puts {target : Name} {pathReversed : Path} {before between after : FileSystem}
    {object : Object} (puts : FileSystem.Puts before between target pathReversed object)
    (below : Framed (target :: pathReversed) between after) :
    FramedAt target pathReversed before after where
  framed := {
    outside := fun other isOutside => by
      have notBelow := not_below_child target isOutside
      rw [below.outside other (Or.inl notBelow)]
      apply puts.others
      intro same
      subst same
      exact notBelow (List.suffix_refl _)
    listing := fun other isOutside => by
      have notBelow := not_below_child target (Or.inl isOutside)
      rw [below.listing other notBelow]
      apply puts.entries
      · intro same
        subst same
        exact isOutside (List.suffix_refl _)
      · intro same
        subst same
        exact notBelow (List.suffix_refl _) }
  others other different rel := by
    have notBelow : ¬ target :: pathReversed <:+ rel ++ other :: pathReversed := by
      intro isBelow
      exact different (child_unique isBelow).symm
    rw [below.outside _ (Or.inl notBelow)]
    apply puts.others
    intro same
    rw [same] at notBelow
    exact notBelow (List.suffix_refl _)

/-! ## One name -/

section OneName

variable {env : Environment} {path pathReversed : Path} {name : Name}
  {fs between after : FileSystem}

theorem reverse_proper (seen : name.head? ≠ some 46) :
    name.reverse ≠ dot ∧ name.reverse ≠ dotDot := by
  constructor <;> intro same <;> rw [List.reverse_eq_iff] at same <;> subst same <;>
    exact seen rfl

theorem Ready.different (ready : Ready fs path pathReversed) (name other : Name) :
    name :: path ≠ other :: pathReversed := by
  intro same
  apply ready.apart [name]
  rw [List.singleton_append, same]
  exact List.suffix_cons other pathReversed

/-- What is put below the destination is not in the source. -/
theorem Ready.puts_source {object : Object} (ready : Ready fs path pathReversed)
    (puts : FileSystem.Puts fs between name.reverse pathReversed object) (rel : Path) :
    between.object (rel ++ path) = fs.object (rel ++ path) := by
  apply puts.others
  intro same
  apply ready.apart rel
  rw [same]
  exact List.suffix_cons _ pathReversed

/-- A directory and the one that `mkdir` has made for it. -/
theorem Ready.child {mode : Nat} (ready : Ready fs path pathReversed)
    (puts : FileSystem.Puts fs between name.reverse pathReversed (.directory mode))
    (source : isDirectory (fs.object (name :: path)) = true) :
    Ready between (name :: path) (name.reverse :: pathReversed) where
  source := by
    have same := ready.puts_source puts [name]
    rw [List.singleton_append] at same
    rw [same]
    exact source
  target := by
    rw [puts.found]
    rfl
  apart rel below := by
    apply ready.apart (rel ++ [name])
    rw [List.append_assoc, List.singleton_append]
    exact (List.suffix_cons _ pathReversed).trans below

theorem empty_child {object : Object}
    (puts : FileSystem.Puts fs between name.reverse pathReversed object)
    (fresh : fs.object (name.reverse :: pathReversed) = none) (rel : Path) (nonempty : rel ≠ []) :
    between.object (rel ++ name.reverse :: pathReversed) = none := by
  rw [puts.others, fs.absent_below rel _ fresh]
  intro same
  exact nonempty (List.append_left_eq_self.mp same)

theorem Copied.unchanged {content : List UInt8 → List UInt8}
    (nothing : ∀ rel, expected env content fs path (rel ++ [name]) = none)
    (fresh : ∀ rel, fs.object (rel ++ name.reverse :: pathReversed) = none) :
    Copied env content path pathReversed [name] fs fs where
  outside _ _ := rfl
  listing _ _ := rfl
  copied other member rel := by
    rw [List.mem_singleton.mp member, fresh, nothing]
  kept _ _ _ := rfl

/-- A new object, and what was then put below it. -/
theorem Copied.of_puts {content : List UInt8 → List UInt8} {object : Object}
    (puts : FileSystem.Puts fs between name.reverse pathReversed object)
    (outside : ∀ other, (¬ name.reverse :: pathReversed <:+ other ∨
      other = name.reverse :: pathReversed) → after.object other = between.object other)
    (listing : ∀ other, ¬ name.reverse :: pathReversed <:+ other →
      after.entries other = between.entries other)
    (here : expected env content fs path [name] = some object)
    (below : ∀ rel, rel ≠ [] → after.object (mirrorPath rel ++ name.reverse :: pathReversed) =
      expected env content fs path (rel ++ [name])) :
    Copied env content path pathReversed [name] fs after := by
  have framedAt := FramedAt.of_puts puts ⟨outside, listing⟩
  refine ⟨framedAt.framed.outside, framedAt.framed.listing, ?_, ?_⟩
  · intro other member rel
    rw [List.mem_singleton.mp member]
    by_cases isNil : rel = []
    · subst isNil
      rw [mirrorPath_nil, List.nil_append, List.nil_append, outside _ (Or.inr rfl), puts.found, here]
    · exact below rel isNil
  · intro other notMember
    apply framedAt.others
    intro same
    exact notMember (List.mem_singleton.mpr (List.reverse_inj.mp same))

theorem expected_single {content : List UInt8 → List UInt8} {object copy : Object}
    (seen : name.head? ≠ some 46) (found : fs.object (name :: path) = some object)
    (isCopy : copyOf env content object = some copy) :
    expected env content fs path [name] = some copy := by
  have isVisible : visible [name] = true := by simp [visible, seen]
  rw [expected, if_pos isVisible, List.singleton_append, found]
  exact isCopy

/-- A file for which every call succeeds: its copy is given the mode of the file,
and then `reverse_file` writes it. -/
theorem copyFile_calls (stats : env.succeeds .stat (name :: path) = true)
    (reads : env.succeeds .fopen (name :: path) = true)
    (creates : env.succeeds .fopen (name.reverse :: pathReversed) = true)
    (changes : env.succeeds .chmod (name.reverse :: pathReversed) = true)
    (ready : Ready fs path pathReversed) (seen : name.head? ≠ some 46) {mode : Nat}
    {bytes : List UInt8} (found : fs.object (name :: path) = some (.regular mode bytes))
    (fresh : fs.object (name.reverse :: pathReversed) = none) :
    ∃ changed,
      FileSystem.Puts fs changed name.reverse pathReversed (.regular (env.changed mode) []) ∧
      copyFile env (name :: path) (name.reverse :: pathReversed) fs =
        (reverseFile bytes >>= fun out =>
          .ok (.goesOn (changed.write env (name.reverse :: pathReversed) out))) := by
  obtain ⟨created, opens, first⟩ := FileSystem.fopenWrite_puts creates ready.target fresh
    (reverse_proper seen)
  have stillFound : created.object (name :: path) = some (.regular mode bytes) := by
    rw [first.others (ready.different name _), found]
  obtain ⟨changed, chmodOk, second⟩ := FileSystem.chmod_puts mode changes first.found
  have source : changed.bytes (name :: path) = bytes := by
    rw [FileSystem.bytes, second.others (ready.different name _), stillFound]
  have readable : fs.fopenRead env (name :: path) = true := by
    simp [FileSystem.fopenRead, reads, found, isDirectory]
  have itsMode : created.stat env (name :: path) = some mode := by
    simp [FileSystem.stat, stats, stillFound, Object.mode]
  refine ⟨changed, first.trans second, ?_⟩
  simp [copyFile, opens, readable, itsMode, chmodOk, source]

/-- The branch for regular files. -/
theorem copyFile_outcome (permits : ∀ call path, env.succeeds call path = true)
    (ready : Ready fs path pathReversed) (seen : name.head? ≠ some 46) {mode : Nat}
    {bytes : List UInt8} (found : fs.object (name :: path) = some (.regular mode bytes))
    (fresh : fs.object (name.reverse :: pathReversed) = none) :
    Outcome (∃ out, reverseFile bytes = .ok out)
      (fun flow => ∃ after, flow = .goesOn after ∧
        FileSystem.Puts fs after name.reverse pathReversed
          (.regular (env.afterWrite (env.changed mode) (written bytes)) (written bytes)))
      (copyFile env (name :: path) (name.reverse :: pathReversed) fs) := by
  obtain ⟨changed, puts, result⟩ := copyFile_calls (permits _ _) (permits _ _) (permits _ _)
    (permits _ _) ready seen found fresh
  rw [result]
  rcases reverseFile_cases bytes with overflow | ⟨count, _, _, blocks⟩
  · refine Or.inr ⟨?_, by rw [overflow]; rfl⟩
    intro finishes
    obtain ⟨out, ends⟩ := finishes
    rw [overflow] at ends
    cases ends
  · have isWritten := written_ok blocks
    have last := FileSystem.write_puts env (bytes.take (32 * count)).reverse puts.found
    rw [blocks, ok_bind, isWritten]
    exact Or.inl ⟨⟨_, rfl⟩, _, rfl, _, rfl, puts.trans last⟩

/-- The branch for directories. -/
theorem copyDirectory_outcome {recurse : Path → Path → FileSystem → Except Fault (Nat × FileSystem)}
    {levels : Nat} (permits : ∀ call path, env.succeeds call path = true)
    (correct : Correct env recurse levels) (ready : Ready fs path pathReversed)
    (bounded : Levels fs path (levels + 1)) (seen : name.head? ≠ some 46) {mode : Nat}
    (found : fs.object (name :: path) = some (.directory mode))
    (fresh : fs.object (name.reverse :: pathReversed) = none) :
    Outcome (Finishes fs (name :: path))
      (fun flow => ∃ after, flow = .goesOn after ∧
        Copied env written path pathReversed [name] fs after)
      (copyDirectory env recurse (name :: path) (name.reverse :: pathReversed) fs) := by
  obtain ⟨made, makes, puts⟩ := FileSystem.mkdir_puts mode (permits _ _) ready.target fresh
    (reverse_proper seen)
  have itsMode : fs.stat env (name :: path) = some mode := by
    simp [FileSystem.stat, permits, found, Object.mode]
  have source : ∀ rel, made.object (rel ++ name :: path) = fs.object (rel ++ name :: path) :=
    fun rel => by simpa using ready.puts_source puts (rel ++ [name])
  have bounded' : Levels made (name :: path) levels := by
    intro rel there
    rw [source] at there
    have lengths := bounded (rel ++ [name]) (by simpa using there)
    rw [List.length_append, List.length_singleton] at lengths
    omega
  have ready' : Ready made (name :: path) (name.reverse :: pathReversed) :=
    ready.child puts (by rw [found]; rfl)
  have empty := empty_child puts fresh
  have result : copyDirectory env recurse (name :: path) (name.reverse :: pathReversed) fs =
      (recurse (name :: path) (name.reverse :: pathReversed) made >>= fun answer =>
        .ok (.goesOn answer.2)) := by
    simp [copyDirectory, itsMode, makes]
  have sameFinish : Finishes made (name :: path) ↔ Finishes fs (name :: path) := by
    simp only [Finishes, source]
  rw [result, ← sameFinish]
  rcases correct _ _ made bounded' ready' empty with ⟨finishes, answer, ends, _, mirrored⟩ |
    ⟨unfinished, overflow⟩
  · rw [ends, ok_bind]
    refine Or.inl ⟨finishes, _, rfl, _, rfl, ?_⟩
    apply Copied.of_puts puts mirrored.outside mirrored.listing
    · exact expected_single seen found rfl
    · intro rel nonempty
      rw [mirrored.copied rel nonempty, expected, expected, source, visible_append]
      simp [seen]
  · exact Or.inr ⟨unfinished, by rw [overflow]; rfl⟩

/-- Nothing lies below a name that is no directory. -/
theorem expected_below (content : List UInt8 → List UInt8)
    (flat : isDirectory (fs.object (name :: path)) = false) {rel : Path} (nonempty : rel ≠ []) :
    expected env content fs path (rel ++ [name]) = none := by
  apply expected_absent
  rw [List.append_assoc, List.singleton_append]
  exact fs.none_below rel _ flat nonempty

/-- What is neither a directory nor a regular file is passed over. -/
theorem Copied.skipped {content : List UInt8 → List UInt8}
    (flat : isDirectory (fs.object (name :: path)) = false)
    (notRegular : ∀ mode bytes, fs.object (name :: path) ≠ some (.regular mode bytes))
    (fresh : ∀ rel, fs.object (rel ++ name.reverse :: pathReversed) = none) :
    Copied env content path pathReversed [name] fs fs := by
  apply Copied.unchanged _ fresh
  intro rel
  by_cases isNil : rel = []
  · subst isNil
    rw [expected]
    split
    · cases found : fs.object (name :: path) with
      | none => simp [found]
      | some object =>
          cases object with
          | directory mode =>
              rw [found] at flat
              cases flat
          | regular mode bytes => exact absurd found (notRegular mode bytes)
          | other mode => simp [found, copyOf]
    · rfl
  · exact expected_below content flat isNil

/-- A regular file and its copy. -/
theorem Copied.of_regular {mode : Nat} {bytes : List UInt8} {copy : Object}
    (hidden : name.head? ≠ some 46) (found : fs.object (name :: path) = some (.regular mode bytes))
    (isCopy : copyOf env written (.regular mode bytes) = some copy)
    (puts : FileSystem.Puts fs after name.reverse pathReversed copy)
    (fresh : ∀ rel, fs.object (rel ++ name.reverse :: pathReversed) = none) :
    Copied env written path pathReversed [name] fs after := by
  have flat : isDirectory (fs.object (name :: path)) = false := by
    rw [found]
    rfl
  apply Copied.of_puts puts (fun _ _ => rfl) (fun _ _ => rfl)
  · exact expected_single hidden found isCopy
  · intro rel nonempty
    rw [expected_below written flat nonempty, puts.others, fresh (mirrorPath rel)]
    intro same
    exact nonempty (List.map_eq_nil_iff.mp (List.append_left_eq_self.mp same))

/-- The body of the loop. -/
theorem loopBody_outcome {recurse : Path → Path → FileSystem → Except Fault (Nat × FileSystem)}
    {levels : Nat} (permits : ∀ call path, env.succeeds call path = true)
    (correct : Correct env recurse levels) (ready : Ready fs path pathReversed)
    (bounded : Levels fs path (levels + 1))
    (fresh : fs.object (name.reverse :: pathReversed) = none) :
    Outcome (FinishesBelow fs path name)
      (fun flow => ∃ after, flow = .goesOn after ∧
        Copied env written path pathReversed [name] fs after)
      (loopBody env recurse path pathReversed name fs) := by
  have allFresh : ∀ rel, fs.object (rel ++ name.reverse :: pathReversed) = none :=
    fun rel => fs.absent_below rel _ fresh
  by_cases hidden : name.head? = some 46
  · refine Or.inl ⟨finishesBelow_hidden fs path name hidden, _, if_pos hidden, fs, rfl, ?_⟩
    apply Copied.unchanged _ allFresh
    intro rel
    rw [expected, visible_append, hidden]
    simp
  rw [loopBody, if_neg hidden, nameReversed_eq]
  have skipped : isDirectory (fs.object (name :: path)) = false →
      (∀ mode bytes, fs.object (name :: path) ≠ some (.regular mode bytes)) →
      FinishesBelow fs path name ∧ Copied env written path pathReversed [name] fs fs := by
    intro flat notRegular
    refine ⟨?_, Copied.skipped flat notRegular allFresh⟩
    rw [finishesBelow_flat fs path name flat hidden]
    intro mode bytes found
    exact absurd found (notRegular mode bytes)
  cases found : fs.object (name :: path) with
  | none =>
      obtain ⟨finishes, copied⟩ := skipped (by rw [found]; rfl) (by simp [found])
      exact Or.inl ⟨finishes, _, rfl, fs, rfl, copied⟩
  | some object =>
      cases object with
      | other mode =>
          obtain ⟨finishes, copied⟩ := skipped (by rw [found]; rfl) (by simp [found])
          exact Or.inl ⟨finishes, _, rfl, fs, rfl, copied⟩
      | directory mode =>
          rw [finishesBelow_directory fs path name hidden]
          exact copyDirectory_outcome permits correct ready bounded hidden found fresh
      | regular mode bytes =>
          have flat : isDirectory (fs.object (name :: path)) = false := by
            rw [found]
            rfl
          have finishes : FinishesBelow fs path name ↔ ∃ out, reverseFile bytes = .ok out := by
            rw [finishesBelow_flat fs path name flat hidden, found]
            simp
          rw [finishes]
          rcases copyFile_outcome permits ready hidden found fresh with
            ⟨ends, flow, isFlow, after, goesOn, puts⟩ | overflow
          · refine Or.inl ⟨ends, flow, isFlow, after, goesOn, ?_⟩
            exact Copied.of_regular hidden found rfl puts allFresh
          · exact Or.inr overflow

end OneName

/-! ## All names, all levels -/

section AllNames

variable {env : Environment} {path pathReversed : Path} {fs after : FileSystem}

theorem Ready.copied {names : List Name} (ready : Ready fs path pathReversed)
    (copied : Copied env written path pathReversed names fs after) :
    Ready after path pathReversed ∧
      ∀ rel, after.object (rel ++ path) = fs.object (rel ++ path) := by
  have same : ∀ rel, after.object (rel ++ path) = fs.object (rel ++ path) :=
    fun rel => copied.outside _ (Or.inl (ready.apart rel))
  refine ⟨⟨?_, ?_, ready.apart⟩, same⟩
  · rw [← List.nil_append path, same]
    exact ready.source
  · rw [copied.outside _ (Or.inr rfl)]
    exact ready.target

theorem readLoop_outcome {recurse : Path → Path → FileSystem → Except Fault (Nat × FileSystem)}
    {levels : Nat} (permits : ∀ call path, env.succeeds call path = true)
    (correct : Correct env recurse levels) (names : List Name) (ready : Ready fs path pathReversed)
    (bounded : Levels fs path (levels + 1)) (once : names.Nodup)
    (fresh : ∀ name ∈ names, fs.object (name.reverse :: pathReversed) = none) :
    Outcome (∀ name ∈ names, FinishesBelow fs path name)
      (fun result => result.1 = 0 ∧
        Copied env written path pathReversed names fs result.2)
      (readLoop env recurse path pathReversed names fs) := by
  induction names generalizing fs with
  | nil => exact Or.inl ⟨by simp, _, rfl, rfl, Copied.nil fs⟩
  | cons name rest ih =>
      obtain ⟨notInRest, restOnce⟩ := List.nodup_cons.mp once
      rcases loopBody_outcome permits correct ready bounded (fresh name List.mem_cons_self) with
        ⟨finishes, flow, isFlow, between, rfl, first⟩ | ⟨unfinished, overflow⟩
      · obtain ⟨ready', same⟩ := ready.copied first
        have bounded' : Levels between path (levels + 1) := fun rel there =>
          bounded rel (by rwa [same] at there)
        have fresh' : ∀ other ∈ rest, between.object (other.reverse :: pathReversed) = none := by
          intro other member
          have different : other ∉ [name] := by
            rw [List.mem_singleton]
            intro same
            subst same
            exact notInRest member
          rw [← List.nil_append (other.reverse :: pathReversed), first.kept other different,
            List.nil_append]
          exact fresh other (List.mem_cons_of_mem name member)
        have goesOn : readLoop env recurse path pathReversed (name :: rest) fs =
            readLoop env recurse path pathReversed rest between := by
          rw [readLoop, isFlow, ok_bind]
        have sameBelow : ∀ other, FinishesBelow between path other ↔ FinishesBelow fs path other := by
          intro other
          have sameChild : ∀ rel, between.object (rel ++ other :: path) =
              fs.object (rel ++ other :: path) := fun rel => by simpa using same (rel ++ [other])
          simp only [FinishesBelow, sameChild]
        rw [goesOn, List.forall_mem_cons]
        rcases ih ready' bounded' restOnce fresh' with
          ⟨restFinishes, result, isResult, zero, later⟩ | ⟨restUnfinished, overflow⟩
        · refine Or.inl ⟨⟨finishes, fun other member => ?_⟩, result, isResult, zero, ?_⟩
          · exact (sameBelow other).mp (restFinishes other member)
          · exact first.cons later notInRest ready.apart
        · refine Or.inr ⟨?_, overflow⟩
          intro ⟨_, restFinishes⟩
          exact restUnfinished fun other member => (sameBelow other).mpr (restFinishes other member)
      · refine Or.inr ⟨fun all => unfinished (all name List.mem_cons_self), ?_⟩
        rw [readLoop, overflow]
        rfl

/-- The recursion on the levels of the tree. -/
theorem reverseInside_correct (permits : ∀ call path, env.succeeds call path = true)
    (levels : Nat) : Correct env (reverseInside env levels) levels := by
  induction levels with
  | zero =>
      intro path pathReversed fs bounded ready _
      have there : fs.object ([] ++ path) ≠ none := by
        intro absent
        have source := ready.source
        rw [List.nil_append] at absent
        rw [absent] at source
        cases source
      have impossible := bounded [] there
      cases impossible
  | succ levels ih =>
      intro path pathReversed fs bounded ready fresh
      have opens : fs.opendir env path = some (fs.entries path) := by
        simp [FileSystem.opendir, permits, ready.source]
      have first : ∀ name ∈ fs.entries path, fs.object (name.reverse :: pathReversed) = none :=
        fun name _ => fresh [name.reverse] (by simp)
      rw [reverseInside, opens, finishes_iff fs path ready.source]
      dsimp only
      rcases readLoop_outcome permits ih (fs.entries path) ready bounded
          (fs.nodup path ready.source) first with
        ⟨finishes, result, isResult, zero, copied⟩ | overflow
      · exact Or.inl ⟨finishes, result, isResult, zero, copied.mirrored ready.source fresh⟩
      · exact Or.inr overflow

end AllNames

end OsLabs.Mirror
