import Mathlib.Data.List.GetD
import OsLabs.Lib.Block
import OsLabs.Lib.Transition

/-!
# The strings of the mirror program

`main` and `reverse_inside` of `lab3/part1.c` once more, now with the blocks in
which their strings are kept.  Every block for a joined path is a byte short,
and `name_input` and the reversed names have no NUL: `strings_fit_iff` says
that only runs without strings are safe.
-/

set_option autoImplicit false

namespace OsLabs.Mirror.Strings

open OsLabs.Blocks OsLabs.Transition

inductive FileType where
  | directory
  | regular
  | other
  deriving DecidableEq

/-- What `readdir` delivers. -/
structure Entry where
  name : CStr
  type : FileType

/-- The variables that are set by `malloc`. -/
inductive Variable where
  | nameInput
  | nameReversed
  | fpath
  | fpathReversed
  | fnameReversed
  | localPath
  | localPathReversed
  | lnameReversed

/-- What the calls do: `malloc` for a variable, where a path and a name are
current, and the calls of the file system. -/
structure Environment where
  gives : Variable → List UInt8 → List UInt8 → Bool
  opendir : List UInt8 → Option (List Entry)
  stat : List UInt8 → Option Nat
  mkdir : List UInt8 → Nat → Bool
  fopen : List UInt8 → Bool
  chmod : List UInt8 → Nat → Bool

/-- The loop of `reverse`. -/
def reverse (str : List UInt8) (res : Block) (len : Nat) : Except Misuse Block :=
  (List.range len).foldlM (fun res i => store res (len - i - 1) (str.getD i 0)) res

/-- `sprintf` with `"%s/%s"`. -/
def sprintfJoin (dst first second : Block) : Except Misuse Block := do
  let path ← string first
  let name ← string second
  storeAll dst 0 (path ++ 47 :: name ++ [0])

/-- The body of the loop returns a code, goes on, or has no level left. -/
inductive Flow where
  | returned (code : Nat)
  | goesOn
  | tooDeep

variable (env : Environment)

def mallocFor (var : Variable) (path name : List UInt8) (size : Nat) : Option Block :=
  if env.gives var path name then some (malloc size) else none

/-- The calls of `malloc` in a branch: for the two joined paths and the reversed
name. -/
def mallocThree (vars : Variable × Variable × Variable) (path name : List UInt8)
    (size sizeReversed sizeName : Nat) : Option (Block × Block × Block) := do
  let joined ← mallocFor env vars.1 path name size
  let joinedReversed ← mallocFor env vars.2.1 path name sizeReversed
  let nameReversed ← mallocFor env vars.2.2 path name sizeName
  some (joined, joinedReversed, nameReversed)

/-- The branch for `DT_DIR`. -/
def copyDirectory (recurse : Block → Block → Except Misuse (Option Nat))
    (path pathReversed : Block) (entryName : CStr) : Except Misuse Flow := do
  let pathBytes ← string path
  let reversedBytes ← string pathReversed
  let name := entryName.bytes
  match mallocThree env (.fpath, .fpathReversed, .fnameReversed) pathBytes name
      (pathBytes.length + name.length + 1) (reversedBytes.length + name.length + 1)
      (name.length + 1) with
  | none => .ok (.returned 1)
  | some (fpath, fpathReversed, fnameReversed) => do
      let fpath ← sprintfJoin fpath path (holding entryName [])
      let fnameReversed ← reverse name fnameReversed name.length
      let fpathReversed ← sprintfJoin fpathReversed pathReversed fnameReversed
      let source ← string fpath
      match env.stat source with
      | none => .ok (.returned 1)
      | some dirMode => do
          let target ← string fpathReversed
          if !env.mkdir target dirMode then .ok (.returned 1)
          else
            match ← recurse fpath fpathReversed with
            | some _ => .ok .goesOn
            | none => .ok .tooDeep

/-- The branch for `DT_REG`; `printstr` and `printf` read the two paths. -/
def copyFile (path pathReversed : Block) (entryName : CStr) : Except Misuse Flow := do
  let pathBytes ← string path
  let reversedBytes ← string pathReversed
  let name := entryName.bytes
  match mallocThree env (.localPath, .localPathReversed, .lnameReversed) pathBytes name
      (pathBytes.length + name.length + 1) (reversedBytes.length + name.length + 1)
      (1 + name.length) with
  | none => .ok (.returned 1)
  | some (localPath, localPathReversed, lnameReversed) => do
      let lnameReversed ← reverse name lnameReversed name.length
      let localPath ← sprintfJoin localPath path (holding entryName [])
      let localPathReversed ← sprintfJoin localPathReversed pathReversed lnameReversed
      let source ← string localPath
      let target ← string localPathReversed
      if !env.fopen source || !env.fopen target then .ok (.returned 1)
      else
        match env.stat source with
        | none => .ok (.returned 1)
        | some fileMode =>
            if !env.chmod target fileMode then .ok (.returned 1) else .ok .goesOn

def loopBody (recurse : Block → Block → Except Misuse (Option Nat)) (path pathReversed : Block)
    (entry : Entry) : Except Misuse Flow :=
  if entry.name.bytes.head? = some 46 then .ok .goesOn
  else
    match entry.type with
    | .directory => copyDirectory env recurse path pathReversed entry.name
    | .regular => copyFile env path pathReversed entry.name
    | .other => .ok .goesOn

def readLoop (recurse : Block → Block → Except Misuse (Option Nat)) (path pathReversed : Block) :
    List Entry → Except Misuse (Option Nat)
  | [] => .ok (some 0)
  | entry :: rest => do
      match ← loopBody env recurse path pathReversed entry with
      | .returned code => .ok (some code)
      | .goesOn => readLoop recurse path pathReversed rest
      | .tooDeep => .ok none

/-- At most so many levels of directories; no code when there are more. -/
def reverseInside : Nat → Block → Block → Except Misuse (Option Nat)
  | 0, _, _ => .ok none
  | levels + 1, path, pathReversed => do
      let pathBytes ← string path
      match env.opendir pathBytes with
      | none => .ok (some 1)
      | some entries => readLoop env (reverseInside levels) path pathReversed entries

/-- `argv[1]`, or no argument.  The `malloc` for `name_input` is not tested: at
a null pointer no byte may be written or read. -/
def main (levels : Nat) : Option CStr → Except Misuse (Option Nat)
  | none => .ok (some 0)
  | some arg => do
      let size := arg.bytes.length
      let nameInput := (mallocFor env .nameInput [] arg.bytes size).getD []
      let nameInput ← strncpy nameInput arg size
      let input ← string nameInput
      match mallocFor env .nameReversed [] arg.bytes input.length with
      | none => .ok (some 1)
      | some nameReversed => do
          let nameReversed ← reverse input nameReversed input.length
          match env.stat input with
          | none => .ok (some 1)
          | some dirMode => do
              let target ← string nameReversed
              if !env.mkdir target dirMode then .ok (some 1)
              else
                match ← reverseInside env levels nameInput nameReversed with
                | none => .ok none
                | some code => .ok (some (if code = 1 then 1 else 0))

/-! ## Buffers -/

/-- A reversed name has no NUL, whatever the size of its block. -/
theorem reverse_noNul (name : CStr) {res reversed : Block} (noNul : some 0 ∉ res)
    (isReversed : reverse name.bytes res name.bytes.length = .ok reversed) :
    some 0 ∉ reversed := by
  refine foldlM_invariant (fun block => some 0 ∉ block) (List.range name.bytes.length) ?_ noNul
    isReversed
  intro block i member next noNul stored
  have inName : i < name.bytes.length := List.mem_range.mp member
  have notNul : name.bytes.getD i 0 ≠ 0 := by
    rw [List.getD_eq_getElem _ _ inName]
    intro isNul
    exact name.noNul (isNul ▸ List.getElem_mem inName)
  exact store_noNul noNul notNul stored

theorem reversed_unterminated (name : CStr) (size : Nat) :
    ¬ Safe (reverse name.bytes (malloc size) name.bytes.length >>= string) := by
  apply not_safe_bind
  intro reversed isReversed
  rw [string_unterminated (reverse_noNul name (malloc_noNul size) isReversed)]
  exact not_safe_error _

/-- The block for a joined path has no room for the slash and the NUL both. -/
theorem join_overruns (path name : CStr) (behind : Block) :
    sprintfJoin (malloc (path.bytes.length + name.bytes.length + 1)) (holding path behind)
      (holding name []) = .error .outOfBounds := by
  have tooMany : (malloc (path.bytes.length + name.bytes.length + 1)).length <
      0 + (path.bytes ++ 47 :: name.bytes ++ [0]).length := by
    simp only [malloc_length, List.length_append, List.length_cons, List.length_nil]
    omega
  unfold sprintfJoin
  rw [string_holding, string_holding]
  exact storeAll_overruns (Nat.zero_le _) tooMany

/-! ## Names -/

/-- A name that is joined to the two paths. -/
def Wanted (entry : Entry) : Prop :=
  entry.name.bytes.head? ≠ some 46 ∧ (entry.type = .directory ∨ entry.type = .regular)

def GivesThree (vars : Variable × Variable × Variable) (path name : List UInt8) : Prop :=
  env.gives vars.1 path name = true ∧ env.gives vars.2.1 path name = true ∧
    env.gives vars.2.2 path name = true

/-- `malloc` gives the three blocks for a name. -/
def Given (path : CStr) (entry : Entry) : Prop :=
  match entry.type with
  | .directory =>
      GivesThree env (.fpath, .fpathReversed, .fnameReversed) path.bytes entry.name.bytes
  | .regular =>
      GivesThree env (.localPath, .localPathReversed, .lnameReversed) path.bytes entry.name.bytes
  | .other => False

/-- The loop comes to a name that is wanted and gets its blocks. -/
def Joins (path : CStr) (entries : List Entry) : Prop :=
  ∃ front entry rest, entries = front ++ entry :: rest ∧ (∀ other ∈ front, ¬ Wanted other) ∧
    Wanted entry ∧ Given env path entry

section Loop

variable {env} {recurse : Block → Block → Except Misuse (Option Nat)}
  {path pathReversed : CStr} (behind behindReversed : Block)

theorem mallocThree_given {vars : Variable × Variable × Variable} {path name : List UInt8}
    (given : GivesThree env vars path name) (size sizeReversed sizeName : Nat) :
    mallocThree env vars path name size sizeReversed sizeName =
      some (malloc size, malloc sizeReversed, malloc sizeName) := by
  obtain ⟨first, second, third⟩ := given
  simp only [mallocThree, mallocFor, first, second, third, if_true, Option.bind_eq_bind,
    Option.bind_some]

theorem mallocThree_refused {vars : Variable × Variable × Variable} {path name : List UInt8}
    (refused : ¬ GivesThree env vars path name) (size sizeReversed sizeName : Nat) :
    mallocThree env vars path name size sizeReversed sizeName = none := by
  by_cases first : env.gives vars.1 path name = true
  · by_cases second : env.gives vars.2.1 path name = true
    · by_cases third : env.gives vars.2.2 path name = true
      · exact absurd ⟨first, second, third⟩ refused
      · simp [mallocThree, mallocFor, third]
    · simp [mallocThree, mallocFor, second]
  · simp [mallocThree, mallocFor, first]

theorem copyDirectory_misuses {name : CStr} (given : Given env path ⟨name, .directory⟩) :
    ¬ Safe (copyDirectory env recurse (holding path behind)
      (holding pathReversed behindReversed) name) := by
  unfold copyDirectory
  rw [string_holding, string_holding, ok_bind, ok_bind]
  dsimp only
  rw [mallocThree_given given]
  dsimp only
  rw [join_overruns]
  exact not_safe_error _

theorem copyFile_misuses {name : CStr} (given : Given env path ⟨name, .regular⟩) :
    ¬ Safe (copyFile env (holding path behind) (holding pathReversed behindReversed) name) := by
  unfold copyFile
  rw [string_holding, string_holding, ok_bind, ok_bind]
  dsimp only
  rw [mallocThree_given given]
  apply not_safe_bind
  intro reversed _
  rw [join_overruns]
  exact not_safe_error _

theorem copyDirectory_refused {name : CStr} (refused : ¬ Given env path ⟨name, .directory⟩) :
    copyDirectory env recurse (holding path behind) (holding pathReversed behindReversed) name =
      .ok (.returned 1) := by
  unfold copyDirectory
  rw [string_holding, string_holding, ok_bind, ok_bind]
  dsimp only
  rw [mallocThree_refused refused]

theorem copyFile_refused {name : CStr} (refused : ¬ Given env path ⟨name, .regular⟩) :
    copyFile env (holding path behind) (holding pathReversed behindReversed) name =
      .ok (.returned 1) := by
  unfold copyFile
  rw [string_holding, string_holding, ok_bind, ok_bind]
  dsimp only
  rw [mallocThree_refused refused]

/-- The three kinds of names. -/
theorem loopBody_cases (env : Environment) (recurse : Block → Block → Except Misuse (Option Nat))
    (path pathReversed : CStr) (behind behindReversed : Block) (entry : Entry) :
    (¬ Wanted entry ∧ loopBody env recurse (holding path behind)
        (holding pathReversed behindReversed) entry = .ok .goesOn) ∨
      (Wanted entry ∧ Given env path entry ∧ ¬ Safe (loopBody env recurse (holding path behind)
        (holding pathReversed behindReversed) entry)) ∨
      (Wanted entry ∧ ¬ Given env path entry ∧ loopBody env recurse (holding path behind)
        (holding pathReversed behindReversed) entry = .ok (.returned 1)) := by
  obtain ⟨name, type⟩ := entry
  by_cases hidden : name.bytes.head? = some 46
  · exact Or.inl ⟨fun wanted => wanted.1 hidden, if_pos hidden⟩
  · rw [loopBody, if_neg hidden]
    cases type with
    | other =>
        refine Or.inl ⟨?_, rfl⟩
        intro assumed
        rcases assumed with ⟨_, isType | isType⟩
        · cases isType
        · cases isType
    | directory =>
        refine Or.inr ?_
        by_cases given : Given env path ⟨name, .directory⟩
        · exact Or.inl ⟨⟨hidden, Or.inl rfl⟩, given, copyDirectory_misuses behind behindReversed given⟩
        · exact Or.inr ⟨⟨hidden, Or.inl rfl⟩, given,
            copyDirectory_refused behind behindReversed given⟩
    | regular =>
        refine Or.inr ?_
        by_cases given : Given env path ⟨name, .regular⟩
        · exact Or.inl ⟨⟨hidden, Or.inr rfl⟩, given, copyFile_misuses behind behindReversed given⟩
        · exact Or.inr ⟨⟨hidden, Or.inr rfl⟩, given, copyFile_refused behind behindReversed given⟩

theorem joins_skip {entry : Entry} {rest : List Entry} (unwanted : ¬ Wanted entry) :
    Joins env path (entry :: rest) ↔ Joins env path rest := by
  constructor
  · intro assumed
    obtain ⟨front, found, back, split, skipped, wanted, given⟩ := assumed
    cases front with
    | nil =>
        obtain ⟨rfl, rfl⟩ := List.cons.inj split
        exact absurd wanted unwanted
    | cons head front =>
        obtain ⟨rfl, rfl⟩ := List.cons.inj split
        exact ⟨front, found, back, rfl, fun other member =>
          skipped other (List.mem_cons_of_mem entry member), wanted, given⟩
  · intro assumed
    obtain ⟨front, found, back, rfl, skipped, wanted, given⟩ := assumed
    refine ⟨entry :: front, found, back, rfl, ?_, wanted, given⟩
    intro other member
    rcases List.mem_cons.mp member with rfl | later
    · exact unwanted
    · exact skipped other later

theorem joins_wanted {entry : Entry} {rest : List Entry} (isWanted : Wanted entry) :
    Joins env path (entry :: rest) ↔ Given env path entry := by
  constructor
  · intro assumed
    obtain ⟨front, found, back, split, skipped, _, given⟩ := assumed
    cases front with
    | nil =>
        obtain ⟨rfl, rfl⟩ := List.cons.inj split
        exact given
    | cons head front =>
        obtain ⟨rfl, rfl⟩ := List.cons.inj split
        exact absurd isWanted (skipped entry List.mem_cons_self)
  · intro given
    exact ⟨[], entry, rest, rfl, by simp, isWanted, given⟩

theorem readLoop_safe_iff (entries : List Entry) :
    Safe (readLoop env recurse (holding path behind) (holding pathReversed behindReversed) entries) ↔
      ¬ Joins env path entries := by
  induction entries with
  | nil =>
      constructor
      · rintro _ ⟨front, entry, rest, split, _⟩
        simp at split
      · intro _
        exact ⟨some 0, rfl⟩
  | cons entry rest ih =>
      rw [readLoop]
      rcases loopBody_cases env recurse path pathReversed behind behindReversed entry with
        ⟨unwanted, goesOn⟩ | ⟨wanted, given, bodyMisuses⟩ | ⟨wanted, refused, returned⟩
      · rw [goesOn, joins_skip unwanted]
        exact ih
      · rw [joins_wanted wanted]
        constructor
        · intro safe
          exact absurd safe (not_safe_bind fun flow isFlow => absurd ⟨flow, isFlow⟩ bodyMisuses)
        · intro notGiven
          exact absurd given notGiven
      · rw [returned, joins_wanted wanted]
        exact ⟨fun _ => refused, fun _ => ⟨some 1, rfl⟩⟩

end Loop

/-! ## The program -/

/-- The copy of the argument has no NUL, so its length is read past the block. -/
theorem main_misuses (levels : Nat) (arg : CStr) : ¬ Safe (main env levels (some arg)) := by
  have unset : some 0 ∉ (mallocFor env .nameInput [] arg.bytes arg.bytes.length).getD [] := by
    unfold mallocFor
    split
    · exact malloc_noNul arg.bytes.length
    · exact List.not_mem_nil
  rw [main]
  apply not_safe_bind
  intro nameInput copied
  rw [string_unterminated (strncpy_noNul unset copied)]
  exact not_safe_error _

/-- The program is safe only without an argument, no reversed name can be read
as a string, and with proper strings `reverse_inside` is safe exactly when it
comes to no name. -/
theorem strings_fit_iff (levels : Nat) :
    (∀ argument, Safe (main env levels argument) ↔ argument = none) ∧
      (∀ name : CStr, ∀ size,
        ¬ Safe (reverse name.bytes (malloc size) name.bytes.length >>= string)) ∧
      ∀ path pathReversed : CStr, ∀ behind behindReversed,
        Safe (reverseInside env (levels + 1) (holding path behind)
            (holding pathReversed behindReversed)) ↔
          ∀ entries, env.opendir path.bytes = some entries → ¬ Joins env path entries := by
  refine ⟨?_, reversed_unterminated, ?_⟩
  · intro argument
    cases argument with
    | none => exact ⟨fun _ => rfl, fun _ => ⟨some 0, rfl⟩⟩
    | some arg =>
        constructor
        · intro safe
          exact absurd safe (main_misuses env levels arg)
        · intro impossible
          cases impossible
  · intro path pathReversed behind behindReversed
    rw [reverseInside, string_holding, ok_bind]
    cases opened : env.opendir path.bytes with
    | none =>
        constructor
        · intro _ entries impossible
          cases impossible
        · intro _
          exact ⟨some 1, rfl⟩
    | some listing =>
        dsimp only
        rw [readLoop_safe_iff]
        constructor
        · rintro nothing entries ⟨⟩
          exact nothing
        · intro nothing
          exact nothing listing rfl

/-- Every call succeeds, and every directory is empty. -/
def emptyDisk : Environment where
  gives _ _ _ := true
  opendir _ := some []
  stat _ := some 0
  mkdir _ _ := true
  fopen _ := true
  chmod _ _ := true

/-- The argument is `a`. -/
theorem argument_unterminated :
    main emptyDisk 1 (some ⟨[97], by decide⟩) = .error .unterminated := rfl

end OsLabs.Mirror.Strings
