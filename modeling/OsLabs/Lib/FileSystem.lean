import Mathlib.Data.List.Infix
import Mathlib.Data.List.Nodup
import Mathlib.Logic.Function.Basic

/-!
# File systems

A path is the list of its components, the last one first, so that a child is
`name :: path` and what lies below a path has it as a suffix.  A file system
gives the object at every path and, for a directory, the names `readdir`
delivers, in any order and with the two dots among them.  The environment may
let any call fail; apart from this a call succeeds as POSIX says.
-/

set_option autoImplicit false

namespace OsLabs.Files

abbrev Name := List UInt8

abbrev Path := List Name

/-- A mode is the part of `st_mode` that `chmod` can set: permissions, set-ID
bits and the sticky bit.  That `mkdir` may hand down the set-group-ID bit of the
directory it works in is left out: the mode of a new object is a function of the
one that is asked for. -/
inductive Object where
  | directory (mode : Nat)
  | regular (mode : Nat) (bytes : List UInt8)
  | other (mode : Nat)
  deriving DecidableEq

def dot : Name := [46]

def dotDot : Name := [46, 46]

def isDirectory : Option Object → Bool
  | some (.directory _) => true
  | _ => false

/-- Every object lies in a directory, and a directory lists its objects once. -/
structure FileSystem where
  object : Path → Option Object
  entries : Path → List Name
  parent : ∀ name path, object (name :: path) ≠ none → isDirectory (object path) = true
  listed : ∀ name path, isDirectory (object path) = true →
    (name ∈ entries path ↔ name = dot ∨ name = dotDot ∨ object (name :: path) ≠ none)
  nodup : ∀ path, isDirectory (object path) = true → (entries path).Nodup

inductive Call where
  | opendir
  | stat
  | mkdir
  | fopen
  | chmod
  deriving DecidableEq

/-- Which calls may succeed, what the umask leaves of the mode of a new object,
what `chmod` leaves of the mode it is given (it may drop the set-group-ID bit),
and what a write leaves of the mode of its file (an ordinary user's write clears
the set-ID bits). -/
structure Environment where
  succeeds : Call → Path → Bool
  masked : Nat → Nat
  changed : Nat → Nat
  written : Nat → Nat

/-- The mode of a file after a write; nothing is done for no bytes. -/
def Environment.afterWrite (env : Environment) (mode : Nat) (more : List UInt8) : Nat :=
  if more = [] then mode else env.written mode

/-- `chmod` to this mode and a write of these bytes leave the file with the mode. -/
def Environment.Keeps (env : Environment) (mode : Nat) (bytes : List UInt8) : Prop :=
  env.afterWrite (env.changed mode) bytes = mode

theorem Environment.afterWrite_reverse (env : Environment) (mode : Nat) (bytes : List UInt8) :
    env.afterWrite mode bytes.reverse = env.afterWrite mode bytes := by
  simp [afterWrite]

def Object.mode : Object → Nat
  | .directory mode | .regular mode _ | .other mode => mode

def Object.withMode : Object → Nat → Object
  | .directory _, mode => .directory mode
  | .regular _ bytes, mode => .regular mode bytes
  | .other _, mode => .other mode

theorem isDirectory_withMode (object : Object) (mode : Nat) :
    isDirectory (some (object.withMode mode)) = isDirectory (some object) := by
  cases object <;> rfl

namespace FileSystem

/-- The root directory alone. -/
def root (mode : Nat) : FileSystem where
  object path := if path = [] then some (.directory mode) else none
  entries _ := [dot, dotDot]
  parent name path found := absurd rfl found
  listed name path _ := by simp
  nodup _ _ := by decide

/-! ## Changes -/

/-- A new object, listed last in its directory. -/
def create (fs : FileSystem) (name : Name) (path : Path) (object : Object)
    (inside : isDirectory (fs.object path) = true) (absent : fs.object (name :: path) = none)
    (proper : name ≠ dot ∧ name ≠ dotDot) : FileSystem where
  object := Function.update fs.object (name :: path) (some object)
  entries := Function.update (Function.update fs.entries path (fs.entries path ++ [name]))
    (name :: path) [dot, dotDot]
  parent child place found := by
    have older : fs.object (child :: place) ≠ none ∨ place = path := by
      by_cases isNew : child :: place = name :: path
      · exact Or.inr (List.cons.inj isNew).2
      · exact Or.inl (by rwa [Function.update_of_ne isNew] at found)
    have wasDirectory : isDirectory (fs.object place) = true := by
      rcases older with older | rfl
      · exact fs.parent child place older
      · exact inside
    have different : place ≠ name :: path := by
      intro same
      subst same
      rw [absent] at wasDirectory
      cases wasDirectory
    rwa [Function.update_of_ne different]
  listed child place placeIs := by
    have childless : fs.object (child :: name :: path) = none := by
      by_contra found
      have wasDirectory := fs.parent child (name :: path) found
      rw [absent] at wasDirectory
      cases wasDirectory
    by_cases isNew : place = name :: path
    · subst isNew
      have longer : child :: name :: path ≠ name :: path := List.cons_ne_self child _
      rw [Function.update_self, Function.update_of_ne longer, childless]
      simp
    · rw [Function.update_of_ne isNew] at placeIs ⊢
      have before := fs.listed child place placeIs
      by_cases here : place = path
      · subst here
        rw [Function.update_self, List.mem_append, List.mem_singleton, before]
        by_cases same : child = name
        · subst same
          simp
        · rw [Function.update_of_ne (fun joined => same (List.cons.inj joined).1)]
          simp [same]
      · rw [Function.update_of_ne here, before,
          Function.update_of_ne (fun joined => here (List.cons.inj joined).2)]
  nodup place placeIs := by
    by_cases isNew : place = name :: path
    · subst isNew
      rw [Function.update_self]
      decide
    · rw [Function.update_of_ne isNew] at placeIs ⊢
      by_cases here : place = path
      · subst here
        rw [Function.update_self]
        have unlisted : name ∉ fs.entries place := by
          rw [fs.listed name place placeIs, absent]
          simp [proper]
        exact List.nodup_append.mpr ⟨fs.nodup place placeIs, List.nodup_singleton name,
          fun child member other isOther same => by
            rw [List.mem_singleton] at isOther
            exact unlisted (isOther ▸ same ▸ member)⟩
      · rw [Function.update_of_ne here]
        exact fs.nodup place placeIs

/-- Another mode or other bytes of an object. -/
def replace (fs : FileSystem) (path : Path) (old new : Object) (found : fs.object path = some old)
    (same : isDirectory (some new) = isDirectory (some old)) : FileSystem where
  object := Function.update fs.object path (some new)
  entries := fs.entries
  parent child place isThere := by
    have older : fs.object (child :: place) ≠ none := by
      by_cases here : child :: place = path
      · rw [here, found]
        simp
      · rwa [Function.update_of_ne here] at isThere
    have wasDirectory := fs.parent child place older
    by_cases here : place = path
    · rw [here, Function.update_self, same, ← found, ← here]
      exact wasDirectory
    · rwa [Function.update_of_ne here]
  listed child place placeIs := by
    have wasDirectory : isDirectory (fs.object place) = true := by
      by_cases here : place = path
      · rwa [here, Function.update_self, same, ← found, ← here] at placeIs
      · rwa [Function.update_of_ne here] at placeIs
    rw [fs.listed child place wasDirectory]
    by_cases here : child :: place = path
    · rw [here, Function.update_self, found]
      simp
    · rw [Function.update_of_ne here]
  nodup place placeIs := by
    apply fs.nodup place
    by_cases here : place = path
    · rwa [here, Function.update_self, same, ← found, ← here] at placeIs
    · rwa [Function.update_of_ne here] at placeIs

/-- Nothing lies below what is not there. -/
theorem none_below (fs : FileSystem) (rel path : Path)
    (notDirectory : isDirectory (fs.object path) = false) (below : rel ≠ []) : fs.object (rel ++ path) = none := by
  induction rel with
  | nil => exact absurd rfl below
  | cons name rel ih =>
      by_contra found
      have inside := fs.parent name (rel ++ path) found
      cases rel with
      | nil =>
          rw [List.nil_append, notDirectory] at inside
          cases inside
      | cons child rest =>
          rw [ih (by simp)] at inside
          cases inside

theorem absent_below (fs : FileSystem) (rel path : Path) (absent : fs.object path = none) :
    fs.object (rel ++ path) = none := by
  cases rel with
  | nil => exact absent
  | cons name rel =>
      apply fs.none_below _ _ _ (by simp)
      rw [absent]
      rfl

/-! ## Calls -/

variable (env : Environment)

def opendir (fs : FileSystem) (path : Path) : Option (List Name) :=
  if env.succeeds .opendir path && isDirectory (fs.object path) then some (fs.entries path)
  else none

/-- The mode in `st_mode`. -/
def stat (fs : FileSystem) (path : Path) : Option Nat :=
  if env.succeeds .stat path then (fs.object path).map Object.mode else none

def mkdir (fs : FileSystem) : Path → Nat → Option FileSystem
  | [], _ => none
  | name :: path, mode =>
      if allowed : env.succeeds .mkdir (name :: path) = true ∧ isDirectory (fs.object path) = true ∧
          fs.object (name :: path) = none ∧ name ≠ dot ∧ name ≠ dotDot then
        some (fs.create name path (.directory (env.masked mode)) allowed.2.1 allowed.2.2.1
          allowed.2.2.2)
      else none

/-- `fopen` with `"rb"`. -/
def fopenRead (fs : FileSystem) (path : Path) : Bool :=
  env.succeeds .fopen path && (fs.object path).isSome && !isDirectory (fs.object path)

/-- `fopen` with `"wb"`; 438 is `rw-rw-rw-`. -/
def fopenWrite (fs : FileSystem) : Path → Option FileSystem
  | [] => none
  | name :: path =>
      if allowed : env.succeeds .fopen (name :: path) = true ∧ isDirectory (fs.object path) = true ∧
          name ≠ dot ∧ name ≠ dotDot then
        match found : fs.object (name :: path) with
        | none =>
            some (fs.create name path (.regular (env.masked 438) []) allowed.2.1 found allowed.2.2)
        | some (.regular mode bytes) =>
            some (fs.replace (name :: path) (.regular mode bytes)
              (.regular (env.written mode) []) found rfl)
        | some (.directory _) | some (.other _) => none
      else none

def chmod (fs : FileSystem) (path : Path) (mode : Nat) : Option FileSystem :=
  if env.succeeds .chmod path then
    match found : fs.object path with
    | some object =>
        some (fs.replace path object (object.withMode (env.changed mode)) found
          (isDirectory_withMode object _))
    | none => none
  else none

/-- What a stream opened for reading gives. -/
def bytes (fs : FileSystem) (path : Path) : List UInt8 :=
  match fs.object path with
  | some (.regular _ bytes) => bytes
  | _ => []

/-- Bytes written to a stream opened for writing. -/
def write (fs : FileSystem) (path : Path) (more : List UInt8) : FileSystem :=
  match found : fs.object path with
  | some (.regular mode bytes) =>
      fs.replace path (.regular mode bytes) (.regular (env.afterWrite mode more) (bytes ++ more))
        found rfl
  | _ => fs

/-! ## What the calls put -/

/-- The two differ by one object, and by its place in its directory. -/
structure Puts (before after : FileSystem) (name : Name) (path : Path) (object : Object) :
    Prop where
  object : after.object = Function.update before.object (name :: path) (some object)
  entries : ∀ other, other ≠ path → other ≠ name :: path →
    after.entries other = before.entries other

variable {env}

theorem Puts.trans {before between after : FileSystem} {name : Name} {path : Path}
    {first second : Object} (puts : Puts before between name path first)
    (again : Puts between after name path second) : Puts before after name path second where
  object := by rw [again.object, puts.object, Function.update_idem]
  entries other notPath notName :=
    (again.entries other notPath notName).trans (puts.entries other notPath notName)

theorem Puts.found {before after : FileSystem} {name : Name} {path : Path} {object : Object}
    (puts : Puts before after name path object) : after.object (name :: path) = some object := by
  rw [puts.object, Function.update_self]

theorem Puts.others {before after : FileSystem} {name : Name} {path : Path} {object : Object}
    (puts : Puts before after name path object) {other : Path} (different : other ≠ name :: path) :
    after.object other = before.object other := by
  rw [puts.object, Function.update_of_ne different]

theorem create_puts (fs : FileSystem) (name : Name) (path : Path) (object : Object)
    (inside : isDirectory (fs.object path) = true) (absent : fs.object (name :: path) = none)
    (proper : name ≠ dot ∧ name ≠ dotDot) :
    Puts fs (fs.create name path object inside absent proper) name path object where
  object := rfl
  entries other notPath notName := by
    change Function.update _ (name :: path) _ other = _
    rw [Function.update_of_ne notName, Function.update_of_ne notPath]

theorem replace_puts (fs : FileSystem) (name : Name) (path : Path) (old new : Object)
    (found : fs.object (name :: path) = some old)
    (same : isDirectory (some new) = isDirectory (some old)) :
    Puts fs (fs.replace (name :: path) old new found same) name path new where
  object := rfl
  entries _ _ _ := rfl

theorem mkdir_puts {fs : FileSystem} {name : Name} {path : Path} (mode : Nat)
    (may : env.succeeds .mkdir (name :: path) = true)
    (inside : isDirectory (fs.object path) = true) (absent : fs.object (name :: path) = none)
    (proper : name ≠ dot ∧ name ≠ dotDot) :
    ∃ after, fs.mkdir env (name :: path) mode = some after ∧
      Puts fs after name path (.directory (env.masked mode)) := by
  have allowed := And.intro may (And.intro inside (And.intro absent proper))
  exact ⟨_, dif_pos allowed, create_puts fs name path _ inside absent proper⟩

/-- `fopen` creates a file that is not there. -/
theorem fopenWrite_puts {fs : FileSystem} {name : Name} {path : Path}
    (may : env.succeeds .fopen (name :: path) = true)
    (inside : isDirectory (fs.object path) = true) (absent : fs.object (name :: path) = none)
    (proper : name ≠ dot ∧ name ≠ dotDot) :
    ∃ after, fs.fopenWrite env (name :: path) = some after ∧
      Puts fs after name path (.regular (env.masked 438) []) := by
  have allowed := And.intro may (And.intro inside proper)
  rw [fopenWrite, dif_pos allowed]
  split
  · exact ⟨_, rfl, create_puts fs name path _ inside absent proper⟩
  all_goals
    rename_i found
    rw [absent] at found
    cases found

theorem chmod_puts {fs : FileSystem} {name : Name} {path : Path} {object : Object} (mode : Nat)
    (may : env.succeeds .chmod (name :: path) = true)
    (found : fs.object (name :: path) = some object) :
    ∃ after, fs.chmod env (name :: path) mode = some after ∧
      Puts fs after name path (object.withMode (env.changed mode)) := by
  rw [chmod, if_pos may]
  split
  · rename_i other isOther
    rw [found, Option.some.injEq] at isOther
    subst isOther
    exact ⟨_, rfl, replace_puts fs name path _ _ _ _⟩
  · rename_i absent
    rw [found] at absent
    cases absent

theorem write_puts (env : Environment) {fs : FileSystem} {name : Name} {path : Path} {mode : Nat}
    {bytes : List UInt8} (more : List UInt8)
    (found : fs.object (name :: path) = some (.regular mode bytes)) :
    Puts fs (fs.write env (name :: path) more) name path
      (.regular (env.afterWrite mode more) (bytes ++ more)) := by
  unfold write
  split
  · rename_i other otherBytes isOther
    rw [found, Option.some.injEq, Object.regular.injEq] at isOther
    obtain ⟨rfl, rfl⟩ := isOther
    exact replace_puts fs name path _ _ _ _
  · rename_i notRegular
    exact absurd found (notRegular mode bytes)

end FileSystem

end OsLabs.Files
