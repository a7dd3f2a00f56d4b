import Mathlib.Data.List.Basic
import Mathlib.Data.List.Infix
import Mathlib.Data.List.TakeWhile

/-!
# C strings, substring search and word scanning

A piece of memory is the list of its bytes; memory beyond the list is zero.
The C string at its start runs to the first NUL.  `find` is the search for the
first occurrence of a substring, and `find_initial` decides the search in any
prefix of a text from the search in the whole text.  `scanWord` is the `%ns`
conversion of the scanf family.
-/

set_option autoImplicit false

namespace OsLabs.CString

universe u

abbrev Byte := UInt8

def text (literal : String) : List Byte := literal.toList.map Char.toUInt8

/-! ## Substring search -/

section Search

variable {Symbol : Type u} [DecidableEq Symbol]

/-- Position of the first occurrence of the needle. -/
def find (needle : List Symbol) : List Symbol → Option Nat
  | [] => if needle = [] then some 0 else none
  | symbol :: rest =>
      if needle <+: symbol :: rest then some 0
      else (find needle rest).map (· + 1)

theorem find_eq_some_iff (needle hay : List Symbol) (position : Nat) :
    find needle hay = some position ↔
      position ≤ hay.length ∧ needle <+: hay.drop position ∧
        ∀ earlier < position, ¬ needle <+: hay.drop earlier := by
  induction hay generalizing position with
  | nil =>
      by_cases empty : needle = []
      · subst needle
        cases position <;> simp [find]
      · simp [find, empty]
  | cons symbol rest ih =>
      by_cases here : needle <+: symbol :: rest
      · cases position with
        | zero => simp [find, here]
        | succ position =>
            simp only [find, if_pos here, Option.some.injEq]
            constructor
            · intro impossible
              omega
            · intro assumed
              obtain ⟨_, _, first⟩ := assumed
              exact absurd here (first 0 (by omega))
      · cases position with
        | zero => simp [find, here]
        | succ position =>
            simp only [find, if_neg here, Option.map_eq_some_iff,
              Nat.add_right_cancel_iff, exists_eq_right, ih, List.length_cons,
              List.drop_succ_cons, Nat.add_le_add_iff_right]
            refine and_congr_right fun _ => and_congr_right fun _ => ?_
            constructor
            · intro first earlier before
              cases earlier with
              | zero => exact here
              | succ earlier => exact first earlier (by omega)
            · intro first earlier before
              exact first (earlier + 1) (by omega)

theorem find_eq_none_iff (needle hay : List Symbol) :
    find needle hay = none ↔
      ∀ position ≤ hay.length, ¬ needle <+: hay.drop position := by
  induction hay with
  | nil => simp [find]
  | cons symbol rest ih =>
      by_cases here : needle <+: symbol :: rest
      · simp only [find, if_pos here, reduceCtorEq, false_iff]
        intro absent
        exact absent 0 (Nat.zero_le _) here
      · simp only [find, if_neg here, Option.map_eq_none_iff, ih]
        constructor
        · intro absent position bound
          cases position with
          | zero => exact here
          | succ position => exact absent position (by simpa using bound)
        · intro absent position bound
          exact absent (position + 1) (by simpa using bound)

theorem find_bound (needle hay : List Symbol) (position : Nat)
    (found : find needle hay = some position) :
    position + needle.length ≤ hay.length := by
  obtain ⟨bound, occurs, _⟩ := (find_eq_some_iff needle hay position).mp found
  have fits := occurs.length_le
  rw [List.length_drop] at fits
  omega

omit [DecidableEq Symbol] in
theorem occurs_of_initial (needle : List Symbol) {part whole : List Symbol}
    (initial : part <+: whole) (position : Nat)
    (occurs : needle <+: part.drop position) : needle <+: whole.drop position :=
  occurs.trans (initial.drop position)

omit [DecidableEq Symbol] in
theorem occurs_in_initial (needle : List Symbol) {part whole : List Symbol}
    (initial : part <+: whole) (position : Nat)
    (occurs : needle <+: whole.drop position)
    (inside : position + needle.length ≤ part.length) :
    needle <+: part.drop position := by
  apply List.prefix_of_prefix_length_le occurs (initial.drop position)
  rw [List.length_drop]
  omega

/-- The first occurrence in a text decides the search in each of its prefixes. -/
theorem find_initial (needle : List Symbol) {part whole : List Symbol}
    (initial : part <+: whole) (position : Nat)
    (found : find needle whole = some position) :
    find needle part =
      if position + needle.length ≤ part.length then some position else none := by
  obtain ⟨_, occurs, first⟩ := (find_eq_some_iff needle whole position).mp found
  split
  · rename_i inside
    rw [find_eq_some_iff]
    refine ⟨by omega, occurs_in_initial needle initial position occurs inside, ?_⟩
    intro earlier before occursEarlier
    exact first earlier before (occurs_of_initial needle initial earlier occursEarlier)
  · rename_i outside
    rw [find_eq_none_iff]
    intro candidate bound occursHere
    have inWhole := occurs_of_initial needle initial candidate occursHere
    have notBefore : ¬ candidate < position := fun before => first candidate before inWhole
    have fits := occursHere.length_le
    rw [List.length_drop] at fits
    omega

/-- A first occurrence stays the first one when the text is continued. -/
theorem find_extend (needle : List Symbol) {part whole : List Symbol}
    (initial : part <+: whole) (position : Nat)
    (found : find needle part = some position) : find needle whole = some position := by
  obtain ⟨bound, occurs, first⟩ := (find_eq_some_iff needle part position).mp found
  have fits := find_bound needle part position found
  have longer := initial.length_le
  rw [find_eq_some_iff]
  refine ⟨by omega, occurs_of_initial needle initial position occurs, ?_⟩
  intro earlier before occursEarlier
  exact first earlier before
    (occurs_in_initial needle initial earlier occursEarlier (by omega))

theorem find_of_occurs_first (needle hay : List Symbol) (occurs : needle <+: hay) :
    find needle hay = some 0 := by
  rw [find_eq_some_iff]
  exact ⟨Nat.zero_le _, by simpa using occurs, fun earlier before => by omega⟩

/-- The search succeeds iff the needle is a substring. -/
theorem find_isSome_iff (needle hay : List Symbol) :
    (find needle hay).isSome ↔ needle <:+: hay := by
  rw [Option.isSome_iff_exists]
  constructor
  · intro ⟨position, found⟩
    obtain ⟨_, occurs, _⟩ := (find_eq_some_iff needle hay position).mp found
    exact occurs.isInfix.trans (List.drop_suffix position hay).isInfix
  · intro ⟨before, after, whole⟩
    cases found : find needle hay with
    | some position => exact ⟨position, rfl⟩
    | none =>
        have absent := (find_eq_none_iff needle hay).mp found before.length
        rw [← whole, List.append_assoc, List.drop_left] at absent
        exact absurd (List.prefix_append needle after)
          (absent (by rw [List.length_append]; omega))

theorem find_isNone_iff (needle hay : List Symbol) :
    (find needle hay).isNone ↔ ¬ needle <:+: hay := by
  rw [← find_isSome_iff]
  cases find needle hay <;> simp

/-- A text up to the first occurrence of a separator, all of it when there is none. -/
def upTo (separator whole : List Symbol) : List Symbol :=
  match find separator whole with
  | some position => whole.take position
  | none => whole

theorem upTo_initial (separator whole : List Symbol) :
    upTo separator whole <+: whole := by
  unfold upTo
  split
  · exact List.take_prefix _ _
  · exact List.prefix_refl _

/-- A text that contains the separator starts as every continuation of it does. -/
theorem upTo_extend (separator : List Symbol) {part whole : List Symbol}
    (initial : part <+: whole) (occurs : separator <:+: part) :
    upTo separator whole <+: part := by
  obtain ⟨position, found⟩ :=
    Option.isSome_iff_exists.mp ((find_isSome_iff separator part).mpr occurs)
  rw [upTo, find_extend separator initial position found]
  apply List.prefix_of_prefix_length_le (List.take_prefix position whole) initial
  have within := find_bound separator part position found
  rw [List.length_take]
  omega

end Search

/-! ## Memory and the strings in it -/

/-- The C string at the start of a piece of memory. -/
def cstr (memory : List Byte) : List Byte := memory.takeWhile (· != 0)

def strstr (memory needle : List Byte) : Option Nat := find needle (cstr memory)

/-- The bytes of memory from an offset on. -/
def readAt (memory : List Byte) (offset length : Nat) : List Byte :=
  (memory.drop offset ++ List.replicate length 0).take length

/-- Memory after the bytes were copied to an offset. -/
def writeAt (memory : List Byte) (offset : Nat) (bytes : List Byte) : List Byte :=
  (memory ++ List.replicate (offset - memory.length) 0).take offset ++ bytes ++
    memory.drop (offset + bytes.length)

theorem readAt_length (memory : List Byte) (offset length : Nat) :
    (readAt memory offset length).length = length := by
  simp [readAt]

theorem readAt_inside (memory : List Byte) (offset length : Nat)
    (inside : offset + length ≤ memory.length) :
    readAt memory offset length = (memory.drop offset).take length := by
  rw [readAt, List.take_append_of_le_length]
  rw [List.length_drop]
  omega

theorem readAt_append (front back : List Byte) (offset length : Nat)
    (inside : offset + length ≤ front.length) :
    readAt (front ++ back) offset length = (front.drop offset).take length := by
  rw [readAt_inside _ _ _ (by rw [List.length_append]; omega),
    List.drop_append_of_le_length (by omega),
    List.take_append_of_le_length (by rw [List.length_drop]; omega)]

/-- Copying to the end of the written part of a zeroed array. -/
theorem writeAt_zeroed (front bytes : List Byte) (room : Nat) :
    writeAt (front ++ List.replicate room 0) front.length bytes =
      (front ++ bytes) ++ List.replicate (room - bytes.length) 0 := by
  simp [writeAt, List.drop_append, List.drop_eq_nil_of_le]

theorem cstr_initial (memory : List Byte) : cstr memory <+: memory :=
  List.takeWhile_prefix _

theorem cstr_of_no_nul (memory : List Byte) (clean : 0 ∉ memory) : cstr memory = memory := by
  rw [cstr, List.takeWhile_eq_self_iff]
  intro byte member
  simpa using fun isNul : byte = 0 => clean (isNul ▸ member)

theorem cstr_append_of_no_nul (front back : List Byte) (clean : 0 ∉ front) :
    cstr (front ++ back) = front ++ cstr back := by
  rw [cstr, List.takeWhile_append_of_pos]
  · rfl
  · intro byte member
    simpa using fun isNul : byte = 0 => clean (isNul ▸ member)

theorem cstr_append_of_nul (front back : List Byte) (nul : 0 ∈ front) :
    cstr (front ++ back) = cstr front := by
  induction front with
  | nil => simp at nul
  | cons byte rest ih =>
      by_cases isNul : byte = 0
      · simp [cstr, isNul]
      · have later : 0 ∈ rest := by
          rcases List.mem_cons.mp nul with here | later
          · exact absurd here.symm isNul
          · exact later
        have step := ih later
        simp only [cstr] at step
        simp [cstr, isNul, step]

theorem cstr_append_zeroed (front : List Byte) (room : Nat) :
    cstr (front ++ List.replicate room 0) = cstr front := by
  by_cases nul : 0 ∈ front
  · exact cstr_append_of_nul front _ nul
  · rw [cstr_append_of_no_nul front _ nul, cstr_of_no_nul front nul]
    cases room <;> simp [cstr, List.replicate_succ]

theorem cstr_mono {part whole : List Byte} (initial : part <+: whole) :
    cstr part <+: cstr whole := by
  obtain ⟨rest, rfl⟩ := initial
  by_cases nul : 0 ∈ part
  · rw [cstr_append_of_nul part rest nul]
  · rw [cstr_append_of_no_nul part rest nul, cstr_of_no_nul part nul]
    exact List.prefix_append _ _

theorem cstr_length_lt_of_nul (front back : List Byte) (nul : 0 ∈ front) :
    (cstr (front ++ back)).length < front.length := by
  rw [cstr_append_of_nul front back nul]
  have bounded := (cstr_initial front).length_le
  rcases Nat.lt_or_eq_of_le bounded with shorter | same
  · exact shorter
  · have whole : cstr front = front := (cstr_initial front).eq_of_length same
    rw [← whole] at nul
    have clean := List.mem_takeWhile_imp nul
    simp at clean

/-! ## Scanning words -/

/-- White space of the C locale. -/
def isSpace (byte : Byte) : Bool := byte = 32 || (9 ≤ byte && byte ≤ 13)

/-- The maximal run of non-space bytes after leading white space, and what
follows it. -/
def splitWord (input : List Byte) : List Byte × List Byte :=
  let start := input.dropWhile isSpace
  (start.takeWhile (fun byte => !isSpace byte), start.dropWhile (fun byte => !isSpace byte))

/-- The conversion `%ns`: skips white space, then takes at least one and at most
`width` non-space bytes; an over-long word is left to the next conversion. -/
def scanWord (width : Nat) (input : List Byte) : Option (List Byte × List Byte) :=
  let (word, rest) := splitWord input
  if word = [] then none
  else some (word.take width, word.drop width ++ rest)

theorem splitWord_word_nil_iff (input : List Byte) :
    (splitWord input).1 = [] ↔ input.dropWhile isSpace = [] := by
  cases start : input.dropWhile isSpace with
  | nil => simp [splitWord, start]
  | cons byte rest =>
      have notSpace : isSpace byte = false := by
        have stopped := List.head_dropWhile_not isSpace (l := input) (by rw [start]; simp)
        simpa [start] using stopped
      simp [splitWord, start, notSpace]

theorem splitWord_rest_nil (input : List Byte) (blank : (splitWord input).1 = []) :
    (splitWord input).2 = [] := by
  rw [splitWord_word_nil_iff] at blank
  simp [splitWord, blank]

/-- White space before a word does not matter. -/
theorem splitWord_append_blank (front back : List Byte) (blank : (splitWord front).1 = []) :
    splitWord (front ++ back) = splitWord back := by
  rw [splitWord_word_nil_iff] at blank
  simp [splitWord, List.dropWhile_append, blank]

/-- A word that is followed by white space is not changed by what comes later. -/
theorem splitWord_append_closed (front back : List Byte) (closed : (splitWord front).2 ≠ []) :
    splitWord (front ++ back) = ((splitWord front).1, (splitWord front).2 ++ back) := by
  have started : front.dropWhile isSpace ≠ [] := by
    intro blank
    exact closed (splitWord_rest_nil front ((splitWord_word_nil_iff front).mpr blank))
  simp only [splitWord] at closed ⊢
  rw [List.dropWhile_append, if_neg (by simpa using started)]
  generalize front.dropWhile isSpace = start at closed started ⊢
  have rejoined := List.takeWhile_append_dropWhile (p := fun byte => !isSpace byte) (l := start)
  have unfinished : (start.takeWhile fun byte => !isSpace byte).length ≠ start.length := by
    intro whole
    have lengths := congrArg List.length rejoined
    rw [List.length_append, whole] at lengths
    exact closed (List.eq_nil_of_length_eq_zero (by omega))
  rw [List.takeWhile_append, if_neg unfinished, List.dropWhile_append,
    if_neg (by simpa using closed)]

/-- A word that ends with the input may go on in what comes later. -/
theorem splitWord_append_open (front back : List Byte) (word : (splitWord front).1 ≠ [])
    (opened : (splitWord front).2 = []) :
    splitWord (front ++ back) =
      ((splitWord front).1 ++ back.takeWhile (fun byte => !isSpace byte),
        back.dropWhile (fun byte => !isSpace byte)) := by
  have started : front.dropWhile isSpace ≠ [] := by
    intro blank
    exact word ((splitWord_word_nil_iff front).mpr blank)
  simp only [splitWord] at opened ⊢
  rw [List.dropWhile_append, if_neg (by simpa using started)]
  generalize front.dropWhile isSpace = start at opened started ⊢
  have rejoined := List.takeWhile_append_dropWhile (p := fun byte => !isSpace byte) (l := start)
  rw [opened, List.append_nil] at rejoined
  rw [List.takeWhile_append, if_pos (by rw [rejoined]), List.dropWhile_append,
    if_pos (by simpa using opened), rejoined]

/-- A conversion that stopped before the end of its input, or at its width,
does not depend on what comes later. -/
theorem scanWord_append_ended (width : Nat) (front back word rest : List Byte)
    (scanned : scanWord width front = some (word, rest))
    (ended : rest ≠ [] ∨ word.length = width) :
    scanWord width (front ++ back) = some (word, rest ++ back) := by
  unfold scanWord at scanned ⊢
  dsimp only at scanned ⊢
  split at scanned
  · cases scanned
  · rename_i nonempty
    rw [Option.some.injEq, Prod.mk.injEq] at scanned
    obtain ⟨taken, left⟩ := scanned
    by_cases opened : (splitWord front).2 = []
    · have full : width ≤ (splitWord front).1.length := by
        rw [opened, List.append_nil] at left
        rcases ended with more | wide
        · rw [← left, Ne, List.drop_eq_nil_iff] at more
          omega
        · rw [← taken, List.length_take] at wide
          omega
      rw [splitWord_append_open front back nonempty opened]
      rw [if_neg (by simp [nonempty]), List.take_append_of_le_length full,
        List.drop_append_of_le_length full, List.append_assoc,
        List.takeWhile_append_dropWhile, taken, ← left, opened, List.append_nil]
    · rw [splitWord_append_closed front back opened]
      rw [if_neg nonempty, taken, ← List.append_assoc, left]

theorem scanWord_nothing (width : Nat) : scanWord width [] = none := rfl

/-- What a further letter does to a conversion: it starts the word, it goes on
with the word, or the conversion had ended before. -/
theorem scanWord_letter (width : Nat) (positive : 0 < width) (input : List Byte) (letter : Byte)
    (isLetter : isSpace letter = false) :
    (scanWord width input = none ∧ scanWord width (input ++ [letter]) = some ([letter], [])) ∨
      (∃ word, scanWord width input = some (word, []) ∧
        scanWord width (input ++ [letter]) = some (word ++ [letter], [])) ∨
      ∃ word rest, (rest ≠ [] ∨ word.length = width) ∧
        scanWord width input = some (word, rest) ∧
        scanWord width (input ++ [letter]) = some (word, rest ++ [letter]) := by
  by_cases blank : (splitWord input).1 = []
  · have next : splitWord [letter] = ([letter], []) := by simp [splitWord, isLetter]
    obtain ⟨more, size⟩ : ∃ more, width = more + 1 := ⟨width - 1, by omega⟩
    refine Or.inl ⟨by simp [scanWord, blank], ?_⟩
    rw [scanWord, splitWord_append_blank input [letter] blank, next, size]
    simp
  · have scanned : scanWord width input = some ((splitWord input).1.take width,
        (splitWord input).1.drop width ++ (splitWord input).2) := by simp [scanWord, blank]
    by_cases ended : (splitWord input).1.drop width ++ (splitWord input).2 ≠ [] ∨
        ((splitWord input).1.take width).length = width
    · exact Or.inr (Or.inr ⟨_, _, ended, scanned,
        scanWord_append_ended width input [letter] _ _ scanned ended⟩)
    · obtain ⟨nothing, narrow⟩ := not_or.mp ended
      obtain ⟨short, opened⟩ := List.append_eq_nil_iff.mp (not_not.mp nothing)
      rw [List.length_take] at narrow
      have room : (splitWord input).1.length < width := by
        have fits := List.drop_eq_nil_iff.mp short
        omega
      refine Or.inr (Or.inl ⟨(splitWord input).1, ?_, ?_⟩)
      · rw [scanned, short, opened, List.append_nil, List.take_of_length_le (by omega)]
      · have grown := splitWord_append_open input [letter] blank opened
        simp only [List.takeWhile_cons, List.dropWhile_cons, isLetter, Bool.not_false, if_true,
          List.takeWhile_nil, List.dropWhile_nil] at grown
        have fits : ((splitWord input).1 ++ [letter]).length ≤ width := by
          rw [List.length_append, List.length_singleton]
          omega
        rw [scanWord, grown]
        simp only [List.take_of_length_le fits, List.drop_eq_nil_of_le fits]
        simp

/-! ## Words in buffers -/

/-- A word that `%s` stores in a buffer of this size, with room for its NUL. -/
structure Word (size : Nat) where
  bytes : List Byte
  fits : bytes.length < size

/-- The stored word as `strcmp` and `strlen` see it. -/
def Word.string {size : Nat} (word : Word size) : List Byte := cstr (word.bytes ++ [0])

theorem Word.clean {size : Nat} (word : Word size) : 0 ∉ word.string := by
  intro nul
  simpa using List.mem_takeWhile_imp nul

theorem Word.short {size : Nat} (word : Word size) : word.string.length < size := by
  have initial : word.string <+: word.bytes := by
    rw [Word.string]
    by_cases nul : 0 ∈ word.bytes
    · rw [cstr_append_of_nul _ _ nul]
      exact cstr_initial _
    · rw [cstr_append_of_no_nul _ _ nul]
      simp [cstr]
  exact Nat.lt_of_le_of_lt initial.length_le word.fits

end OsLabs.CString
