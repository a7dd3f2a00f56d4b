import OsLabs.Lib.Block
import OsLabs.Lib.CString
import Mathlib.Data.Nat.Bitwise
import Mathlib.Data.List.GetD
import Mathlib.Tactic.SplitIfs

/-!
# Permission strings

`get_str_mode` and `get_mode_from_str` of `lab3/part2.c`, with `file_info` and
`change_mod` that call them.  The printer writes nine letters to their places
and a type in front of them; of the last place it only writes a letter.  The
reader looks at ten symbols wherever they stand, and grants a letter to the
user, the group and the others at once: `getStrMode_getD` and
`getModeFromStr_ok_iff`.
-/

set_option autoImplicit false

namespace OsLabs.FileTool

open OsLabs.Blocks

/-! ## Modes -/

def sIfmt : Nat := 0o170000
def sIfdir : Nat := 0o040000
def sIflnk : Nat := 0o120000

def sIrusr : Nat := 0o400
def sIwusr : Nat := 0o200
def sIxusr : Nat := 0o100
def sIrgrp : Nat := 0o040
def sIwgrp : Nat := 0o020
def sIxgrp : Nat := 0o010
def sIroth : Nat := 0o004
def sIwoth : Nat := 0o002
def sIxoth : Nat := 0o001

def sIsdir (mode : Nat) : Bool := mode &&& sIfmt == sIfdir

def sIslnk (mode : Nat) : Bool := mode &&& sIfmt == sIflnk

/-! ## The printer -/

def dash : UInt8 := '-'.toUInt8
def letterR : UInt8 := 'r'.toUInt8
def letterW : UInt8 := 'w'.toUInt8
def letterX : UInt8 := 'x'.toUInt8
def letterD : UInt8 := 'd'.toUInt8
def letterL : UInt8 := 'l'.toUInt8

/-- One of the nine `if`s over the bits of the mode. -/
def mark (mode bit index : Nat) (letter : UInt8) (str : List UInt8) : List UInt8 :=
  if mode &&& bit ≠ 0 then str.set index letter else str

def getStrMode (mode : Nat) (str : List UInt8) : List UInt8 :=
  let str := (List.range 9).foldl (fun str i => str.set i dash) str
  let str :=
    if sIsdir mode then str.set 0 letterD
    else if sIslnk mode then str.set 0 letterL
    else str
  let str := mark mode sIrusr 1 letterR str
  let str := mark mode sIwusr 2 letterW str
  let str := mark mode sIxusr 3 letterX str
  let str := mark mode sIrgrp 4 letterR str
  let str := mark mode sIwgrp 5 letterW str
  let str := mark mode sIxgrp 6 letterX str
  let str := mark mode sIroth 7 letterR str
  let str := mark mode sIwoth 8 letterW str
  mark mode sIxoth 9 letterX str

/-- What a caller passes as `str`: ten bytes or more, whatever they held. -/
structure Buffer where
  bytes : List UInt8
  room : 10 ≤ bytes.length

/-- The string `file_info` prints: `%s` reads `mode` up to the first NUL, beyond
the ten bytes of the block if there is none in it. -/
def fileInfo (mode : Nat) (str behind : List UInt8) : List UInt8 :=
  CString.cstr (getStrMode mode str ++ behind)

/-! ## The reader -/

/-- The text of the message is `invalid mode symbol` with these two. -/
structure InvalidSymbol where
  index : Nat
  symbol : UInt8
  deriving DecidableEq

/-- The body of the loop; behind the string stands its NUL. -/
def readSymbol (str : List UInt8) (mode i : Nat) : Except InvalidSymbol Nat :=
  let symbol := str.getD i 0
  if symbol = letterR then .ok (mode ||| (sIrusr ||| sIrgrp ||| sIroth))
  else if symbol = letterW then .ok (mode ||| (sIwusr ||| sIwgrp ||| sIwoth))
  else if symbol = letterX then .ok (mode ||| (sIxusr ||| sIxgrp ||| sIxoth))
  else if symbol = dash then .ok mode
  else .error ⟨i, symbol⟩

def getModeFromStr (mode : Nat) (str : List UInt8) : Except InvalidSymbol Nat :=
  (List.range 10).foldlM (readSymbol str) mode

/-- The mode `change_mod` asks `chmod` for, and what it returns. -/
structure Changed where
  requested : Option Nat
  result : Nat
  deriving DecidableEq

def changeMod (chmodOk : Bool) (newMode : List UInt8) : Changed :=
  match getModeFromStr 0 newMode with
  | .error _ => ⟨none, 1⟩
  | .ok mode => ⟨some mode, if chmodOk then 0 else 1⟩

/-! ## Letters and places -/

/-- The letter of a permission bit, and the index of its place. -/
def letter (bit : Nat) : UInt8 :=
  if bit % 3 = 2 then letterR else if bit % 3 = 1 then letterW else letterX

def place (bit : Nat) : Nat := 9 - bit

/-- The symbols the reader knows. -/
def Known (symbol : UInt8) : Prop :=
  symbol = letterR ∨ symbol = letterW ∨ symbol = letterX ∨ symbol = dash

/-- The first ten symbols are known ones. -/
def Readable (str : List UInt8) : Prop := ∀ i < 10, Known (str.getD i 0)

theorem letter_known (bit : Nat) : Known (letter bit) := by
  unfold letter Known
  split
  · simp
  · split <;> simp

/-- A type other than a dash, and the NUL, are unknown. -/
theorem unknown_symbols : ¬ Known letterD ∧ ¬ Known letterL ∧ ¬ Known 0 := by
  unfold Known
  decide

theorem letter_eq_iff (bit other : Nat) : letter bit = letter other ↔ bit % 3 = other % 3 := by
  have distinct : letterR ≠ letterW ∧ letterR ≠ letterX ∧ letterW ≠ letterX := by decide
  obtain ⟨rw, rx, wx⟩ := distinct
  unfold letter
  split_ifs <;> simp [rw, rx, wx, rw.symm, rx.symm, wx.symm] <;> omega

/-- The letter of a bit is that of the bit of the others. -/
theorem letter_kind (bit : Nat) : letter (bit % 3) = letter bit :=
  (letter_eq_iff _ _).mpr (Nat.mod_mod bit 3)

theorem letter_ne_dash (bit : Nat) : letter bit ≠ dash := by
  unfold letter
  split
  · decide
  · split <;> decide

/-- Each of the ten places is the first one or that of a bit. -/
theorem forall_places {P : Nat → Prop} :
    (∀ i < 10, P i) ↔ P 0 ∧ ∀ bit < 9, P (place bit) := by
  constructor
  · intro all
    exact ⟨all 0 (by omega), fun bit small => all (place bit) (by unfold place; omega)⟩
  · intro assumed i inside
    obtain ⟨first, places⟩ := assumed
    by_cases isFirst : i = 0
    · rwa [isFirst]
    · have isPlace := places (9 - i) (by omega)
      have same : place (9 - i) = i := by
        unfold place
        omega
      rwa [same] at isPlace

theorem exists_places {P : Nat → Prop} :
    (∃ i < 10, P i) ↔ P 0 ∨ ∃ bit < 9, P (place bit) := by
  have complement := forall_places (P := fun i => ¬ P i)
  constructor
  · intro found
    by_contra none
    rw [not_or, not_exists] at none
    obtain ⟨i, inside, holds⟩ := found
    exact complement.mpr ⟨none.1, fun bit small isPlace => none.2 bit ⟨small, isPlace⟩⟩ i inside
      holds
  · intro found
    by_contra none
    obtain ⟨first, places⟩ := complement.mp fun i inside holds => none ⟨i, inside, holds⟩
    rcases found with isFirst | found
    · exact first isFirst
    · obtain ⟨bit, small, isPlace⟩ := found
      exact places bit small isPlace

/-- What one symbol adds to the mode. -/
def granted (symbol : UInt8) : Nat :=
  if symbol = letterR then sIrusr ||| (sIrgrp ||| sIroth)
  else if symbol = letterW then sIwusr ||| (sIwgrp ||| sIwoth)
  else if symbol = letterX then sIxusr ||| (sIxgrp ||| sIxoth)
  else 0

/-- The bits of the three classes for one letter. -/
theorem mask_testBit (kind bit : Nat) (small : kind < 3) :
    (2 ^ (kind + 6) ||| (2 ^ (kind + 3) ||| 2 ^ kind)).testBit bit = true ↔
      bit < 9 ∧ bit % 3 = kind := by
  simp only [Nat.testBit_or, Nat.testBit_two_pow, Bool.or_eq_true, decide_eq_true_eq]
  omega

theorem granted_testBit (symbol : UInt8) (bit : Nat) :
    (granted symbol).testBit bit = true ↔ bit < 9 ∧ symbol = letter bit := by
  have isR : letter 2 = letterR := rfl
  have isW : letter 1 = letterW := rfl
  have isX : letter 0 = letterX := rfl
  unfold granted
  split
  · rename_i here
    have mask := mask_testBit 2 bit (by omega)
    rw [here, ← isR, letter_eq_iff]
    exact mask.trans (and_congr_right fun _ => eq_comm)
  · split
    · rename_i here
      have mask := mask_testBit 1 bit (by omega)
      rw [here, ← isW, letter_eq_iff]
      exact mask.trans (and_congr_right fun _ => eq_comm)
    · split
      · rename_i here
        have mask := mask_testBit 0 bit (by omega)
        rw [here, ← isX, letter_eq_iff]
        exact mask.trans (and_congr_right fun _ => eq_comm)
      · rename_i notR notW notX
        have isNone : symbol ≠ letter bit := by
          unfold letter
          split_ifs
          · exact notR
          · exact notW
          · exact notX
        simp [isNone]

/-! ## What the reader accepts -/

theorem readSymbol_ok_iff (str : List UInt8) (mode i next : Nat) :
    readSymbol str mode i = .ok next ↔
      Known (str.getD i 0) ∧ next = mode ||| granted (str.getD i 0) := by
  have distinct : dash ≠ letterR ∧ dash ≠ letterW ∧ dash ≠ letterX := by decide
  unfold readSymbol Known granted
  dsimp only
  generalize str.getD i 0 = symbol
  split_ifs with isR isW isX isDash
  · simp [isR, Nat.or_assoc, eq_comm]
  · simp [isW, Nat.or_assoc, eq_comm]
  · simp [isX, Nat.or_assoc, eq_comm]
  · simp [isDash, eq_comm]
  · simp [isR, isW, isX, isDash]

/-- The symbols of a string gathered into a mode. -/
def gathered (str : List UInt8) (indices : List Nat) (mode : Nat) : Nat :=
  indices.foldl (fun mode i => mode ||| granted (str.getD i 0)) mode

theorem readAll_ok_iff (str : List UInt8) (indices : List Nat) (mode result : Nat) :
    indices.foldlM (readSymbol str) mode = .ok result ↔
      (∀ i ∈ indices, Known (str.getD i 0)) ∧ result = gathered str indices mode := by
  induction indices generalizing mode with
  | nil => simp [gathered, pure, Except.pure, eq_comm]
  | cons i rest ih =>
      rw [List.foldlM_cons, List.forall_mem_cons, gathered, List.foldl_cons]
      cases first : readSymbol str mode i with
      | error invalid =>
          have unknown : ¬ Known (str.getD i 0) := by
            intro known
            rw [(readSymbol_ok_iff str mode i _).mpr ⟨known, rfl⟩] at first
            cases first
          constructor
          · intro impossible
            cases impossible
          · intro assumed
            exact absurd assumed.1.1 unknown
      | ok next =>
          obtain ⟨known, isNext⟩ := (readSymbol_ok_iff str mode i next).mp first
          rw [← isNext, and_iff_right known]
          exact ih next

theorem gathered_testBit (str : List UInt8) (indices : List Nat) (mode bit : Nat) :
    (gathered str indices mode).testBit bit = true ↔
      mode.testBit bit = true ∨ bit < 9 ∧ ∃ i ∈ indices, str.getD i 0 = letter bit := by
  induction indices generalizing mode with
  | nil => simp [gathered]
  | cons i rest ih =>
      have later := ih (mode ||| granted (str.getD i 0))
      rw [gathered, List.foldl_cons, ← gathered, later, Nat.testBit_or, Bool.or_eq_true,
        granted_testBit]
      simp only [List.mem_cons, exists_eq_or_imp]
      tauto

/-- A string is accepted when its first ten symbols are known, and a letter
among them is granted to all three classes. -/
theorem getModeFromStr_ok_iff (str : List UInt8) (mode : Nat) :
    getModeFromStr 0 str = .ok mode ↔
      Readable str ∧ ∀ bit, mode.testBit bit = true ↔
        bit < 9 ∧ ∃ i < 10, str.getD i 0 = letter bit := by
  have bits : ∀ bit, (gathered str (List.range 10) 0).testBit bit = true ↔
      bit < 9 ∧ ∃ i < 10, str.getD i 0 = letter bit := by
    intro bit
    simp [gathered_testBit]
  rw [getModeFromStr, readAll_ok_iff]
  refine and_congr (by simp [Readable]) ?_
  constructor
  · intro isGathered
    rw [isGathered]
    exact bits
  · intro sameBits
    apply Nat.eq_of_testBit_eq
    intro bit
    rw [Bool.eq_iff_iff, sameBits, bits]

theorem accepted_iff (str : List UInt8) :
    (∃ mode, getModeFromStr 0 str = .ok mode) ↔ Readable str := by
  constructor
  · intro accepted
    obtain ⟨mode, read⟩ := accepted
    exact ((getModeFromStr_ok_iff str mode).mp read).1
  · intro readable
    exact ⟨_, (readAll_ok_iff str (List.range 10) 0 _).mpr
      ⟨fun i member => readable i (List.mem_range.mp member), rfl⟩⟩

/-! ## What the printer writes -/

theorem set_getD (str : List UInt8) (index i : Nat) (symbol : UInt8) (inside : index < str.length) :
    (str.set index symbol).getD i 0 = if i = index then symbol else str.getD i 0 := by
  rw [List.getD_eq_getElem?_getD, List.getD_eq_getElem?_getD, List.getElem?_set]
  by_cases here : index = i
  · subst here
    rw [if_pos rfl, if_pos inside, if_pos rfl, Option.getD_some]
  · rw [if_neg here, if_neg (Ne.symm here)]

theorem dashes_getD (str : List UInt8) (count i : Nat) (inside : count ≤ str.length) :
    ((List.range count).foldl (fun str i => str.set i dash) str).length = str.length ∧
      ((List.range count).foldl (fun str i => str.set i dash) str).getD i 0 =
        if i < count then dash else str.getD i 0 := by
  induction count with
  | zero => simp
  | succ count ih =>
      obtain ⟨size, earlier⟩ := ih (by omega)
      rw [List.range_succ, List.foldl_append, List.foldl_cons, List.foldl_nil, List.length_set]
      refine ⟨size, ?_⟩
      rw [set_getD _ _ _ _ (by omega), earlier]
      by_cases here : i = count
      · rw [if_pos here, if_pos (by omega)]
      · rw [if_neg here]
        split_ifs <;> first | rfl | omega

theorem and_bit_iff (mode bit : Nat) : mode &&& 2 ^ bit ≠ 0 ↔ mode.testBit bit = true := by
  rw [Nat.and_two_pow]
  cases mode.testBit bit <;> simp

@[simp] theorem mark_length (mode bit index : Nat) (symbol : UInt8) (str : List UInt8) :
    (mark mode bit index symbol str).length = str.length := by
  unfold mark
  split
  · exact List.length_set
  · rfl

theorem mark_getD (mode bit index i : Nat) (symbol : UInt8) (str : List UInt8)
    (inside : index < str.length) :
    (mark mode (2 ^ bit) index symbol str).getD i 0 =
      if i = index ∧ mode.testBit bit = true then symbol else str.getD i 0 := by
  unfold mark
  by_cases isSet : mode.testBit bit = true
  · rw [if_pos ((and_bit_iff mode bit).mpr isSet), set_getD str index i symbol inside]
    simp [isSet]
  · rw [if_neg fun nonzero => isSet ((and_bit_iff mode bit).mp nonzero)]
    simp [isSet]

/-- The nine `if`s, for the bits of this list. -/
def markAll (mode : Nat) (bits : List Nat) (str : List UInt8) : List UInt8 :=
  bits.foldl (fun str bit => mark mode (2 ^ bit) (place bit) (letter bit) str) str

theorem markAll_getD (mode i : Nat) (bits : List Nat) (str : List UInt8) (room : 10 ≤ str.length)
    (small : ∀ bit ∈ bits, bit < 9) :
    (markAll mode bits str).getD i 0 =
      if 0 < i ∧ 9 - i ∈ bits ∧ i < 10 ∧ mode.testBit (9 - i) = true then letter (9 - i)
      else str.getD i 0 := by
  induction bits generalizing str with
  | nil => simp [markAll]
  | cons bit rest ih =>
      have bitSmall := small bit List.mem_cons_self
      have inside : place bit < str.length := by
        unfold place
        omega
      have later := ih (mark mode (2 ^ bit) (place bit) (letter bit) str)
        (by rwa [mark_length]) fun other member => small other (List.mem_cons_of_mem bit member)
      rw [markAll, List.foldl_cons, ← markAll, later, mark_getD _ _ _ _ _ _ inside]
      by_cases here : i = place bit
      · have isBit : 9 - i = bit := by
          unfold place at here
          omega
        have positive : 0 < i ∧ i < 10 := by
          unfold place at here
          omega
        rw [isBit]
        by_cases isSet : mode.testBit bit = true
        · simp [here.symm, positive, isSet]
        · simp [isSet]
      · have notBit : 0 < i ∧ i < 10 → 9 - i ≠ bit := by
          unfold place at here
          omega
        have sameMember : (0 < i ∧ 9 - i ∈ rest ∧ i < 10 ∧ mode.testBit (9 - i) = true) ↔
            (0 < i ∧ 9 - i ∈ bit :: rest ∧ i < 10 ∧ mode.testBit (9 - i) = true) := by
          rw [List.mem_cons]
          tauto
        simp only [here, false_and, if_false, sameMember]

theorem markAll_length (mode : Nat) (bits : List Nat) (str : List UInt8) :
    (markAll mode bits str).length = str.length := by
  induction bits generalizing str with
  | nil => rfl
  | cons bit rest ih =>
      rw [markAll, List.foldl_cons, ← markAll, ih, mark_length]

def typeSymbol (mode : Nat) : UInt8 :=
  if sIsdir mode then letterD else if sIslnk mode then letterL else dash

/-- The `if`s over the type of the file. -/
def markType (mode : Nat) (str : List UInt8) : List UInt8 :=
  if sIsdir mode then str.set 0 letterD else if sIslnk mode then str.set 0 letterL else str

theorem markType_length (mode : Nat) (str : List UInt8) :
    (markType mode str).length = str.length := by
  unfold markType
  split_ifs
  · exact List.length_set
  · exact List.length_set
  · rfl

theorem markType_getD (mode i : Nat) (str : List UInt8) (inside : 0 < str.length)
    (plain : str.getD 0 0 = dash) :
    (markType mode str).getD i 0 = if i = 0 then typeSymbol mode else str.getD i 0 := by
  unfold markType typeSymbol
  split_ifs with isDir isFirst isLink isFirst isFirst
  · rw [set_getD _ _ _ _ inside, if_pos isFirst]
  · rw [set_getD _ _ _ _ inside, if_neg isFirst]
  · rw [set_getD _ _ _ _ inside, if_pos isFirst]
  · rw [set_getD _ _ _ _ inside, if_neg isFirst]
  · rw [isFirst, plain]
  · rfl

theorem getStrMode_eq (mode : Nat) (str : List UInt8) :
    getStrMode mode str = markAll mode [8, 7, 6, 5, 4, 3, 2, 1, 0]
      (markType mode ((List.range 9).foldl (fun str i => str.set i dash) str)) := rfl

/-- The type and eight of the places are written; the last place keeps what it
held when others may not execute. -/
theorem getStrMode_getD (mode i : Nat) (buffer : Buffer) (inside : i < 10) :
    (getStrMode mode buffer.bytes).getD i 0 =
      if i = 0 then typeSymbol mode
      else if mode.testBit (9 - i) = true then letter (9 - i)
      else if i = 9 then buffer.bytes.getD 9 0
      else dash := by
  have room := buffer.room
  obtain ⟨size, dashes⟩ := dashes_getD buffer.bytes 9 i (by omega)
  obtain ⟨_, first⟩ := dashes_getD buffer.bytes 9 0 (by omega)
  rw [getStrMode_eq, markAll_getD _ _ _ _ (by rw [markType_length]; omega) (by decide),
    markType_getD _ _ _ (by omega) first, dashes]
  have isPlace : 0 < i → 9 - i ∈ [8, 7, 6, 5, 4, 3, 2, 1, 0] := by
    intro positive
    simp only [List.mem_cons, List.not_mem_nil]
    omega
  by_cases isFirst : i = 0
  · rw [if_neg (by omega), if_pos isFirst, if_pos isFirst]
  · rw [if_neg isFirst, if_neg isFirst]
    by_cases isSet : mode.testBit (9 - i) = true
    · rw [if_pos ⟨by omega, isPlace (by omega), inside, isSet⟩, if_pos isSet]
    · rw [if_neg fun assumed => isSet assumed.2.2.2, if_neg isSet]
      by_cases isLast : i = 9
      · rw [if_neg (by omega), if_pos isLast, isLast]
      · rw [if_pos (by omega), if_neg isLast]

/-- A place: its own letter, or a dash, or what was there before. -/
theorem getStrMode_place (mode bit : Nat) (buffer : Buffer) (small : bit < 9) :
    (getStrMode mode buffer.bytes).getD (place bit) 0 =
      if mode.testBit bit = true then letter bit
      else if bit = 0 then buffer.bytes.getD 9 0
      else dash := by
  have back : 9 - place bit = bit := by
    unfold place
    omega
  have notFirst : place bit ≠ 0 := by
    unfold place
    omega
  have last : place bit = 9 ↔ bit = 0 := by
    unfold place
    omega
  rw [getStrMode_getD mode (place bit) buffer (by unfold place; omega), if_neg notFirst, back]
  simp only [last]

theorem getStrMode_first (mode : Nat) (buffer : Buffer) :
    (getStrMode mode buffer.bytes).getD 0 0 = typeSymbol mode := by
  rw [getStrMode_getD mode 0 buffer (by omega), if_pos rfl]

theorem getStrMode_length (mode : Nat) (buffer : Buffer) :
    (getStrMode mode buffer.bytes).length = buffer.bytes.length := by
  have room := buffer.room
  rw [getStrMode_eq, markAll_length, markType_length,
    (dashes_getD buffer.bytes 9 0 (by omega)).1]

end OsLabs.FileTool
