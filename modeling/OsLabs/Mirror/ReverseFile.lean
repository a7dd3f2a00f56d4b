import OsLabs.Lib.FileSystem
import Mathlib.Algebra.Group.Nat.Defs
import Mathlib.Data.List.Basic

/-!
# Reversed names and reversed files

`reverse` and `reverse_file` of `lab3/part1.c`.  The file is read in blocks of
32 bytes from the last to the first.  Their number is kept in an `int` and
multiplied by 32 in `int`: `reverseFile_iff` says up to which size this is
enough.
-/

set_option autoImplicit false

namespace OsLabs.Mirror

open OsLabs.Files

/-- What ends a run without a result: an `int` overflow is undefined, and the
model counts the levels of directories. -/
inductive Fault where
  | overflow
  | levels
  deriving DecidableEq

/-- The loop of `reverse`. -/
def reverse (str res : List UInt8) (len : Nat) : List UInt8 :=
  (List.range len).foldl (fun res i => res.set (len - i - 1) (str.getD i 0)) res

/-- The string in a buffer of `malloc` after `reverse`; the byte behind it is
taken as NUL. -/
def nameReversed (name : Name) : Name :=
  (reverse name (List.replicate (name.length + 1) 0) name.length).take name.length

/-- A value stored in an `int`. -/
def asInt (value : Nat) : Int := Int.bmod value (2 ^ 32)

def blockCount (size : Nat) : Nat := if 0 < size % 32 then size / 32 + 1 else size / 32

/-- The loop of `reverse_file`, from the value of `count` on. -/
def reverseBlocks (bytes : List UInt8) : Nat → List UInt8 → Except Fault (List UInt8)
  | 0, out => .ok out
  | count + 1, out =>
      if 2 ^ 31 ≤ 32 * count then .error .overflow
      else
        let readSize := if count = bytes.length / 32 then bytes.length % 32 else 32
        let buffer := (bytes.drop (32 * count)).take readSize
        reverseBlocks bytes count (out ++ buffer.reverse)

/-- What `reverse_file` writes; the loop does not run on a negative `count`. -/
def reverseFile (bytes : List UInt8) : Except Fault (List UInt8) :=
  reverseBlocks bytes (asInt (blockCount bytes.length)).toNat []

/-! ## Names -/

theorem reverse_steps (str res : List UInt8) (room : str.length ≤ res.length) (steps : Nat)
    (within : steps ≤ str.length) :
    (List.range steps).foldl (fun res i => res.set (str.length - i - 1) (str.getD i 0)) res =
      res.take (str.length - steps) ++ (str.take steps).reverse ++ res.drop str.length := by
  induction steps with
  | zero => simp
  | succ steps ih =>
      have left : ∃ left, str.length - steps = left + 1 := ⟨str.length - steps - 1, by omega⟩
      obtain ⟨left, isLeft⟩ := left
      have inside : left < res.length := by omega
      have next : str.length - (steps + 1) = left := by omega
      have symbol : str.getD steps 0 = str[steps] := by
        rw [List.getD_eq_getElem?_getD, List.getElem?_eq_getElem (by omega), Option.getD_some]
      rw [List.range_succ, List.foldl_append, List.foldl_cons, List.foldl_nil, ih (by omega),
        isLeft, next, symbol, List.take_succ_eq_append_getElem inside,
        List.take_succ_eq_append_getElem (by omega : steps < str.length), List.reverse_append]
      have size : (res.take left).length = left := by
        rw [List.length_take]
        omega
      simp only [Nat.add_sub_cancel, List.append_assoc, List.reverse_cons, List.reverse_nil,
        List.nil_append, List.cons_append]
      rw [List.set_append_right _ _ (by omega), size, Nat.sub_self, List.set_cons_zero]

theorem nameReversed_eq (name : Name) : nameReversed name = name.reverse := by
  have steps := reverse_steps name (List.replicate (name.length + 1) 0) (by simp) name.length
    (Nat.le_refl _)
  rw [nameReversed, reverse, steps]
  simp

/-! ## Contents -/

theorem buffer_eq (bytes : List UInt8) (count : Nat) :
    (bytes.drop (32 * count)).take
        (if count = bytes.length / 32 then bytes.length % 32 else 32) =
      (bytes.drop (32 * count)).take 32 := by
  split
  · rename_i isLast
    have left : (bytes.drop (32 * count)).length = bytes.length % 32 := by
      rw [List.length_drop, isLast]
      omega
    rw [List.take_of_length_le (by omega), List.take_of_length_le (by omega)]
  · rfl

/-- As long as the products fit, the blocks are those of the file up to where
`count` starts. -/
theorem reverseBlocks_ok (bytes : List UInt8) (count : Nat) (out : List UInt8)
    (fits : count ≤ 2 ^ 26) :
    reverseBlocks bytes count out = .ok (out ++ (bytes.take (32 * count)).reverse) := by
  induction count generalizing out with
  | zero => simp [reverseBlocks]
  | succ count ih =>
      have product : ¬ 2 ^ 31 ≤ 32 * count := by omega
      have upTo : bytes.take (32 * (count + 1)) =
          bytes.take (32 * count) ++ (bytes.drop (32 * count)).take 32 := by
        rw [Nat.mul_add, Nat.mul_one, List.take_add]
      rw [reverseBlocks, if_neg product]
      dsimp only
      rw [buffer_eq, ih _ (by omega), upTo, List.reverse_append, List.append_assoc]

theorem reverseBlocks_overflow (bytes : List UInt8) (count : Nat) (out : List UInt8)
    (tooMany : 2 ^ 26 < count) : reverseBlocks bytes count out = .error .overflow := by
  obtain ⟨less, rfl⟩ : ∃ less, count = less + 1 := ⟨count - 1, by omega⟩
  have product : 2 ^ 31 ≤ 32 * less := by omega
  rw [reverseBlocks, if_pos product]

/-- `reverse_file` overflows, or writes the blocks it counts in reverse order. -/
theorem reverseFile_cases (bytes : List UInt8) :
    reverseFile bytes = .error .overflow ∨
      ∃ count ≤ 2 ^ 26, count = (asInt (blockCount bytes.length)).toNat ∧
        reverseFile bytes = .ok (bytes.take (32 * count)).reverse := by
  by_cases fits : (asInt (blockCount bytes.length)).toNat ≤ 2 ^ 26
  · refine Or.inr ⟨_, fits, rfl, ?_⟩
    rw [reverseFile, reverseBlocks_ok bytes _ [] fits, List.nil_append]
  · exact Or.inl (reverseBlocks_overflow bytes _ [] (by omega))

theorem blockCount_bounds (size : Nat) :
    size ≤ 32 * blockCount size ∧ 32 * blockCount size < size + 32 := by
  unfold blockCount
  split <;> omega

/-- `reverse_file` reverses exactly the files of at most 2^31 bytes. -/
theorem reverseFile_iff (bytes : List UInt8) :
    reverseFile bytes = .ok bytes.reverse ↔ bytes.length ≤ 2 ^ 31 := by
  obtain ⟨covers, _⟩ := blockCount_bounds bytes.length
  constructor
  · intro reversed
    rcases reverseFile_cases bytes with overflow | ⟨count, fits, _, blocks⟩
    · rw [overflow] at reversed
      cases reversed
    · rw [blocks, Except.ok.injEq, List.reverse_inj] at reversed
      have lengths := congrArg List.length reversed
      rw [List.length_take] at lengths
      omega
  · intro small
    have unchanged : asInt (blockCount bytes.length) = blockCount bytes.length :=
      Int.bmod_eq_of_le (by omega) (by omega)
    rw [reverseFile, unchanged, Int.toNat_natCast, reverseBlocks_ok bytes _ [] (by omega),
      List.take_of_length_le covers, List.nil_append]

end OsLabs.Mirror
