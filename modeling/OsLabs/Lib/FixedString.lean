import Mathlib.Data.List.GetD
import Mathlib.Data.List.OfFn
import Mathlib.Logic.Function.Basic

/-!
# Strings in arrays of a fixed size

What `strncpy` leaves in an array is a string padded with NULs.  `copyByte` is
one turn of its loop; after some turns the target is a mixture of the source
and of what it held before (`mix`).
-/

set_option autoImplicit false

namespace OsLabs.FixedString

variable {size : Nat}

abbrev Chars (size : Nat) := Fin size → UInt8

/-- There is a NUL, and nothing but NULs behind the first one. -/
structure Padded (value : Chars size) : Prop where
  ends : ∃ index, value index = 0
  zeros : ∀ first later, first ≤ later → value first = 0 → value later = 0

/-- What `strncpy` makes of a string that fits with its NUL. -/
def ofBytes (bytes : List UInt8) : Chars size := fun index => bytes.getD index 0

theorem padded_ofBytes {bytes : List UInt8} (fits : bytes.length < size) (noNul : 0 ∉ bytes) :
    Padded (ofBytes bytes : Chars size) where
  ends := ⟨⟨bytes.length, fits⟩, by simp [ofBytes]⟩
  zeros first later order isNul := by
    unfold ofBytes at isNul ⊢
    by_cases inside : first.val < bytes.length
    · rw [List.getD_eq_getElem _ _ inside] at isNul
      exact absurd (isNul ▸ List.getElem_mem inside) noNul
    · exact List.getD_eq_default _ _ (by omega)

/-! ## Lengths -/

def strlen (value : Chars size) : Nat := (List.ofFn value).findIdx (· == 0)

theorem strlen_eq {value : Chars size} (index : Fin size) (here : value index = 0)
    (before : ∀ earlier, earlier < index → value earlier ≠ 0) : strlen value = index := by
  have inside : index.val < (List.ofFn value).length := by simp
  rw [strlen, List.findIdx_eq inside]
  refine ⟨by simpa using here, ?_⟩
  intro earlier isEarlier
  have fits : earlier < size := by omega
  simpa using before ⟨earlier, fits⟩ isEarlier

/-! ## Copies -/

/-- How many bytes are written, and whether the NUL of the source is reached. -/
structure Copy where
  done : Nat
  ended : Bool
  deriving DecidableEq

def Copy.start : Copy := ⟨0, false⟩

/-- One byte of `strncpy`. -/
def copyByte (source target : Chars size) (index : Fin size) (ended : Bool) : Chars size × Copy :=
  let byte := if ended then 0 else source index
  (Function.update target index byte, ⟨index + 1, ended || byte == 0⟩)

/-- The source up to here, what the target held before from here on. -/
def mix (source before : Chars size) (done : Nat) : Chars size := fun index =>
  if index.val < done then source index else before index

theorem mix_start (source before : Chars size) : mix source before 0 = before := by
  funext index
  exact if_neg (Nat.not_lt_zero _)

theorem mix_all {source before : Chars size} {done : Nat} (all : size ≤ done) :
    mix source before done = source := by
  funext index
  exact if_pos (by omega)

/-- The loop has met the NUL of the source only if it is among the bytes
copied. -/
def Copy.Right (copy : Copy) (source : Chars size) : Prop :=
  copy.ended = true → ∃ index : Fin size, index.val < copy.done ∧ source index = 0

theorem right_start (source : Chars size) : Copy.start.Right source := by
  intro ended
  cases ended

theorem copyByte_mix {source : Chars size} (before : Chars size) {copy : Copy}
    (padded : Padded source) (right : copy.Right source) (more : copy.done < size) :
    (copyByte source (mix source before copy.done) ⟨copy.done, more⟩ copy.ended).1 =
        mix source before (copy.done + 1) ∧
      (copyByte source (mix source before copy.done) ⟨copy.done, more⟩ copy.ended).2.Right
        source := by
  have isByte : (if copy.ended = true then 0 else source ⟨copy.done, more⟩) =
      source ⟨copy.done, more⟩ := by
    split
    · rename_i ended
      obtain ⟨index, earlier, isNul⟩ := right ended
      exact (padded.zeros index _ (Fin.le_def.mpr earlier.le) isNul).symm
    · rfl
  refine ⟨?_, ?_⟩
  · funext index
    simp only [copyByte, isByte]
    by_cases here : index = ⟨copy.done, more⟩
    · rw [here, Function.update_self]
      simp [mix]
    · have notHere : index.val ≠ copy.done := fun same => here (Fin.ext same)
      rw [Function.update_of_ne here]
      simp only [mix]
      by_cases earlier : index.val < copy.done
      · rw [if_pos earlier, if_pos (by omega)]
      · rw [if_neg earlier, if_neg (by omega)]
  · intro ended
    simp only [copyByte, isByte, Bool.or_eq_true, beq_iff_eq] at ended
    rcases ended with earlier | isNul
    · obtain ⟨index, inside, isNul⟩ := right earlier
      exact ⟨index, by simp only [copyByte]; omega, isNul⟩
    · exact ⟨⟨copy.done, more⟩, by simp [copyByte], isNul⟩

end OsLabs.FixedString
