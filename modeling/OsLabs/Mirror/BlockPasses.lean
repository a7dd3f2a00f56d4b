import OsLabs.Mirror.ReverseFile
import Mathlib.Algebra.Group.Int.Defs

/-!
# reverse_file call by call

`reverse_file` of `lab3/part1.c` with every call of its loop: where `fseek` puts
the stream, what `fread` leaves in the buffer, the bytes `fwrite` gets one after
the other.  `reverseFileCalls_eq` says that this is `reverseFile`.  `passes`
holds the `int` arithmetic alone, and `blocksExact_iff` the sizes for which it
is right.
-/

set_option autoImplicit false

namespace OsLabs.Mirror

/-! ## The calls -/

/-- The stream `in`. -/
structure Input where
  bytes : List UInt8
  position : Nat

namespace Input

def seekEnd (input : Input) : Input := { input with position := input.bytes.length }

def ftell (input : Input) : Nat := input.position

/-- `fseek` from SEEK_SET; a negative offset is refused. -/
def seekSet (input : Input) (offset : Int) : Input :=
  if offset < 0 then input else { input with position := offset.toNat }

/-- `fread` of one item of this size, stored from the start of the buffer on. -/
def fread (input : Input) (buffer : List UInt8) (size : Nat) : Input × List UInt8 :=
  let got := (input.bytes.drop input.position).take size
  ({ input with position := input.position + got.length }, got ++ buffer.drop got.length)

end Input

/-- The loop over `i` behind a `fread`, down from here. -/
def writeBackwards (buffer : List UInt8) : Nat → List UInt8 → List UInt8
  | 0, out => out
  | i + 1, out => writeBackwards buffer i (out ++ [buffer.getD i 0])

/-- `32 * count` in `int`. -/
def product (count : Nat) : Int := asInt (32 * count)

/-- The loop over the blocks, from the value of `count` on. -/
def reverseCalls (size : Nat) :
    Nat → Input → List UInt8 → List UInt8 → Except Fault (List UInt8)
  | 0, _, _, out => .ok out
  | count + 1, input, buffer, out =>
      if product count ≠ 32 * count then .error .overflow
      else
        let readSize := if count = size / 32 then size % 32 else 32
        let (input, buffer) := (input.seekSet (product count)).fread buffer readSize
        reverseCalls size count input buffer (writeBackwards buffer readSize out)

/-- `reverse_file` on a file with these bytes and the buffer that `malloc` has
returned. -/
def reverseFileCalls (bytes buffer : List UInt8) : Except Fault (List UInt8) :=
  let input := Input.seekEnd ⟨bytes, 0⟩
  let size := input.ftell
  reverseCalls size (asInt (blockCount size)).toNat input buffer []

/-! ## Values of int -/

theorem asInt_eq_iff (value : Nat) : asInt value = value ↔ value < 2 ^ 31 := by
  constructor
  · intro same
    have below : asInt value < (2 ^ 32 + 1) / 2 := Int.bmod_lt (by omega)
    omega
  · intro small
    exact Int.bmod_eq_of_le (by omega) (by omega)

theorem product_eq_iff (count : Nat) : product count = 32 * count ↔ 32 * count < 2 ^ 31 := by
  have isExact := asInt_eq_iff (32 * count)
  push_cast at isExact
  exact isExact

theorem asInt_toNat_le (value : Nat) : (asInt value).toNat ≤ value := by
  have stored : asInt value ≤ value := by
    unfold asInt
    have reduced := Int.bmod_def (value : Int) (2 ^ 32)
    split at reduced <;> omega
  omega

/-! ## What is written -/

theorem writeBackwards_eq (buffer out : List UInt8) (size : Nat) (inside : size ≤ buffer.length) :
    writeBackwards buffer size out = out ++ (buffer.take size).reverse := by
  induction size generalizing out with
  | zero => simp [writeBackwards]
  | succ i ih =>
      have here : i < buffer.length := inside
      rw [writeBackwards, ih _ (by omega), List.take_succ_eq_append_getElem here,
        List.reverse_append, List.append_assoc, List.getD_eq_getElem?_getD,
        List.getElem?_eq_getElem here]
      rfl

/-- A block that lies in the file comes back from the buffer reversed, whatever
was in the buffer and wherever the stream was. -/
theorem block_written (input : Input) (buffer out : List UInt8) (offset size : Nat)
    (inside : offset + size ≤ input.bytes.length) :
    writeBackwards ((input.seekSet offset).fread buffer size).2 size out =
      out ++ ((input.bytes.drop offset).take size).reverse := by
  have sought : input.seekSet offset = { input with position := offset } := by
    rw [Input.seekSet, if_neg (by omega), Int.toNat_natCast]
  have got : ((input.bytes.drop offset).take size).length = size := by
    rw [List.length_take, List.length_drop]
    omega
  simp only [sought, Input.fread]
  rw [writeBackwards_eq _ _ _ (by rw [List.length_append, got]; omega),
    List.take_append_of_le_length (by omega), List.take_of_length_le (by omega)]

theorem fread_bytes (input : Input) (buffer : List UInt8) (offset : Int) (size : Nat) :
    ((input.seekSet offset).fread buffer size).1.bytes = input.bytes := by
  unfold Input.fread Input.seekSet
  split <;> rfl

theorem reverseCalls_eq (count : Nat) (input : Input) (buffer out : List UInt8)
    (inFile : 32 * count < input.bytes.length + 32) :
    reverseCalls input.bytes.length count input buffer out =
      reverseBlocks input.bytes count out := by
  induction count generalizing input buffer out with
  | zero => rfl
  | succ count ih =>
      rw [reverseCalls, reverseBlocks]
      by_cases fits : 32 * count < 2 ^ 31
      · have isExact := (product_eq_iff count).mpr fits
        have noOverflow : ¬ 2 ^ 31 ≤ 32 * count := by omega
        rw [if_neg (not_not.mpr isExact), if_neg noOverflow, isExact]
        -- the last block ends with the file, the others end in it
        have inside : 32 * count + (if count = input.bytes.length / 32
            then input.bytes.length % 32 else 32) ≤ input.bytes.length := by
          split <;> omega
        generalize (if count = input.bytes.length / 32
          then input.bytes.length % 32 else 32) = readSize at inside ⊢
        have written := block_written input buffer out (32 * count) readSize inside
        have sameBytes := fread_bytes input buffer (32 * count) readSize
        have later := ih ((input.seekSet (32 * count)).fread buffer readSize).1
        rw [sameBytes] at later
        push_cast at written
        dsimp only
        rw [later _ _ (by omega), written]
      · rw [if_pos (fun isExact => fits ((product_eq_iff count).mp isExact)), if_pos (by omega)]

/-- The run of the calls is `reverseFile`, overflows included. -/
theorem reverseFileCalls_eq (bytes buffer : List UInt8) :
    reverseFileCalls bytes buffer = reverseFile bytes := by
  obtain ⟨_, inFile⟩ := blockCount_bounds bytes.length
  have stored := asInt_toNat_le (blockCount bytes.length)
  have inside : 32 * (asInt (blockCount bytes.length)).toNat < bytes.length + 32 := by omega
  exact reverseCalls_eq _ (Input.seekEnd ⟨bytes, 0⟩) buffer [] inside

/-- Files of fewer than 2^31 bytes are written in reverse, whatever the buffer
held. -/
theorem reverseFileCalls_small (bytes buffer : List UInt8) (small : bytes.length < 2 ^ 31) :
    reverseFileCalls bytes buffer = .ok bytes.reverse := by
  rw [reverseFileCalls_eq]
  exact (reverseFile_iff bytes).mpr (by omega)

/-- A file of two blocks, the second one short. -/
theorem reverseFileCalls_shortBlock :
    (List.replicate 32 97 ++ [98, 99] : List UInt8).length < 2 ^ 31 ∧
      reverseFileCalls (List.replicate 32 97 ++ [98, 99]) (List.replicate 32 0) =
        .ok (99 :: 98 :: List.replicate 32 97) :=
  ⟨by decide, reverseFileCalls_small _ _ (by decide)⟩

/-! ## The passes of the loop -/

/-- The block a pass is about, and what it gives to `fseek`. -/
structure Pass where
  block : Nat
  offset : Int
  deriving DecidableEq

/-- The passes from the value of `count` on, the products taken modulo 2^32. -/
def passesFrom : Nat → List Pass
  | 0 => []
  | count + 1 => ⟨count, product count⟩ :: passesFrom count

/-- The passes on a file of this size. -/
def passes (size : Nat) : List Pass := passesFrom (asInt (blockCount size)).toNat

/-- How many blocks of 32 bytes a file of this size has. -/
def blocksOf (size : Nat) : Nat := (size + 31) / 32

/-- The arithmetic of the loop is that of the integers, and no block is left
out. -/
structure BlocksExact (size : Nat) : Prop where
  counted : asInt (blockCount size) = blocksOf size
  offsets : ∀ pass ∈ passes size, pass.offset = 32 * pass.block
  visited : ∀ block < blocksOf size, ⟨block, 32 * block⟩ ∈ passes size

theorem blockCount_eq (size : Nat) : blockCount size = blocksOf size := by
  unfold blockCount blocksOf
  split <;> omega

theorem mem_passesFrom_iff (pass : Pass) (count : Nat) :
    pass ∈ passesFrom count ↔ pass.block < count ∧ pass.offset = product pass.block := by
  induction count with
  | zero => simp [passesFrom]
  | succ count ih =>
      rw [passesFrom, List.mem_cons, ih]
      constructor
      · intro assumed
        rcases assumed with isFirst | ⟨below, isProduct⟩
        · rw [isFirst]
          dsimp only
          exact ⟨Nat.lt_succ_self count, rfl⟩
        · exact ⟨by omega, isProduct⟩
      · intro assumed
        obtain ⟨below, isProduct⟩ := assumed
        by_cases isFirst : pass.block = count
        · left
          obtain ⟨block, offset⟩ := pass
          dsimp only at isFirst isProduct
          rw [isProduct, isFirst]
        · exact Or.inr ⟨by omega, isProduct⟩

/-- The calls run through when every pass has the offset of its block. -/
theorem reverseCalls_ends_iff (size count : Nat) (input : Input) (buffer out : List UInt8) :
    (∃ written, reverseCalls size count input buffer out = .ok written) ↔
      ∀ pass ∈ passesFrom count, pass.offset = 32 * pass.block := by
  induction count generalizing input buffer out with
  | zero => simp [reverseCalls, passesFrom]
  | succ count ih =>
      rw [reverseCalls, passesFrom, List.forall_mem_cons]
      by_cases isExact : product count = 32 * count
      · rw [if_neg (not_not.mpr isExact)]
        dsimp only
        rw [ih]
        exact (and_iff_right isExact).symm
      · rw [if_pos isExact]
        constructor
        · intro ended
          obtain ⟨written, impossible⟩ := ended
          cases impossible
        · intro all
          obtain ⟨first, _⟩ := all
          dsimp only at first
          exact absurd first isExact

/-- The product of block 2^26 does not fit. -/
theorem inexact_of_many {size : Nat} (many : 2 ^ 26 < blocksOf size) : ¬ BlocksExact size := by
  intro isExact
  have member := isExact.visited (2 ^ 26) many
  have isProduct := ((mem_passesFrom_iff _ _).mp member).2
  have fits := (product_eq_iff (2 ^ 26)).mp isProduct.symm
  omega

/-- The block arithmetic is right exactly for the sizes up to 2^31. -/
theorem blocksExact_iff (size : Nat) : BlocksExact size ↔ size ≤ 2 ^ 31 := by
  constructor
  · intro isExact
    by_contra large
    have many : 2 ^ 26 < blocksOf size := by
      unfold blocksOf
      omega
    exact inexact_of_many many isExact
  · intro small
    have blocks : blocksOf size ≤ 2 ^ 26 := by
      unfold blocksOf
      omega
    have counted : asInt (blockCount size) = blocksOf size := by
      rw [blockCount_eq]
      exact (asInt_eq_iff _).mpr (by omega)
    have inRange : ∀ pass : Pass,
        pass ∈ passes size ↔ pass.block < blocksOf size ∧ pass.offset = product pass.block := by
      intro pass
      rw [passes, counted, Int.toNat_natCast, mem_passesFrom_iff]
    refine ⟨counted, ?_, ?_⟩
    · intro pass member
      obtain ⟨below, isProduct⟩ := (inRange pass).mp member
      rw [isProduct]
      exact (product_eq_iff pass.block).mpr (by omega)
    · intro block below
      exact (inRange _).mpr ⟨below, ((product_eq_iff block).mpr (by omega)).symm⟩

/-- One byte more, and the product of the first pass is negative. -/
theorem product_overflows :
    blocksOf (2 ^ 31 + 1) = 2 ^ 26 + 1 ∧ asInt (blockCount (2 ^ 31 + 1)) = 2 ^ 26 + 1 ∧
      product (2 ^ 26) = -2 ^ 31 ∧ ¬ BlocksExact (2 ^ 31 + 1) := by
  have blocks : blocksOf (2 ^ 31 + 1) = 2 ^ 26 + 1 := rfl
  exact ⟨blocks, by decide, by decide, inexact_of_many (by omega)⟩

end OsLabs.Mirror
