import Mathlib.Data.List.Basic

/-!
# Strings in memory from malloc

A block has as many bytes as were asked for, none of them set at first.  A
store outside it is a misuse, and so is to read a string from it that no NUL in
it ends.
-/

set_option autoImplicit false

namespace OsLabs.Blocks

inductive Misuse where
  | outOfBounds
  | unterminated
  deriving DecidableEq

abbrev Block := List (Option UInt8)

/-- What a pointer to a string refers to, up to the NUL. -/
structure CStr where
  bytes : List UInt8
  noNul : 0 ∉ bytes

/-- Nothing is written or read outside the blocks. -/
def Safe {Result : Type} (result : Except Misuse Result) : Prop := ∃ value, result = .ok value

def malloc (size : Nat) : Block := List.replicate size none

def store (block : Block) (index : Nat) (byte : UInt8) : Except Misuse Block :=
  if index < block.length then .ok (block.set index (some byte)) else .error .outOfBounds

/-- Stores from an offset on. -/
def storeAll (block : Block) (offset : Nat) : List UInt8 → Except Misuse Block
  | [] => .ok block
  | byte :: rest => do
      let stored ← store block offset byte
      storeAll stored (offset + 1) rest

/-- The string that a block begins with. -/
def string : Block → Except Misuse (List UInt8)
  | [] | none :: _ => .error .unterminated
  | some byte :: rest =>
      if byte = 0 then .ok []
      else do
        let tail ← string rest
        .ok (byte :: tail)

/-- A block that begins with this string. -/
def holding (str : CStr) (rest : Block) : Block := str.bytes.map some ++ some 0 :: rest

/-- `strncpy`, which writes a NUL only where it has room after the string. -/
def strncpy (dst : Block) (src : CStr) (size : Nat) : Except Misuse Block :=
  storeAll dst 0 (src.bytes.take size ++ List.replicate (size - src.bytes.length) 0)

/-! ## Results -/

section Results

variable {Result Other : Type}

theorem not_safe_error (misuse : Misuse) : ¬ Safe (.error misuse : Except Misuse Result) := by
  intro assumed
  obtain ⟨value, impossible⟩ := assumed
  cases impossible

theorem not_safe_bind {first : Except Misuse Result} {rest : Result → Except Misuse Other}
    (restMisuses : ∀ value, first = .ok value → ¬ Safe (rest value)) : ¬ Safe (first >>= rest) := by
  cases first with
  | error misuse => exact not_safe_error misuse
  | ok value => exact restMisuses value rfl

/-- What every step of a loop that ends preserves. -/
theorem foldlM_invariant {Index : Type} (Inv : Result → Prop)
    {step : Result → Index → Except Misuse Result} (indices : List Index)
    (preserved : ∀ state, ∀ index ∈ indices, ∀ next, Inv state → step state index = .ok next →
      Inv next)
    {state final : Result} (start : Inv state) (ran : indices.foldlM step state = .ok final) :
    Inv final := by
  induction indices generalizing state with
  | nil =>
      cases ran
      exact start
  | cons index rest ih =>
      rw [List.foldlM_cons] at ran
      cases first : step state index with
      | error misuse =>
          rw [first] at ran
          cases ran
      | ok next =>
          rw [first] at ran
          exact ih (fun state other member => preserved state other (List.mem_cons_of_mem index member))
            (preserved state index List.mem_cons_self next start first) ran

end Results

/-! ## Strings -/

theorem string_holding (str : CStr) (rest : Block) : string (holding str rest) = .ok str.bytes := by
  obtain ⟨bytes, noNul⟩ := str
  induction bytes with
  | nil => rfl
  | cons byte tail ih =>
      rw [List.mem_cons, not_or] at noNul
      have tailEnds : string (tail.map some ++ some 0 :: rest) = .ok tail := ih noNul.2
      have notNul : ¬ byte = 0 := fun isNul => noNul.1 isNul.symm
      simp only [holding, List.map_cons, List.cons_append, string, if_neg notNul, tailEnds]
      rfl

/-- A block without a NUL holds no string. -/
theorem string_unterminated {block : Block} (noNul : some 0 ∉ block) :
    string block = .error .unterminated := by
  induction block with
  | nil => rfl
  | cons symbol rest ih =>
      rw [List.mem_cons, not_or] at noNul
      cases symbol with
      | none => rfl
      | some byte =>
          have notNul : ¬ byte = 0 := by
            intro same
            subst same
            exact noNul.1 rfl
          simp only [string, if_neg notNul, ih noNul.2]
          rfl

/-! ## Stores -/

theorem malloc_noNul (size : Nat) : some 0 ∉ malloc size := by
  intro member
  cases List.eq_of_mem_replicate member

theorem malloc_length (size : Nat) : (malloc size).length = size := List.length_replicate

theorem store_ok {block stored : Block} {index : Nat} {byte : UInt8}
    (isStored : store block index byte = .ok stored) : stored = block.set index (some byte) := by
  unfold store at isStored
  split at isStored
  · cases isStored
    rfl
  · cases isStored

theorem store_noNul {block stored : Block} {index : Nat} {byte : UInt8} (noNul : some 0 ∉ block)
    (notNul : byte ≠ 0) (isStored : store block index byte = .ok stored) : some 0 ∉ stored := by
  rw [store_ok isStored]
  intro member
  rcases List.mem_or_eq_of_mem_set member with before | isByte
  · exact noNul before
  · exact notNul (Option.some.inj isByte).symm

theorem store_length {block stored : Block} {index : Nat} {byte : UInt8}
    (isStored : store block index byte = .ok stored) : stored.length = block.length := by
  rw [store_ok isStored, List.length_set]

theorem storeAll_noNul {block stored : Block} {offset : Nat} {bytes : List UInt8}
    (noNul : some 0 ∉ block) (notNul : 0 ∉ bytes)
    (isStored : storeAll block offset bytes = .ok stored) : some 0 ∉ stored := by
  induction bytes generalizing block offset with
  | nil =>
      cases isStored
      exact noNul
  | cons byte rest ih =>
      rw [List.mem_cons, not_or] at notNul
      rw [storeAll] at isStored
      cases first : store block offset byte with
      | error misuse =>
          rw [first] at isStored
          cases isStored
      | ok between =>
          rw [first] at isStored
          exact ih (store_noNul noNul (Ne.symm notNul.1) first) notNul.2 isStored

/-- More bytes than there are from the offset on. -/
theorem storeAll_overruns {block : Block} {offset : Nat} {bytes : List UInt8}
    (inside : offset ≤ block.length) (tooMany : block.length < offset + bytes.length) :
    storeAll block offset bytes = .error .outOfBounds := by
  induction bytes generalizing block offset with
  | nil =>
      rw [List.length_nil] at tooMany
      omega
  | cons byte rest ih =>
      rw [storeAll]
      cases first : store block offset byte with
      | error misuse =>
          unfold store at first
          split at first
          · cases first
          · cases first
            rfl
      | ok stored =>
          have sameLength := store_length first
          have below : offset < block.length := by
            by_contra outside
            rw [store, if_neg outside] at first
            cases first
          rw [List.length_cons] at tooMany
          exact ih (by omega) (by omega)

/-- `strncpy` of as many bytes as the string has ends with no NUL. -/
theorem strncpy_noNul {block stored : Block} {src : CStr} (noNul : some 0 ∉ block)
    (isStored : strncpy block src src.bytes.length = .ok stored) : some 0 ∉ stored := by
  refine storeAll_noNul noNul ?_ isStored
  rw [List.take_length, Nat.sub_self, List.replicate_zero, List.append_nil]
  exact src.noNul

end OsLabs.Blocks
