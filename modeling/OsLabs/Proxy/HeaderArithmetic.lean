import OsLabs.Lib.Transition
import OsLabs.Proxy.StaleBuffers

/-!
# Lengths in the receive loop

The `size_t` values of `downloadData`'s loop alone, with what `recv` returns and
what the header search finds left open: a terminator may be found in any pass,
behind any part of the header.  `loopBody_simulated` says that the loop on bytes
is one of these runs, `header_arithmetic_exact` that nothing wraps in any of
them.
-/

set_option autoImplicit false

namespace OsLabs.Proxy

open OsLabs.CString OsLabs.Transition

/-! ## The values of a pass -/

/-- A `ssize_t` where a `size_t` is computed with. -/
def asSize (value : Int) : Nat := (value % sizeCount).toNat

/-- `sizeof(headerBuffer) - headerLength - 1` -/
def headerRoom (headerLength : Nat) : Nat := sizeSub (sizeSub bufferSize headerLength) 1

/-- `dataOffset` -/
def dataOffset (headerLength : Nat) (bytesReceived : Int) : Nat :=
  sizeSub (asSize bytesReceived) (copyLength headerLength (asSize bytesReceived))

/-- What the search comes to: whether there is a terminator, and whether one of
the accepted status lines is found as well. -/
inductive Search where
  | notFound
  | found (accepted : Bool)
  deriving DecidableEq

/-- A positive result of `recv`, and the outcome of the search in its pass. -/
structure Arrival where
  bytesReceived : Int
  search : Search
  positive : 1 ≤ bytesReceived
  bounded : bytesReceived ≤ bufferSize

structure HeaderState where
  headerLength : Nat
  isChecked : Bool
  left : Bool

/-- A pass of the loop; after a `break` there is none. -/
def HeaderState.pass (state : HeaderState) (arrival : Arrival) : Option HeaderState :=
  if state.left then none
  else if state.isChecked then some state
  else
    let copied := copyLength state.headerLength (asSize arrival.bytesReceived)
    let headerLength := (state.headerLength + copied) % sizeCount
    match arrival.search with
    | .found true => some ⟨headerLength, false, false⟩
    | .found false => some ⟨headerLength, false, true⟩
    | .notFound =>
        if bufferSize - 1 ≤ headerLength then some ⟨headerLength, false, true⟩
        else some ⟨headerLength, true, false⟩

def headerLoop : System HeaderState Arrival where
  init := ⟨0, false, false⟩
  step := HeaderState.pass

/-- The room has its value in the integers, `memcpy` stays inside `headerBuffer`
and inside the received part of `buffer`, and so does what is behind it. -/
structure PassExact (headerLength : Nat) (bytesReceived : Int) : Prop where
  room : (headerRoom headerLength : Int) = (bufferSize : Int) - headerLength - 1
  inHeader : headerLength + copyLength headerLength (asSize bytesReceived) ≤ bufferSize - 1
  inReceived : (copyLength headerLength (asSize bytesReceived) : Int) ≤ bytesReceived
  offset : (dataOffset headerLength bytesReceived : Int) =
    bytesReceived - copyLength headerLength (asSize bytesReceived)
  behind : (copyLength headerLength (asSize bytesReceived) : Int) +
    dataOffset headerLength bytesReceived ≤ bytesReceived

theorem bufferSize_lt : bufferSize < sizeCount := by
  unfold bufferSize sizeCount
  omega

theorem bufferSize_pos : 0 < bufferSize := by
  unfold bufferSize
  omega

theorem asSize_of_received (arrival : Arrival) :
    (asSize arrival.bytesReceived : Int) = arrival.bytesReceived := by
  have positive := arrival.positive
  have bounded := arrival.bounded
  have small := bufferSize_lt
  rw [asSize, Int.emod_eq_of_lt (by omega) (by omega)]
  omega

theorem headerRoom_eq {headerLength : Nat} (fits : headerLength ≤ bufferSize - 1) :
    headerRoom headerLength = bufferSize - headerLength - 1 := by
  have positive := bufferSize_pos
  rw [headerRoom, sizeSub_of_le (by omega) (Nat.le_refl _), sizeSub_of_le (by omega) (by omega)]

theorem copyLength_le_room (headerLength bytesReceived : Nat) :
    copyLength headerLength bytesReceived ≤ headerRoom headerLength := by
  simp only [copyLength, headerRoom]
  split <;> omega

/-- While the header fits, the values of a pass are exact. -/
theorem passExact_of_fits {headerLength : Nat} (fits : headerLength ≤ bufferSize - 1)
    (arrival : Arrival) : PassExact headerLength arrival.bytesReceived := by
  have positive := bufferSize_pos
  have received := asSize_of_received arrival
  have bounded := arrival.bounded
  have room := headerRoom_eq fits
  have inRoom := copyLength_le_room headerLength (asSize arrival.bytesReceived)
  have inChunk := copyLength_le headerLength (asSize arrival.bytesReceived)
  have offset : dataOffset headerLength arrival.bytesReceived =
      asSize arrival.bytesReceived - copyLength headerLength (asSize arrival.bytesReceived) :=
    sizeSub_of_le inChunk (by omega)
  exact ⟨by omega, by omega, by omega, by omega, by omega⟩

/-- The sum kept in `headerLength` does not wrap. -/
theorem sum_of_fits {headerLength : Nat} (fits : headerLength ≤ bufferSize - 1)
    (arrival : Arrival) :
    (headerLength + copyLength headerLength (asSize arrival.bytesReceived)) % sizeCount =
      headerLength + copyLength headerLength (asSize arrival.bytesReceived) := by
  have inHeader := (passExact_of_fits fits arrival).inHeader
  have small := bufferSize_lt
  exact Nat.mod_eq_of_lt (by omega)

/-! ## Runs -/

/-- The header always leaves room for the NUL. -/
def HeaderState.Fits (state : HeaderState) : Prop := state.headerLength ≤ bufferSize - 1

/-- A pass leaves the header as it is, or copies to it and keeps the exact sum. -/
theorem pass_cases {state next : HeaderState} {arrival : Arrival} (fits : state.Fits)
    (passed : state.pass arrival = some next) :
    next = state ∨ state.isChecked = false ∧ next.headerLength =
      state.headerLength + copyLength state.headerLength (asSize arrival.bytesReceived) := by
  have exactSum := sum_of_fits fits arrival
  unfold HeaderState.pass at passed
  split_ifs at passed with left checked
  · exact Or.inl (Option.some.inj passed).symm
  · dsimp only at passed
    rw [exactSum] at passed
    refine Or.inr ⟨by simpa using checked, ?_⟩
    cases outcome : arrival.search with
    | found accepted =>
        cases accepted <;> rw [outcome, Option.some.injEq] at passed <;> rw [← passed]
    | notFound =>
        rw [outcome] at passed
        dsimp only at passed
        split_ifs at passed
        · rw [← Option.some.inj passed]
        · rw [← Option.some.inj passed]

theorem pass_fits (state : HeaderState) (arrival : Arrival) (next : HeaderState)
    (fits : state.Fits) (passed : state.pass arrival = some next) : next.Fits := by
  rcases pass_cases fits passed with same | copied
  · rw [same]
    exact fits
  · rw [HeaderState.Fits, copied.2]
    exact (passExact_of_fits fits arrival).inHeader

/-- For all sizes that `recv` returns and all outcomes of the search, the header
fits throughout the loop and the values of every pass are exact. -/
theorem header_arithmetic_exact (arrivals : List Arrival) :
    headerLoop.Always (fun state => state.headerLength ≤ bufferSize - 1) headerLoop.init
        arrivals ∧
      headerLoop.Meets
        (fun state arrival => state.isChecked = false →
          PassExact state.headerLength arrival.bytesReceived)
        headerLoop.init arrivals := by
  have started : headerLoop.init.Fits := Nat.zero_le _
  constructor
  · exact System.always_of_invariant HeaderState.Fits started pass_fits (fun _ fits => fits)
      arrivals
  · apply System.meets_of_invariant _ HeaderState.Fits pass_fits _ headerLoop.init arrivals started
    intro state arrival fits _
    exact passExact_of_fits fits arrival

/-! ## The loop on bytes -/

/-- What the search comes to in a pass over these bytes. -/
def searchOf (state : LoopState) (buffer : List Byte) : Search :=
  match headerSearch state buffer with
  | none => .notFound
  | some _ => .found (loopBranch state buffer != .notOkStatus)

def arrivalOf (state : LoopState) (chunk : Chunk) : Arrival where
  bytesReceived := chunk.bytes.length
  search := searchOf state chunk.bytes
  positive := by
    have nonempty := List.length_pos_of_ne_nil chunk.nonempty
    omega
  bounded := Int.ofNat_le.mpr chunk.bounded

def LoopState.lengths (state : LoopState) (left : Bool) : HeaderState :=
  ⟨state.headerLength, state.isChecked, left⟩

theorem asSize_arrivalOf (state : LoopState) (chunk : Chunk) :
    asSize (arrivalOf state chunk).bytesReceived = chunk.bytes.length :=
  Int.ofNat_inj.mp (asSize_of_received (arrivalOf state chunk))

/-- A pass over bytes is a pass over their lengths. -/
theorem loopBody_simulated (state : LoopState) (chunk : Chunk)
    (fits : state.headerLength ≤ bufferSize - 1) :
    (state.lengths false).pass (arrivalOf state chunk) =
      some ((loopBody state chunk.bytes).state.lengths (loopBody state chunk.bytes).leaves) := by
  have exactSum := sum_of_fits fits (arrivalOf state chunk)
  rw [asSize_arrivalOf] at exactSum
  unfold HeaderState.pass
  rw [asSize_arrivalOf]
  cases checked : state.isChecked with
  | true => simp [LoopState.lengths, loopBody, checked]
  | false =>
      simp only [LoopState.lengths, loopBody, arrivalOf, searchOf, headerSearch, loopBranch, checked,
        Bool.false_eq_true, if_false, exactSum]
      generalize strstr (writeAt state.headerBuffer state.headerLength
        (chunk.bytes.take (copyLength state.headerLength chunk.bytes.length))) headerTerminator =
        headersEnd
      cases headersEnd with
      | none =>
          dsimp only
          split_ifs <;> rfl
      | some position =>
          dsimp only
          split_ifs <;> rfl

/-- The header fits in every state of the loop on bytes. -/
theorem loopState_fits (headerBuffer : List Byte) (chunks : List Chunk) :
    (chunks.foldl (fun state chunk => (loopBody state chunk.bytes).state)
      (.start headerBuffer)).headerLength ≤ bufferSize - 1 := by
  have step : ∀ state : LoopState, state.headerLength ≤ bufferSize - 1 → ∀ chunk : Chunk,
      (loopBody state chunk.bytes).state.headerLength ≤ bufferSize - 1 := by
    intro state fits chunk
    exact pass_fits (state.lengths false) _ _ fits (loopBody_simulated state chunk fits)
  have started : (LoopState.start headerBuffer).headerLength ≤ bufferSize - 1 := Nat.zero_le _
  generalize LoopState.start headerBuffer = state at started ⊢
  induction chunks generalizing state with
  | nil => exact started
  | cons chunk rest ih => exact ih _ (step state started chunk)

end OsLabs.Proxy
