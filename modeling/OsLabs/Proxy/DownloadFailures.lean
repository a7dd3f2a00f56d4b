import OsLabs.Proxy.Download

/-!
# Failures during a download

`cacheInsertData` swallows a failed `realloc`, and the loop ends on `recv`
returning -1 as it does on end of stream; in both cases the entry is marked
complete all the same.  Every range passed to `cacheInsertData` is nonempty, so
each failed call leaves a hole: `complete_without_hole_iff`.
-/

set_option autoImplicit false

namespace OsLabs.Proxy

open OsLabs.CString

theorem loopBody_ranges_nonempty (state : LoopState) (buffer : List Byte)
    (nonempty : buffer ≠ []) : ∀ range ∈ (loopBody state buffer).ranges, range ≠ [] := by
  have readNonempty : ∀ (memory : List Byte) (offset length : Nat), 0 < length →
      readAt memory offset length ≠ [] := by
    intro memory offset length positive isEmpty
    have size := readAt_length memory offset length
    rw [isEmpty, List.length_nil] at size
    omega
  intro range member
  unfold loopBody at member
  split at member
  · rw [List.mem_singleton.mp member]
    exact nonempty
  · dsimp only at member
    split at member
    · split at member
      · rw [List.mem_singleton.mp member, notOkResponse_initial]
        decide
      · rw [List.mem_append] at member
        rcases member with front | back
        · split at front
          · rw [List.mem_singleton.mp front]
            exact readNonempty _ _ _ (by assumption)
          · simp at front
        · split at back
          · rw [List.mem_singleton.mp back]
            exact readNonempty _ _ _ (by assumption)
          · simp at back
    · split at member
      · rw [List.mem_singleton.mp member, tooLargeResponse_initial]
        decide
      · simp at member

theorem loopRanges_nonempty (chunks : List Chunk) (state : LoopState) :
    ∀ range ∈ loopRanges chunks state, range ≠ [] := by
  induction chunks generalizing state with
  | nil => intro range member; simp [loopRanges] at member
  | cons chunk rest ih =>
      intro range member
      simp only [loopRanges] at member
      split at member
      · exact loopBody_ranges_nonempty state chunk.bytes chunk.nonempty range member
      · rcases List.mem_append.mp member with here | later
        · exact loopBody_ranges_nonempty state chunk.bytes chunk.nonempty range here
        · exact ih _ range later

theorem stored_length_le (reallocOk : Nat → Bool) (call : Nat) (ranges : List (List Byte)) :
    (stored reallocOk call ranges).length ≤ ranges.flatten.length := by
  induction ranges generalizing call with
  | nil => simp [stored]
  | cons range rest ih =>
      have later := ih (call + 1)
      simp only [stored, List.flatten_cons, List.length_append]
      cases reallocOk call <;> simp only [Bool.false_eq_true, if_false, if_true,
        List.length_nil] <;> omega

/-- Nothing is missing exactly when no call failed. -/
theorem stored_eq_flatten_iff (reallocOk : Nat → Bool) (call : Nat) (ranges : List (List Byte))
    (nonempty : ∀ range ∈ ranges, range ≠ []) :
    stored reallocOk call ranges = ranges.flatten ↔
      ∀ offset < ranges.length, reallocOk (call + offset) = true := by
  constructor
  · intro same
    induction ranges generalizing call with
    | nil => intro offset below; simp at below
    | cons range rest ih =>
        have shorter := stored_length_le reallocOk (call + 1) rest
        have positive := List.length_pos_iff.mpr (nonempty range (by simp))
        have lengths := congrArg List.length same
        cases here : reallocOk call with
        | false =>
            simp only [stored, here, Bool.false_eq_true, if_false, List.nil_append,
              List.flatten_cons, List.length_append] at lengths
            omega
        | true =>
            simp only [stored, here, if_true, List.flatten_cons,
              List.append_cancel_left_eq] at same
            have later := ih (call + 1) (fun r member => nonempty r (by simp [member])) same
            intro offset below
            cases offset with
            | zero => exact here
            | succ offset =>
                have next := later offset (by simpa using below)
                rwa [Nat.add_assoc, Nat.add_comm 1] at next
  · exact stored_of_ok reallocOk call ranges

theorem breaks_cons (state : LoopState) (chunk : Chunk) (rest : List Chunk) :
    Breaks state (chunk :: rest) ↔
      (loopBody state chunk.bytes).leaves = true ∨
        Breaks (loopBody state chunk.bytes).state rest := by
  constructor
  · intro assumed
    obtain ⟨before, breaking, after, split, leaves⟩ := assumed
    cases before with
    | nil =>
        rw [List.nil_append, List.cons.injEq] at split
        rw [split.1]
        exact Or.inl leaves
    | cons first before =>
        rw [List.cons_append, List.cons.injEq] at split
        rw [split.1]
        exact Or.inr ⟨before, breaking, after, split.2, leaves⟩
  · intro assumed
    rcases assumed with leaves | ⟨before, breaking, after, split, leaves⟩
    · exact ⟨[], chunk, rest, rfl, leaves⟩
    · exact ⟨chunk :: before, breaking, after, by rw [split, List.cons_append], leaves⟩

/-- The loop is left on a `recv` error iff `recv` fails before any `break`. -/
theorem receiveLoop_recvError_iff (reallocOk : Nat → Bool) (ending : RecvEnd)
    (chunks : List Chunk) (state : LoopState) (progress : Progress) :
    (receiveLoop reallocOk ending chunks state progress).2 = .recvError ↔
      ending = .error ∧ ¬ Breaks state chunks := by
  induction chunks generalizing state progress with
  | nil =>
      have never : ¬ Breaks state [] := by
        intro assumed
        obtain ⟨before, chunk, after, split, _⟩ := assumed
        simp at split
      cases ending <;> simp [receiveLoop, RecvEnd.exit, never]
  | cons chunk rest ih =>
      rw [breaks_cons]
      simp only [receiveLoop]
      cases leaves : (loopBody state chunk.bytes).leaves with
      | true => simp
      | false => simp [ih]

/-- A completed entry holds all the ranges in order, and `recv` did not fail,
exactly when no allocation of the run failed and `recv` was not asked for its
error before the loop was left. -/
theorem complete_without_hole_iff (reallocOk : Nat → Bool) (headerBuffer : List Byte)
    (url : List Byte) (now : Int) (next : Option Addr) (chunks : List Chunk)
    (ending : RecvEnd) :
    ((downloadData reallocOk headerBuffer (newEntry url now next) chunks
          ending).entry.isComplete = true →
        (downloadData reallocOk headerBuffer (newEntry url now next) chunks
            ending).entry.content =
          (downloadData reallocOk headerBuffer (newEntry url now next) chunks
            ending).ranges.flatten ∧
        (downloadData reallocOk headerBuffer (newEntry url now next) chunks
          ending).exit ≠ .recvError) ↔
      (∀ call < (loopRanges chunks (.start headerBuffer)).length, reallocOk call = true) ∧
        (ending = .endOfStream ∨ Breaks (.start headerBuffer) chunks) := by
  have exit : (downloadData reallocOk headerBuffer (newEntry url now next) chunks ending).exit =
      (receiveLoop reallocOk ending chunks (.start headerBuffer)
        ⟨newEntry url now next, []⟩).2 := rfl
  have holeless := stored_eq_flatten_iff reallocOk 0
    (loopRanges chunks (.start headerBuffer)) (loopRanges_nonempty chunks _)
  rw [downloadData_isComplete, downloadData_content, downloadData_ranges, exit,
    CacheEntry.newEntry_content, List.nil_append, holeless, Ne, receiveLoop_recvError_iff]
  cases ending <;> simp

/-- A header without its terminator, then three bytes, one chunk each. -/
def threeBytes : List Chunk :=
  [⟨text "HTTP/1.0 200 OK", by decide, by decide⟩, ⟨text "x", by decide, by decide⟩,
    ⟨text "y", by decide, by decide⟩, ⟨text "z", by decide, by decide⟩]

/-- A failed `realloc` in the middle, and a `recv` error at the end, are both
hidden behind the completion mark. -/
theorem hole_and_cut_marked_complete :
    ((downloadData (fun call => call != 1) (List.replicate bufferSize 0)
          (newEntry (text "http://a/") 0 none) threeBytes .endOfStream).entry.isComplete = true ∧
      (downloadData (fun call => call != 1) (List.replicate bufferSize 0)
          (newEntry (text "http://a/") 0 none) threeBytes .endOfStream).entry.content =
        text "xz" ∧
      (downloadData (fun call => call != 1) (List.replicate bufferSize 0)
          (newEntry (text "http://a/") 0 none) threeBytes .endOfStream).ranges.flatten =
        text "xyz") ∧
      (downloadData (fun _ => true) (List.replicate bufferSize 0)
          (newEntry (text "http://a/") 0 none) threeBytes .error).entry.isComplete = true ∧
      (downloadData (fun _ => true) (List.replicate bufferSize 0)
          (newEntry (text "http://a/") 0 none) threeBytes .error).exit = .recvError := by
  refine ⟨⟨rfl, ?_, ?_⟩, rfl, ?_⟩ <;> decide +kernel

end OsLabs.Proxy
