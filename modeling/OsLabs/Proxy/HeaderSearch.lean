import OsLabs.Proxy.ResponseBody

/-!
# What the header search sees

`loopBranch` names the branch that a pass of the loop body takes.  The search
runs over `visible`: the bytes received so far, as far as they fit, and behind
them whatever the header buffer held before.  `loopBranch_overlaid` reads the branch
off this string.  With a zeroed buffer only the first chunk can lead to the
non-200 branch, and `classified_iff` says when the decision is the right one.
`error_reply_whole_iff` is about the replies of both error branches.
-/

set_option autoImplicit false

namespace OsLabs.Proxy

open OsLabs.CString

/-- The branches of the loop body. -/
inductive Branch where
  | relayed
  | notOkStatus
  | behindHeader
  | headerTooLarge
  | headerIncomplete
  deriving DecidableEq

/-- The text a branch assigns to `errorResponse`. -/
def Branch.errorResponse : Branch → Option (List Byte)
  | .notOkStatus => some notOkResponse
  | .headerTooLarge => some tooLargeResponse
  | _ => none

def loopBranch (state : LoopState) (buffer : List Byte) : Branch :=
  if state.isChecked then .relayed
  else
    let copied := copyLength state.headerLength buffer.length
    let headerBuffer := writeAt state.headerBuffer state.headerLength (buffer.take copied)
    let headerLength := state.headerLength + copied
    match strstr headerBuffer headerTerminator with
    | some _ =>
        if (strstr headerBuffer http10Ok).isNone && (strstr headerBuffer http11Ok).isNone then
          .notOkStatus
        else .behindHeader
    | none => if bufferSize - 1 ≤ headerLength then .headerTooLarge else .headerIncomplete

/-- The branches taken in a run of the loop. -/
def loopBranches : List Chunk → LoopState → List Branch
  | [], _ => []
  | chunk :: rest, state =>
      let iteration := loopBody state chunk.bytes
      loopBranch state chunk.bytes ::
        if iteration.leaves then [] else loopBranches rest iteration.state

/-- What a branch does to the loop. -/
theorem loopBody_branch (state : LoopState) (buffer : List Byte) :
    (loopBody state buffer).leaves = (loopBranch state buffer).errorResponse.isSome ∧
      ∀ response ∈ (loopBranch state buffer).errorResponse,
        (loopBody state buffer).ranges = [response.take pointerSize] := by
  unfold loopBody loopBranch
  cases state.isChecked with
  | true => simp [Branch.errorResponse]
  | false =>
      simp only [Bool.false_eq_true, if_false]
      generalize writeAt state.headerBuffer _ _ = headerBuffer
      cases strstr headerBuffer headerTerminator with
      | some headersEnd => dsimp only; split <;> simp [Branch.errorResponse]
      | none => dsimp only; split <;> simp [Branch.errorResponse]

theorem loopBranches_cons (chunk : Chunk) (rest : List Chunk) (state : LoopState) :
    loopBranches (chunk :: rest) state =
      loopBranch state chunk.bytes ::
        if (loopBranch state chunk.bytes).errorResponse.isSome then []
        else loopBranches rest (loopBody state chunk.bytes).state := by
  rw [loopBranches, (loopBody_branch state chunk.bytes).1]

theorem loopBranches_checked (chunks : List Chunk) (state : LoopState)
    (checked : state.isChecked = true) :
    ∀ branch ∈ loopBranches chunks state, branch = .relayed := by
  induction chunks with
  | nil => intro branch member; simp [loopBranches] at member
  | cons chunk rest ih =>
      intro branch member
      have here : loopBranch state chunk.bytes = .relayed := by simp [loopBranch, checked]
      have same : (loopBody state chunk.bytes).state = state := by simp [loopBody, checked]
      rw [loopBranches_cons, here, same] at member
      rcases List.mem_cons.mp member with now | later
      · exact now
      · exact ih branch (by simpa [Branch.errorResponse] using later)

/-! ## The header buffer over old contents -/

/-- Memory whose first bytes were overwritten. -/
def overlaid (stale seen : List Byte) : List Byte := seen ++ stale.drop seen.length

def LoopState.overlaid (stale seen : List Byte) (isChecked : Bool) : LoopState :=
  ⟨Proxy.overlaid stale seen, seen.length, isChecked⟩

/-- The part of the received bytes that goes into `headerBuffer`. -/
def headerPart (got : List Byte) : List Byte := got.take (bufferSize - 1)

/-- The string in `headerBuffer` once the bytes `got` were received. -/
def visible (stale got : List Byte) : List Byte := cstr (overlaid stale (headerPart got))

theorem start_overlaid (stale : List Byte) :
    LoopState.start stale = .overlaid stale (headerPart []) false :=
  rfl

theorem writeAt_overlaid (stale seen bytes : List Byte) :
    writeAt (overlaid stale seen) seen.length bytes = overlaid stale (seen ++ bytes) := by
  simp [writeAt, overlaid, List.drop_append, List.drop_eq_nil_of_le]

theorem headerPart_room (got : List Byte) : (headerPart got).length ≤ bufferSize - 1 := by
  rw [headerPart, List.length_take]
  exact Nat.min_le_left _ _

theorem headerPart_append (got buffer : List Byte) :
    headerPart got ++ kept (headerPart got) buffer = headerPart (got ++ buffer) := by
  rw [headerPart, headerPart, kept, List.take_append, List.length_take]
  congr 2
  omega

theorem headerPart_full_iff (got : List Byte) :
    bufferSize - 1 ≤ (headerPart got).length ↔ bufferSize - 1 ≤ got.length := by
  rw [headerPart, List.length_take]
  omega

/-- The header buffer and its length after the `memcpy` of a pass. -/
theorem copied_overlaid (stale got buffer : List Byte) :
    writeAt (overlaid stale (headerPart got)) (headerPart got).length
        (buffer.take (copyLength (headerPart got).length buffer.length)) =
      overlaid stale (headerPart (got ++ buffer)) ∧
    (headerPart got).length + copyLength (headerPart got).length buffer.length =
      (headerPart (got ++ buffer)).length := by
  rw [copyLength_eq _ _ (headerPart_room got), take_kept_length, writeAt_overlaid,
    ← headerPart_append, List.length_append]
  exact ⟨rfl, rfl⟩

/-- One of the two status texts is a part of the string. -/
def HasOkStatus (string : List Byte) : Prop := http10Ok <:+: string ∨ http11Ok <:+: string

instance (string : List Byte) : Decidable (HasOkStatus string) :=
  inferInstanceAs (Decidable (_ ∨ _))

/-- The branch of a pass, read off the string that the searches run over. -/
theorem loopBranch_overlaid (stale got buffer : List Byte) :
    loopBranch (.overlaid stale (headerPart got) false) buffer =
      if headerTerminator <:+: visible stale (got ++ buffer) then
        if HasOkStatus (visible stale (got ++ buffer)) then .behindHeader else .notOkStatus
      else if bufferSize - 1 ≤ (got ++ buffer).length then .headerTooLarge
      else .headerIncomplete := by
  obtain ⟨memory, length⟩ := copied_overlaid stale got buffer
  simp only [loopBranch, LoopState.overlaid, Bool.false_eq_true, if_false, memory, length,
    headerPart_full_iff, strstr, ← visible.eq_1]
  cases found : find headerTerminator (visible stale (got ++ buffer)) with
  | some position =>
      have occurs := (find_isSome_iff _ _).mp (Option.isSome_iff_exists.mpr ⟨position, found⟩)
      simp only [if_pos occurs, Bool.and_eq_true, find_isNone_iff, ← not_or, ← HasOkStatus.eq_1]
      by_cases ok : HasOkStatus (visible stale (got ++ buffer)) <;> simp [ok]
  | none =>
      have absent := (find_isNone_iff _ _).mp (Option.isNone_iff_eq_none.mpr found)
      rw [if_neg absent]

theorem loopBody_state_overlaid (stale got buffer : List Byte) :
    (loopBody (.overlaid stale (headerPart got) false) buffer).state =
      .overlaid stale (headerPart (got ++ buffer))
        (loopBranch (.overlaid stale (headerPart got) false) buffer = .headerIncomplete) := by
  obtain ⟨memory, length⟩ := copied_overlaid stale got buffer
  simp only [loopBody, loopBranch, LoopState.overlaid, Bool.false_eq_true, if_false, memory, length]
  generalize Proxy.overlaid stale (headerPart (got ++ buffer)) = headerBuffer
  cases strstr headerBuffer headerTerminator with
  | some headersEnd => dsimp only; split <;> simp
  | none => dsimp only; split <;> simp

/-! ## Which responses are classified right -/

theorem HasOkStatus.mono {part whole : List Byte} (ok : HasOkStatus part)
    (initial : part <+: whole) : HasOkStatus whole :=
  ok.imp (fun http10 => http10.trans initial.isInfix) (fun http11 => http11.trans initial.isInfix)

theorem visible_zeroed (got : List Byte) :
    visible (List.replicate bufferSize 0) got = cstr (headerPart got) := by
  rw [visible, overlaid, List.drop_replicate, cstr_append_zeroed]

theorem visible_zeroed_mono (got more : List Byte) :
    visible (List.replicate bufferSize 0) got <+:
      visible (List.replicate bufferSize 0) (got ++ more) := by
  rw [visible_zeroed, visible_zeroed]
  apply cstr_mono
  rw [← headerPart_append]
  exact List.prefix_append _ _

/-- A status text that was seen stays visible. -/
theorem loopBranches_accepted (got : List Byte) (chunks : List Chunk)
    (ok : HasOkStatus (visible (List.replicate bufferSize 0) got)) :
    Branch.notOkStatus ∉
      loopBranches chunks (.overlaid (List.replicate bufferSize 0) (headerPart got) false) := by
  induction chunks generalizing got with
  | nil => simp [loopBranches]
  | cons chunk rest ih =>
      have still := ok.mono (visible_zeroed_mono got chunk.bytes)
      have pass := loopBranch_overlaid (List.replicate bufferSize 0) got chunk.bytes
      rw [if_pos still] at pass
      rw [loopBranches_cons, loopBody_state_overlaid]
      intro member
      rcases List.mem_cons.mp member with here | later
      · rw [← here] at pass
        split at pass
        · simp at pass
        · split at pass <;> simp at pass
      · split at later
        · simp at later
        · by_cases incomplete : loopBranch (.overlaid (List.replicate bufferSize 0)
              (headerPart got) false) chunk.bytes = .headerIncomplete
          · rw [decide_eq_true incomplete] at later
            have relayed := loopBranches_checked rest _ rfl _ later
            simp at relayed
          · rw [decide_eq_false incomplete] at later
            exact ih (got ++ chunk.bytes) still later

/-- Only the first chunk can lead to the non-200 branch. -/
theorem notOkStatus_iff (chunk : Chunk) (rest : List Chunk) :
    Branch.notOkStatus ∈
        loopBranches (chunk :: rest) (.start (List.replicate bufferSize 0)) ↔
      headerTerminator <:+: cstr (headerPart chunk.bytes) ∧
        ¬ HasOkStatus (cstr (headerPart chunk.bytes)) := by
  have pass := loopBranch_overlaid (List.replicate bufferSize 0) [] chunk.bytes
  rw [List.nil_append, visible_zeroed] at pass
  rw [start_overlaid, loopBranches_cons, loopBody_state_overlaid, List.nil_append]
  by_cases terminated : headerTerminator <:+: cstr (headerPart chunk.bytes)
  · rw [if_pos terminated] at pass
    by_cases ok : HasOkStatus (cstr (headerPart chunk.bytes))
    · have never := loopBranches_accepted chunk.bytes rest (by rw [visible_zeroed]; exact ok)
      rw [if_pos ok] at pass
      simp [pass, ok, never, Branch.errorResponse]
    · rw [if_neg ok] at pass
      simp [pass, terminated, ok]
  · rw [if_neg terminated] at pass
    simp only [terminated, false_and, iff_false]
    intro member
    rcases List.mem_cons.mp member with here | later
    · rw [← here] at pass
      split at pass <;> simp at pass
    · split at later
      · simp at later
      · rename_i stays
        have incomplete : loopBranch (.overlaid (List.replicate bufferSize 0)
            (headerPart []) false) chunk.bytes = .headerIncomplete := by
          rw [pass]
          split
          · rename_i large
            rw [pass, if_pos large] at stays
            simp [Branch.errorResponse] at stays
          · rfl
        rw [decide_eq_true incomplete] at later
        have relayed := loopBranches_checked rest _ rfl _ later
        simp at relayed

def firstLine (response : List Byte) : List Byte := upTo crlf response

/-- The first line is that of a successful response, or the first chunk holds
the whole header before any NUL, and no status text up to that NUL. -/
def ClassifiedRight (chunks : List Chunk) : Prop :=
  (firstLine (received chunks) = http10Ok ∨ firstLine (received chunks) = http11Ok) ∨
    ∃ chunk rest, chunks = chunk :: rest ∧
      headerTerminator <:+: cstr (headerPart chunk.bytes) ∧
      ¬ HasOkStatus (cstr (headerPart chunk.bytes))

/-- A visible header contains the first line of the response. -/
theorem firstLine_visible (chunk : Chunk) (rest : List Chunk)
    (terminated : headerTerminator <:+: cstr (headerPart chunk.bytes)) :
    firstLine (received (chunk :: rest)) <+: cstr (headerPart chunk.bytes) := by
  have initial : cstr (headerPart chunk.bytes) <+: received (chunk :: rest) := by
    rw [received_cons]
    exact ((cstr_initial _).trans (List.take_prefix _ _)).trans (List.prefix_append _ _)
  have lineEnd : crlf <:+: headerTerminator := ⟨[], crlf, rfl⟩
  exact upTo_extend crlf initial (lineEnd.trans terminated)

/-- The non-200 branch is taken for the right responses exactly under
`ClassifiedRight`. -/
theorem classified_iff (chunks : List Chunk) :
    (Branch.notOkStatus ∈ loopBranches chunks (.start (List.replicate bufferSize 0)) ↔
        ¬ (firstLine (received chunks) = http10Ok ∨ firstLine (received chunks) = http11Ok)) ↔
      ClassifiedRight chunks := by
  unfold ClassifiedRight
  by_cases good : firstLine (received chunks) = http10Ok ∨ firstLine (received chunks) = http11Ok
  · simp only [good, not_true, iff_false, true_or, iff_true]
    cases chunks with
    | nil => simp [loopBranches]
    | cons chunk rest =>
        rw [notOkStatus_iff]
        intro assumed
        obtain ⟨terminated, lacking⟩ := assumed
        have line := firstLine_visible chunk rest terminated
        apply lacking
        rcases good with http10 | http11
        · exact Or.inl (http10 ▸ line).isInfix
        · exact Or.inr (http11 ▸ line).isInfix
  · simp only [good, not_false_eq_true, iff_true, false_or]
    cases chunks with
    | nil => simp [loopBranches]
    | cons chunk rest =>
        rw [notOkStatus_iff]
        constructor
        · intro taken
          exact ⟨chunk, rest, rfl, taken⟩
        · intro ⟨first, others, split, taken⟩
          rw [List.cons.injEq] at split
          rw [split.1]
          exact taken

/-- The status line of an error, and the end of its header in a second chunk. -/
def notFoundInTwo : List Chunk :=
  [⟨text "HTTP/1.0 404 Not Found", by decide, by decide⟩, ⟨text "\r\n\r\n", by decide, by decide⟩]

/-- The error goes through as a success. -/
theorem not_found_accepted :
    find headerTerminator (received notFoundInTwo) = some 22 ∧ 22 + 4 ≤ bufferSize - 1 ∧
      firstLine (received notFoundInTwo) = text "HTTP/1.0 404 Not Found" ∧
      text "HTTP/1.0 404 Not Found" ≠ http10Ok ∧ text "HTTP/1.0 404 Not Found" ≠ http11Ok ∧
      Branch.notOkStatus ∉
        loopBranches notFoundInTwo (.start (List.replicate bufferSize 0)) := by
  refine ⟨?_, ?_, ?_, ?_, ?_, ?_⟩ <;> decide +kernel

/-! ## The error replies -/

/-- No pass of the loop takes an error branch: as long as a CRLF CRLF is
visible there is a status text with it, and without one there is room left. -/
def AvoidsErrors (stale : List Byte) : List Byte → List Chunk → Prop
  | _, [] => True
  | got, chunk :: rest =>
      if headerTerminator <:+: visible stale (got ++ chunk.bytes) then
        HasOkStatus (visible stale (got ++ chunk.bytes)) ∧
          AvoidsErrors stale (got ++ chunk.bytes) rest
      else (got ++ chunk.bytes).length < bufferSize - 1

theorem avoidsErrors_iff (stale got : List Byte) (chunks : List Chunk) :
    AvoidsErrors stale got chunks ↔
      ∀ branch ∈ loopBranches chunks (.overlaid stale (headerPart got) false),
        branch.errorResponse = none := by
  induction chunks generalizing got with
  | nil => simp [AvoidsErrors, loopBranches]
  | cons chunk rest ih =>
      have pass := loopBranch_overlaid stale got chunk.bytes
      have next := loopBody_state_overlaid stale got chunk.bytes
      rw [AvoidsErrors, loopBranches_cons, next]
      by_cases terminated : headerTerminator <:+: visible stale (got ++ chunk.bytes)
      · rw [if_pos terminated] at pass ⊢
        by_cases ok : HasOkStatus (visible stale (got ++ chunk.bytes))
        · rw [if_pos ok] at pass
          simp [pass, ok, ih, Branch.errorResponse]
        · rw [if_neg ok] at pass
          simp [pass, ok, Branch.errorResponse]
      · rw [if_neg terminated] at pass ⊢
        by_cases large : bufferSize - 1 ≤ (got ++ chunk.bytes).length
        · rw [if_pos large] at pass
          have room : ¬ (got ++ chunk.bytes).length < bufferSize - 1 := by omega
          simp only [pass, room, false_iff]
          intro silent
          exact absurd (silent .headerTooLarge (by simp)) (by simp [Branch.errorResponse])
        · rw [if_neg large] at pass
          have room : (got ++ chunk.bytes).length < bufferSize - 1 := by omega
          have silent := loopBranches_checked rest
            (.overlaid stale (headerPart (got ++ chunk.bytes)) true) rfl
          simp only [pass, room, decide_true, true_iff]
          intro branch member
          rcases List.mem_cons.mp member with here | later
          · rw [here]
            rfl
          · rw [silent branch later]
            rfl

/-- An error branch is the last one, and inserts the first bytes of its reply. -/
theorem loopRanges_of_error (chunks : List Chunk) (state : LoopState) (branch : Branch)
    (member : branch ∈ loopBranches chunks state) (response : List Byte)
    (error : response ∈ branch.errorResponse) :
    ∃ earlier, loopRanges chunks state = earlier ++ [response.take pointerSize] := by
  induction chunks generalizing state with
  | nil => simp [loopBranches] at member
  | cons chunk rest ih =>
      obtain ⟨leaves, reply⟩ := loopBody_branch state chunk.bytes
      rw [loopBranches_cons] at member
      rw [loopRanges, leaves]
      cases here : (loopBranch state chunk.bytes).errorResponse with
      | some response' =>
          simp only [here, Option.isSome_some, if_true, List.mem_singleton] at member ⊢
          rw [← member, error, Option.some.injEq] at here
          subst here
          exact ⟨[], reply response (by rw [← member]; exact error)⟩
      | none =>
          simp only [here, Option.isSome_none, Bool.false_eq_true, if_false] at member ⊢
          rcases List.mem_cons.mp member with same | later
          · rw [← same, error] at here
            simp at here
          · obtain ⟨earlier, split⟩ := ih _ later
            exact ⟨(loopBody state chunk.bytes).ranges ++ earlier, by
              rw [split, List.append_assoc]⟩

/-- Neither reply ends with its own first eight bytes. -/
theorem errorResponse_not_cut (branch : Branch) (response : List Byte)
    (error : response ∈ branch.errorResponse) : ¬ response.take pointerSize <:+ response := by
  cases branch with
  | notOkStatus =>
      rw [← Option.some.inj error]
      decide +kernel
  | headerTooLarge =>
      rw [← Option.some.inj error]
      decide +kernel
  | relayed => simp [Branch.errorResponse] at error
  | behindHeader => simp [Branch.errorResponse] at error
  | headerIncomplete => simp [Branch.errorResponse] at error

/-- The bytes cached for an error branch are its whole reply, in every run over
the given chunks, exactly when no run takes an error branch. -/
theorem error_reply_whole_iff (url : List Byte) (now : Int) (next : Option Addr)
    (headerBuffer : List Byte) (chunks : List Chunk) :
    (∀ reallocOk ending, ∀ branch ∈ loopBranches chunks (.start headerBuffer),
      ∀ response ∈ branch.errorResponse,
        (downloadData reallocOk headerBuffer (newEntry url now next) chunks
            ending).entry.isComplete = true ∧
          (downloadData reallocOk headerBuffer (newEntry url now next) chunks
            ending).entry.content = response) ↔
      AvoidsErrors headerBuffer [] chunks := by
  rw [avoidsErrors_iff, ← start_overlaid]
  constructor
  · intro whole branch member
    cases error : branch.errorResponse with
    | none => rfl
    | some response =>
        obtain ⟨_, content⟩ := whole (fun _ => true) .endOfStream branch member response error
        obtain ⟨earlier, ranges⟩ := loopRanges_of_error chunks _ branch member response error
        rw [downloadData_content, CacheEntry.newEntry_content, List.nil_append, ranges,
          stored_of_ok _ _ _ (fun _ _ => rfl), List.flatten_append] at content
        have ending : response.take pointerSize <:+ response := ⟨earlier.flatten, by
          simpa using content⟩
        exact absurd ending (errorResponse_not_cut branch response error)
  · intro avoided reallocOk ending branch member response error
    rw [avoided branch member] at error
    simp at error

/-- A complete header of a response with another status. -/
def notFound : List Chunk :=
  [⟨text "HTTP/1.0 404 Not Found\r\n\r\n", by decide, by decide⟩]

/-- The cached reply is `HTTP/1.1` and nothing else. -/
theorem error_reply_cut :
    Branch.notOkStatus ∈ loopBranches notFound (.start (List.replicate bufferSize 0)) ∧
      (downloadData (fun _ => true) (List.replicate bufferSize 0)
        (newEntry (text "http://a/") 0 none) notFound .endOfStream).entry.isComplete = true ∧
      (downloadData (fun _ => true) (List.replicate bufferSize 0)
        (newEntry (text "http://a/") 0 none) notFound .endOfStream).entry.content =
          text "HTTP/1.1" ∧
      text "HTTP/1.1" ≠ notOkResponse := by
  refine ⟨?_, rfl, ?_, ?_⟩ <;> decide +kernel

end OsLabs.Proxy
