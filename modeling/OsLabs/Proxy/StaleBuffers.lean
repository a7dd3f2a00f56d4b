import OsLabs.Proxy.HeaderSearch
import OsLabs.Proxy.Request

/-!
# Old contents of the receive buffers

`buffer` and `headerBuffer` are not initialised.  `passIn` is the loop body on
the whole array `buffer`, into which `recv` has stored a chunk; `passIn_chunk`
says that it reads the chunk and nothing else of this array.  The header search
may run past the received bytes, and `stale_independent_iff` says when the run
does not depend on what it finds there; `request_independent_iff` does so for
the conversions of `handleRequest`.
-/

set_option autoImplicit false

namespace OsLabs.Proxy

open OsLabs.CString

/-- One pass of the loop: its branch, the result of the search for the end of
the header, and its effects. -/
structure Pass where
  branch : Branch
  headersEnd : Option Nat
  iteration : Iteration

/-- The loop body on the array `buffer`, whose first bytes were received. -/
def passIn (state : LoopState) (buffer : List Byte) (bytesReceived : Nat) : Pass :=
  if state.isChecked then ⟨.relayed, none, state, [readAt buffer 0 bytesReceived], false⟩
  else
    let copied := copyLength state.headerLength bytesReceived
    let headerBuffer := writeAt state.headerBuffer state.headerLength (readAt buffer 0 copied)
    let headerLength := state.headerLength + copied
    let headersEnd := strstr headerBuffer headerTerminator
    match headersEnd with
    | some position =>
        if (strstr headerBuffer http10Ok).isNone && (strstr headerBuffer http11Ok).isNone then
          ⟨.notOkStatus, headersEnd, ⟨headerBuffer, headerLength, false⟩,
            [notOkResponse.take pointerSize], true⟩
        else
          let headersSize := position + 4
          let remainingBytes := sizeSub headerLength headersSize
          let dataOffset := sizeSub bytesReceived copied
          ⟨.behindHeader, headersEnd, ⟨headerBuffer, headerLength, false⟩,
            (if 0 < remainingBytes then [readAt headerBuffer headersSize remainingBytes] else []) ++
              (if 0 < dataOffset then [readAt buffer copied dataOffset] else []), false⟩
    | none =>
        if bufferSize - 1 ≤ headerLength then
          ⟨.headerTooLarge, headersEnd, ⟨headerBuffer, headerLength, false⟩,
            [tooLargeResponse.take pointerSize], true⟩
        else ⟨.headerIncomplete, headersEnd, ⟨headerBuffer, headerLength, true⟩, [], false⟩

/-- The passes of the loop; each `recv` stores its chunk at the start of `buffer`. -/
def passes : List Chunk → List Byte → LoopState → List Pass
  | [], _, _ => []
  | chunk :: rest, buffer, state =>
      let stored := writeAt buffer 0 chunk.bytes
      let pass := passIn state stored chunk.bytes.length
      pass :: if pass.iteration.leaves then [] else passes rest stored pass.iteration.state

/-- The result of the header search in a pass. -/
def headerSearch (state : LoopState) (buffer : List Byte) : Option Nat :=
  if state.isChecked then none
  else strstr (writeAt state.headerBuffer state.headerLength
    (buffer.take (copyLength state.headerLength buffer.length))) headerTerminator

theorem readAt_received (buffer bytes : List Byte) (offset length : Nat)
    (inside : offset + length ≤ bytes.length) :
    readAt (writeAt buffer 0 bytes) offset length = readAt bytes offset length := by
  have stored : writeAt buffer 0 bytes = bytes ++ buffer.drop bytes.length := by simp [writeAt]
  rw [stored, readAt_append bytes _ offset length inside, readAt_inside bytes offset length inside]

theorem copyLength_le (headerLength bytesReceived : Nat) :
    copyLength headerLength bytesReceived ≤ bytesReceived := by
  simp only [copyLength]
  split <;> omega

/-- Of the array `buffer` a pass reads what was received. -/
theorem passIn_chunk (state : LoopState) (buffer bytes : List Byte)
    (small : bytes.length ≤ bufferSize) :
    passIn state (writeAt buffer 0 bytes) bytes.length =
      ⟨loopBranch state bytes, headerSearch state bytes, loopBody state bytes⟩ := by
  have copiedLe := copyLength_le state.headerLength bytes.length
  have whole : readAt (writeAt buffer 0 bytes) 0 bytes.length = bytes := by
    rw [readAt_received _ _ _ _ (by omega), readAt_inside _ _ _ (by omega), List.drop_zero,
      List.take_length]
  have front : readAt (writeAt buffer 0 bytes) 0 (copyLength state.headerLength bytes.length) =
      bytes.take (copyLength state.headerLength bytes.length) := by
    rw [readAt_received _ _ _ _ (by omega), readAt_inside _ _ _ (by omega), List.drop_zero]
  have offset : sizeSub bytes.length (copyLength state.headerLength bytes.length) =
      bytes.length - copyLength state.headerLength bytes.length :=
    sizeSub_of_le copiedLe small
  have back : readAt (writeAt buffer 0 bytes) (copyLength state.headerLength bytes.length)
      (sizeSub bytes.length (copyLength state.headerLength bytes.length)) =
      readAt bytes (copyLength state.headerLength bytes.length)
        (sizeSub bytes.length (copyLength state.headerLength bytes.length)) := by
    rw [readAt_received _ _ _ _ (by omega)]
  unfold passIn loopBranch headerSearch loopBody
  cases state.isChecked with
  | true => simp only [if_true, whole]
  | false =>
      simp only [Bool.false_eq_true, if_false, front, back]
      generalize writeAt state.headerBuffer _ _ = headerBuffer
      cases strstr headerBuffer headerTerminator with
      | some headersEnd => dsimp only; split <;> rfl
      | none => dsimp only; split <;> rfl

/-- The branches and the inserted ranges do not depend on the array `buffer`. -/
theorem passes_received (chunks : List Chunk) (buffer : List Byte) (state : LoopState) :
    (passes chunks buffer state).map Pass.branch = loopBranches chunks state ∧
      (passes chunks buffer state).flatMap (fun pass => pass.iteration.ranges) =
        loopRanges chunks state := by
  induction chunks generalizing buffer state with
  | nil => exact ⟨rfl, rfl⟩
  | cons chunk rest ih =>
      obtain ⟨branches, ranges⟩ := ih (writeAt buffer 0 chunk.bytes) (loopBody state chunk.bytes).state
      simp only [passes, passIn_chunk state buffer chunk.bytes chunk.bounded, loopBranches,
        loopRanges, List.map_cons, List.flatMap_cons]
      split
      · simp
      · rw [branches, ranges]
        exact ⟨rfl, rfl⟩

/-! ## Two runs over the same chunks -/

/-- The first chunk ends the string with a NUL, or holds all that the header
search and the status check look for. -/
def Settled (first : List Byte) : Prop :=
  0 ∈ headerPart first ∨
    (headerTerminator <:+: headerPart first ∧ HasOkStatus (headerPart first))

/-- What follows the received bytes in memory does not change the searches. -/
theorem settled_searches (stale first got : List Byte) (settled : Settled first)
    (initial : first <+: got) :
    find headerTerminator (visible stale got) =
        find headerTerminator (cstr (headerPart first)) ∧
      (HasOkStatus (visible stale got) ↔ HasOkStatus (cstr (headerPart first))) := by
  obtain ⟨behind, memory⟩ : headerPart first <+: overlaid stale (headerPart got) := by
    have parts : headerPart first <+: headerPart got := by
      obtain ⟨more, rfl⟩ := initial
      rw [← headerPart_append]
      exact List.prefix_append _ _
    exact parts.trans (List.prefix_append _ _)
  unfold visible
  rw [← memory]
  by_cases nul : 0 ∈ headerPart first
  · rw [cstr_append_of_nul _ _ nul]
    exact ⟨rfl, Iff.rfl⟩
  · obtain ⟨terminated, ok⟩ := settled.resolve_left nul
    have front := List.prefix_append (headerPart first) (cstr behind)
    rw [cstr_append_of_no_nul _ _ nul, cstr_of_no_nul _ nul]
    obtain ⟨position, found⟩ :=
      Option.isSome_iff_exists.mp ((find_isSome_iff headerTerminator _).mpr terminated)
    exact ⟨by rw [found, find_extend headerTerminator front position found],
      ⟨fun _ => ok, fun _ => ok.mono front⟩⟩

/-- The end of the header lies within the received bytes. -/
theorem settled_within (stale first got : List Byte) (settled : Settled first)
    (initial : first <+: got) (position : Nat)
    (found : find headerTerminator (visible stale got) = some position) :
    position + 4 ≤ (headerPart got).length := by
  rw [(settled_searches stale first got settled initial).1] at found
  have inString := find_bound headerTerminator _ position found
  have inPart := (cstr_initial (headerPart first)).length_le
  have parts : (headerPart first).length ≤ (headerPart got).length := by
    have shorter := initial.length_le
    simp only [headerPart, List.length_take]
    omega
  rw [terminator_length] at inString
  omega

/-- The ranges of a pass whose search ends within the received bytes. -/
theorem loopBody_ranges_overlaid (stale got buffer : List Byte) (small : buffer.length ≤ bufferSize)
    (within : ∀ position, find headerTerminator (visible stale (got ++ buffer)) = some position →
      position + 4 ≤ (headerPart (got ++ buffer)).length) :
    (loopBody (.overlaid stale (headerPart got) false) buffer).ranges =
      match find headerTerminator (visible stale (got ++ buffer)) with
      | some position =>
          if HasOkStatus (visible stale (got ++ buffer)) then
            [(headerPart (got ++ buffer)).drop (position + 4),
              spilled (headerPart got) buffer].filter (fun range => !range.isEmpty)
          else [notOkResponse.take pointerSize]
      | none =>
          if bufferSize - 1 ≤ (got ++ buffer).length then [tooLargeResponse.take pointerSize]
          else [] := by
  obtain ⟨memory, length⟩ := copied_overlaid stale got buffer
  simp only [loopBody, LoopState.overlaid, Bool.false_eq_true, if_false, memory, length,
    headerPart_full_iff, strstr, ← visible.eq_1]
  cases found : find headerTerminator (visible stale (got ++ buffer)) with
  | some position =>
      have copied : copyLength (headerPart got).length buffer.length =
          (kept (headerPart got) buffer).length := copyLength_eq _ _ (headerPart_room got)
      have ranges := remaining_ranges (headerPart (got ++ buffer))
        (stale.drop (headerPart (got ++ buffer)).length) buffer position
        (kept (headerPart got) buffer).length (within position found)
        (headerPart_room _) (by rw [kept, List.length_take]; omega) small
      rw [drop_kept_length] at ranges
      simp only [Bool.and_eq_true, find_isNone_iff, ← not_or, ← HasOkStatus.eq_1]
      by_cases ok : HasOkStatus (visible stale (got ++ buffer))
      · simp only [ok, not_true, if_false, if_true, copied]
        exact ranges
      · simp [ok]
  | none =>
      by_cases large : bufferSize - 1 ≤ (got ++ buffer).length
      · simp only [if_pos large]
      · simp only [if_neg large]

theorem headerSearch_overlaid (stale got buffer : List Byte) :
    headerSearch (.overlaid stale (headerPart got) false) buffer =
      find headerTerminator (visible stale (got ++ buffer)) := by
  obtain ⟨memory, _⟩ := copied_overlaid stale got buffer
  simp only [headerSearch, LoopState.overlaid, Bool.false_eq_true, if_false, memory, strstr,
    ← visible.eq_1]

/-- A pass on the received bytes of a settled run. -/
theorem settled_pass (stale stale' first got buffer : List Byte) (settled : Settled first)
    (initial : first <+: got ++ buffer) (small : buffer.length ≤ bufferSize) :
    loopBranch (.overlaid stale (headerPart got) false) buffer =
        loopBranch (.overlaid stale' (headerPart got) false) buffer ∧
      (loopBody (.overlaid stale (headerPart got) false) buffer).ranges =
        (loopBody (.overlaid stale' (headerPart got) false) buffer).ranges := by
  obtain ⟨search, status⟩ := settled_searches stale first _ settled initial
  obtain ⟨search', status'⟩ := settled_searches stale' first _ settled initial
  have occurs : headerTerminator <:+: visible stale (got ++ buffer) ↔
      headerTerminator <:+: visible stale' (got ++ buffer) := by
    rw [← find_isSome_iff, ← find_isSome_iff, search, search']
  constructor
  · simp only [loopBranch_overlaid, occurs, status, status']
  · rw [loopBody_ranges_overlaid stale got buffer small
        (settled_within stale first _ settled initial),
      loopBody_ranges_overlaid stale' got buffer small
        (settled_within stale' first _ settled initial)]
    simp only [search, search', status, status']

/-- After `isChecked = 1` every chunk is passed on as it comes. -/
theorem checked_run (chunks : List Chunk) (state : LoopState) (checked : state.isChecked = true) :
    loopBranches chunks state = chunks.map (fun _ => .relayed) ∧
      loopRanges chunks state = chunks.map Chunk.bytes := by
  induction chunks with
  | nil => exact ⟨rfl, rfl⟩
  | cons chunk rest ih => simp [loopBranches, loopRanges, loopBranch, loopBody, checked, ih]

theorem settled_run (stale stale' first got : List Byte) (chunks : List Chunk)
    (settled : Settled first) (initial : ∀ chunk ∈ chunks.head?, first <+: got ++ chunk.bytes) :
    loopBranches chunks (.overlaid stale (headerPart got) false) =
        loopBranches chunks (.overlaid stale' (headerPart got) false) ∧
      loopRanges chunks (.overlaid stale (headerPart got) false) =
        loopRanges chunks (.overlaid stale' (headerPart got) false) := by
  induction chunks generalizing got with
  | nil => exact ⟨rfl, rfl⟩
  | cons chunk rest ih =>
      have here := initial chunk rfl
      obtain ⟨branch, ranges⟩ :=
        settled_pass stale stale' first got chunk.bytes settled here chunk.bounded
      simp only [loopBranches_cons, loopRanges, (loopBody_branch _ chunk.bytes).1,
        loopBody_state_overlaid, branch, ranges]
      by_cases incomplete :
          loopBranch (.overlaid stale' (headerPart got) false) chunk.bytes = .headerIncomplete
      · obtain ⟨branches, onwards⟩ := checked_run rest
          (.overlaid stale (headerPart (got ++ chunk.bytes)) true) rfl
        obtain ⟨branches', onwards'⟩ := checked_run rest
          (.overlaid stale' (headerPart (got ++ chunk.bytes)) true) rfl
        simp only [incomplete, decide_true, branches, branches', onwards, onwards', and_self]
      · obtain ⟨branches, onwards⟩ := ih (got ++ chunk.bytes)
          (fun _ _ => here.trans (List.prefix_append _ _))
        simp only [incomplete, decide_false, branches, onwards, and_self]

/-- Every header search of a run ends within the bytes received so far. -/
def SearchesReceived (run : List Pass) : Prop :=
  ∀ pass ∈ run, ∀ position ∈ pass.headersEnd,
    position + 4 ≤ pass.iteration.state.headerLength

theorem checked_searches (chunks : List Chunk) (buffer : List Byte) (state : LoopState)
    (checked : state.isChecked = true) : SearchesReceived (passes chunks buffer state) := by
  induction chunks generalizing buffer with
  | nil => simp [SearchesReceived, passes]
  | cons chunk rest ih =>
      intro pass member
      simp only [passes, passIn, checked, if_true] at member
      rcases List.mem_cons.mp member with here | later
      · simp [here]
      · exact ih (writeAt buffer 0 chunk.bytes) pass (by simpa using later)

theorem settled_searches_received (stale first got : List Byte) (chunks : List Chunk)
    (buffer : List Byte) (settled : Settled first)
    (initial : ∀ chunk ∈ chunks.head?, first <+: got ++ chunk.bytes) :
    SearchesReceived (passes chunks buffer (.overlaid stale (headerPart got) false)) := by
  induction chunks generalizing got buffer with
  | nil => simp [SearchesReceived, passes]
  | cons chunk rest ih =>
      have here := initial chunk rfl
      intro pass member
      rw [passes, passIn_chunk _ buffer chunk.bytes chunk.bounded] at member
      rcases List.mem_cons.mp member with now | later
      · intro position found
        rw [now, headerSearch_overlaid] at found
        rw [now, loopBody_state_overlaid]
        exact settled_within stale first _ settled here position found
      · split at later
        · simp at later
        · simp only [loopBody_state_overlaid] at later
          by_cases incomplete :
              loopBranch (.overlaid stale (headerPart got) false) chunk.bytes = .headerIncomplete
          · rw [decide_eq_true incomplete] at later
            exact checked_searches rest _ _ rfl pass later
          · rw [decide_eq_false incomplete] at later
            exact ih (got ++ chunk.bytes) _ (fun _ _ => here.trans (List.prefix_append _ _))
              pass later

/-! ## The exact condition -/

/-- Initial contents of the two arrays. -/
structure Arrays where
  buffer : List Byte
  headerBuffer : List Byte
  bufferSized : buffer.length = bufferSize
  headerBufferSized : headerBuffer.length = bufferSize

/-- The run from given contents of the arrays and of the memory behind `headerBuffer`. -/
def Arrays.run (arrays : Arrays) (beyond : List Byte) (chunks : List Chunk) : List Pass :=
  passes chunks arrays.buffer (.start (arrays.headerBuffer ++ beyond))

/-- The same branches, the same calls of `cacheInsertData` with the same bytes,
and no search result behind the received bytes. -/
structure SameRuns (run run' : List Pass) : Prop where
  branches : run.map Pass.branch = run'.map Pass.branch
  ranges : run.flatMap (fun pass => pass.iteration.ranges) =
    run'.flatMap (fun pass => pass.iteration.ranges)
  received : SearchesReceived run
  received' : SearchesReceived run'

theorem Arrays.run_eq (arrays : Arrays) (beyond : List Byte) (chunks : List Chunk) :
    arrays.run beyond chunks = passes chunks arrays.buffer
      (.overlaid (arrays.headerBuffer ++ beyond) (headerPart []) false) := by
  rw [Arrays.run, start_overlaid]

theorem Arrays.run_branches (arrays : Arrays) (beyond : List Byte) (chunks : List Chunk) :
    (arrays.run beyond chunks).map Pass.branch =
      loopBranches chunks (.overlaid (arrays.headerBuffer ++ beyond) (headerPart []) false) := by
  rw [Arrays.run_eq]
  exact (passes_received chunks arrays.buffer _).1

theorem Arrays.run_ranges (arrays : Arrays) (beyond : List Byte) (chunks : List Chunk) :
    (arrays.run beyond chunks).flatMap (fun pass => pass.iteration.ranges) =
      loopRanges chunks (.overlaid (arrays.headerBuffer ++ beyond) (headerPart []) false) := by
  rw [Arrays.run_eq]
  exact (passes_received chunks arrays.buffer _).2

/-- Memory that goes on with a given string where the received bytes end. -/
def continuing (first continuation : List Byte) : List Byte :=
  List.replicate (headerPart first).length 0 ++ continuation ++ List.replicate bufferSize 0

theorem visible_continuing (first continuation : List Byte) (clean : 0 ∉ headerPart first)
    (cleanContinuation : 0 ∉ continuation) :
    visible (continuing first continuation) first = headerPart first ++ continuation := by
  have behind : (continuing first continuation).drop (headerPart first).length =
      continuation ++ List.replicate bufferSize 0 := by
    rw [continuing, List.append_assoc]
    exact List.drop_left' (List.length_replicate ..)
  rw [visible, overlaid, behind, cstr_append_of_no_nul _ _ clean, cstr_append_zeroed,
    cstr_of_no_nul _ cleanContinuation]

theorem visible_blank (first beyond : List Byte) (clean : 0 ∉ headerPart first) :
    visible (List.replicate bufferSize 0 ++ beyond) first = headerPart first := by
  have room := headerPart_room first
  have positive : 0 < bufferSize := by decide
  obtain ⟨left, size⟩ : ∃ left, bufferSize - (headerPart first).length = left + 1 :=
    ⟨bufferSize - (headerPart first).length - 1, by omega⟩
  rw [visible, overlaid, cstr_append_of_no_nul _ _ clean, List.drop_append_of_le_length
    (by rw [List.length_replicate]; omega), List.drop_replicate, size]
  simp [cstr, List.replicate_succ]

/-- Zeroed arrays, and arrays that go on with a given string. -/
def blankArrays : Arrays where
  buffer := List.replicate bufferSize 0
  headerBuffer := List.replicate bufferSize 0
  bufferSized := List.length_replicate ..
  headerBufferSized := List.length_replicate ..

def continuingArrays (first continuation : List Byte) : Arrays where
  buffer := List.replicate bufferSize 0
  headerBuffer := (continuing first continuation).take bufferSize
  bufferSized := List.length_replicate ..
  headerBufferSized := by
    rw [List.length_take, continuing, List.length_append, List.length_append,
      List.length_replicate, List.length_replicate]
    omega

/-- The first branches of two runs whose memory differs behind the received bytes. -/
theorem first_branches (first : Chunk) (rest : List Chunk) (continuation : List Byte)
    (clean : 0 ∉ headerPart first.bytes) (cleanContinuation : 0 ∉ continuation)
    (same : SameRuns
      (blankArrays.run ((continuing first.bytes continuation).drop bufferSize) (first :: rest))
      ((continuingArrays first.bytes continuation).run
        ((continuing first.bytes continuation).drop bufferSize) (first :: rest))) :
    (if headerTerminator <:+: headerPart first.bytes then
        if HasOkStatus (headerPart first.bytes) then Branch.behindHeader else .notOkStatus
      else if bufferSize - 1 ≤ first.bytes.length then .headerTooLarge else .headerIncomplete) =
      if headerTerminator <:+: headerPart first.bytes ++ continuation then
        if HasOkStatus (headerPart first.bytes ++ continuation) then .behindHeader
        else .notOkStatus
      else if bufferSize - 1 ≤ first.bytes.length then .headerTooLarge else .headerIncomplete := by
  have branches := same.branches
  rw [Arrays.run_branches, Arrays.run_branches, loopBranches_cons, loopBranches_cons,
    loopBranch_overlaid, loopBranch_overlaid, continuingArrays, List.take_append_drop, blankArrays,
    List.nil_append, visible_blank _ _ clean,
    visible_continuing _ _ clean cleanContinuation] at branches
  exact (List.cons.inj branches).1

/-- The run depends on the received bytes only exactly when there are none or
the first chunk settles the searches. -/
theorem stale_independent_iff (chunks : List Chunk) :
    (∀ (beyond : List Byte) (arrays arrays' : Arrays),
        SameRuns (arrays.run beyond chunks) (arrays'.run beyond chunks)) ↔
      ∀ first ∈ chunks.head?, Settled first.bytes := by
  constructor
  · intro same first isFirst
    obtain ⟨rest, rfl⟩ : ∃ rest, chunks = first :: rest := List.head?_eq_some_iff.mp isFirst
    by_contra unsettled
    obtain ⟨clean, lacking⟩ := not_or.mp unsettled
    by_cases terminated : headerTerminator <:+: headerPart first.bytes
    · -- the memory goes on with a status text
      have notOk : ¬ HasOkStatus (headerPart first.bytes) := fun ok => lacking ⟨terminated, ok⟩
      have differ := first_branches first rest http10Ok clean (by decide) (same _ _ _)
      have still := terminated.trans (List.prefix_append _ http10Ok).isInfix
      have ok : HasOkStatus (headerPart first.bytes ++ http10Ok) :=
        Or.inl (List.suffix_append _ http10Ok).isInfix
      rw [if_pos terminated, if_neg notOk, if_pos still, if_pos ok] at differ
      simp at differ
    · -- the memory goes on with the end of the header
      have differ := first_branches first rest headerTerminator clean (by decide) (same _ _ _)
      have found : headerTerminator <:+: headerPart first.bytes ++ headerTerminator :=
        (List.suffix_append _ headerTerminator).isInfix
      rw [if_neg terminated, if_pos found] at differ
      split at differ <;> split at differ <;> simp at differ
  · intro settled beyond arrays arrays'
    cases chunks with
    | nil => exact ⟨rfl, rfl, by simp [SearchesReceived, Arrays.run, passes],
        by simp [SearchesReceived, Arrays.run, passes]⟩
    | cons first rest =>
        have here := settled first rfl
        have initial : ∀ chunk ∈ (first :: rest).head?, first.bytes <+: [] ++ chunk.bytes := by
          intro chunk isFirst
          rw [← Option.some.inj isFirst]
          exact List.prefix_refl _
        obtain ⟨branches, ranges⟩ := settled_run (arrays.headerBuffer ++ beyond)
          (arrays'.headerBuffer ++ beyond) first.bytes [] (first :: rest) here initial
        exact {
          branches := by rw [Arrays.run_branches, Arrays.run_branches, branches]
          ranges := by rw [Arrays.run_ranges, Arrays.run_ranges, ranges]
          received := by
            rw [Arrays.run_eq]
            exact settled_searches_received _ first.bytes [] _ _ here initial
          received' := by
            rw [Arrays.run_eq]
            exact settled_searches_received _ first.bytes [] _ _ here initial }

/-- A status line without the end of its header. -/
def statusLineOnly : List Chunk := notFoundInTwo.take 1

/-- A CRLF CRLF behind the received bytes leads to the non-200 branch, at a
position outside of them. -/
theorem stale_terminator_found :
    (blankArrays.run [] statusLineOnly).map Pass.branch = [.headerIncomplete] ∧
      ((continuingArrays (text "HTTP/1.0 404 Not Found") headerTerminator).run []
        statusLineOnly).map Pass.branch = [.notOkStatus] ∧
      ((continuingArrays (text "HTTP/1.0 404 Not Found") headerTerminator).run []
        statusLineOnly).map (fun pass => (pass.headersEnd, pass.iteration.state.headerLength)) =
          [(some 22, 22)] := by
  refine ⟨?_, ?_, ?_⟩ <;> decide +kernel

/-! ## The request -/

/-- All three conversions succeed on the input, and the third one ends before
the input does, or at its width. -/
def ThirdTokenEnds (input : List Byte) : Prop :=
  ∃ method behindMethod url behindUrl protocol behindProtocol,
    scanWord 15 input = some (method, behindMethod) ∧
    scanWord 2047 behindMethod = some (url, behindUrl) ∧
    scanWord 15 behindUrl = some (protocol, behindProtocol) ∧
    (behindProtocol ≠ [] ∨ protocol.length = 15)

theorem scanWord_more {width : Nat} {input word rest : List Byte}
    (scanned : scanWord width input = some (word, rest)) (later : rest ≠ []) (back : List Byte) :
    scanWord width (input ++ back) = some (word, rest ++ back) :=
  scanWord_append_ended width input back word rest scanned (Or.inl later)

theorem sscanfRequest_ended (input stale : List Byte) (clean : 0 ∉ input)
    (ended : ThirdTokenEnds input) : sscanfRequest (input ++ stale) = sscanfRequest input := by
  obtain ⟨method, behindMethod, url, behindUrl, protocol, behindProtocol, first, second, third,
    closed⟩ := ended
  have moreMethod : behindMethod ≠ [] := by
    intro same
    subst same
    simp [scanWord_nothing] at second
  have moreUrl : behindUrl ≠ [] := by
    intro same
    subst same
    simp [scanWord_nothing] at third
  simp only [sscanfRequest, cstr_append_of_no_nul input stale clean, cstr_of_no_nul input clean,
    first, second, third, scanWord_more first moreMethod, scanWord_more second moreUrl,
    scanWord_append_ended 15 behindUrl (cstr stale) protocol behindProtocol third closed]

/-- A letter behind such an input changes the scan. -/
theorem sscanfRequest_unended (input : List Byte) (letter : Byte) (clean : 0 ∉ input)
    (visible : letter ≠ 0) (isLetter : isSpace letter = false)
    (unended : ¬ ThirdTokenEnds input) :
    sscanfRequest (input ++ [letter]) ≠ sscanfRequest input := by
  have cleanLetter : 0 ∉ input ++ [letter] := by
    rw [List.mem_append, List.mem_singleton]
    intro assumed
    rcases assumed with inInput | isNul
    · exact clean inInput
    · exact visible isNul.symm
  unfold sscanfRequest
  rw [cstr_of_no_nul _ cleanLetter, cstr_of_no_nul _ clean]
  rcases scanWord_letter 15 (by decide) input letter isLetter with
    ⟨before, after⟩ | ⟨method, before, after⟩ | ⟨method, behindMethod, _, first, after⟩
  · simp [before, after, scanWord_nothing]
  · simp [before, after, scanWord_nothing]
  rw [first, after]
  dsimp only
  rcases scanWord_letter 2047 (by decide) behindMethod letter isLetter with
    ⟨before, after⟩ | ⟨url, before, after⟩ | ⟨url, behindUrl, _, second, after⟩
  · simp [before, after, scanWord_nothing]
  · simp [before, after, scanWord_nothing]
  rw [second, after]
  dsimp only
  rcases scanWord_letter 15 (by decide) behindUrl letter isLetter with
    ⟨before, after⟩ | ⟨protocol, before, after⟩ | ⟨protocol, behindProtocol, closed, third, after⟩
  · simp [before, after]
  · simp [before, after]
  · exact absurd ⟨method, behindMethod, url, behindUrl, protocol, behindProtocol, first, second,
      third, closed⟩ unended

/-- The scanned request and the decision on it depend on the received bytes
only exactly when these contain a NUL or the end of the third token. -/
theorem request_independent_iff (received : Chunk) :
    (∀ stale stale' : List Byte,
      sscanfRequest (received.bytes ++ stale) = sscanfRequest (received.bytes ++ stale') ∧
        handleRequest (some received) stale = handleRequest (some received) stale') ↔
      0 ∈ received.bytes ∨ ThirdTokenEnds received.bytes := by
  constructor
  · intro same
    by_contra neither
    obtain ⟨clean, unended⟩ := not_or.mp neither
    have differ := sscanfRequest_unended received.bytes 65 clean (by decide) (by decide) unended
    obtain ⟨scan, _⟩ := same [65] []
    rw [List.append_nil] at scan
    exact differ scan
  · intro fixed stale stale'
    have scan : sscanfRequest (received.bytes ++ stale) =
        sscanfRequest (received.bytes ++ stale') := by
      by_cases nul : 0 ∈ received.bytes
      · simp only [sscanfRequest, cstr_append_of_nul _ _ nul]
      · have ended := fixed.resolve_left nul
        rw [sscanfRequest_ended _ stale nul ended, sscanfRequest_ended _ stale' nul ended]
    exact ⟨scan, by rw [handleRequest, handleRequest, scan]⟩

/-- A request that ends within its URL. -/
def cutRequest : Chunk := ⟨text "GET http://a/ind", by decide, by decide⟩

/-- With `ex HTTP/1.0` behind it, it is a request for another page than with `ia HTTP/1.0`. -/
theorem stale_request_key :
    handleRequest (some cutRequest) (text "ex HTTP/1.0") = .lookup (text "http://a/index") ∧
      handleRequest (some cutRequest) (text "ia HTTP/1.0") = .lookup (text "http://a/india") ∧
      text "http://a/index" ≠ text "http://a/india" := by
  refine ⟨?_, ?_, ?_⟩ <;> decide +kernel

end OsLabs.Proxy
