import OsLabs.Proxy.Download

/-!
# Which responses are cached without loss or duplication

With a zeroed `headerBuffer` the loop state is determined by the bytes copied
so far (`LoopState.holding`), and `loopBody_holding` is the loop body in these
terms.  Since `isChecked` stays 0 once the header has been found, every later
chunk is appended to `headerBuffer` again and everything behind the header is
inserted again; `body_kept_iff` says exactly when this does no harm.
-/

set_option autoImplicit false

namespace OsLabs.Proxy

open OsLabs.CString

def received (chunks : List Chunk) : List Byte := (chunks.map Chunk.bytes).flatten

@[simp] theorem received_nil : received [] = [] := rfl

@[simp] theorem received_cons (chunk : Chunk) (rest : List Chunk) :
    received (chunk :: rest) = chunk.bytes ++ received rest := rfl

/-- The loop state when exactly `seen` was copied into a zeroed `headerBuffer`. -/
def LoopState.holding (seen : List Byte) (isChecked : Bool) : LoopState :=
  ⟨seen ++ List.replicate (bufferSize - seen.length) 0, seen.length, isChecked⟩

theorem start_zeroed :
    LoopState.start (List.replicate bufferSize 0) = .holding [] false := rfl

/-- The part of a chunk that still goes into `headerBuffer`. -/
def kept (seen buffer : List Byte) : List Byte := buffer.take (bufferSize - 1 - seen.length)

def spilled (seen buffer : List Byte) : List Byte := buffer.drop (bufferSize - 1 - seen.length)

theorem kept_append_spilled (seen buffer : List Byte) :
    kept seen buffer ++ spilled seen buffer = buffer := List.take_append_drop _ _

theorem kept_room (seen buffer : List Byte) (room : seen.length ≤ bufferSize - 1) :
    (seen ++ kept seen buffer).length ≤ bufferSize - 1 := by
  rw [kept, List.length_append, List.length_take]
  omega

/-- No status line of a successful response anywhere in the header buffer. -/
def lacksOk (next : List Byte) : Bool :=
  (find http10Ok (cstr next)).isNone && (find http11Ok (cstr next)).isNone

theorem copyLength_eq (seen buffer : List Byte) (room : seen.length ≤ bufferSize - 1) :
    copyLength seen.length buffer.length = (kept seen buffer).length := by
  have inner : sizeSub bufferSize seen.length = bufferSize - seen.length :=
    sizeSub_of_le (by omega) (by decide)
  have outer : sizeSub (bufferSize - seen.length) 1 = bufferSize - seen.length - 1 := by
    have positive : 0 < bufferSize := by decide
    exact sizeSub_of_le (by omega) (Nat.sub_le _ _)
  rw [copyLength, inner, outer, kept, List.length_take]
  split <;> omega

theorem take_kept_length (seen buffer : List Byte) :
    buffer.take (kept seen buffer).length = kept seen buffer := by
  rw [kept, List.length_take, ← List.take_eq_take_min]

theorem drop_kept_length (seen buffer : List Byte) :
    buffer.drop (kept seen buffer).length = spilled seen buffer := by
  rw [kept, spilled, List.length_take]
  rcases Nat.le_total (bufferSize - 1 - seen.length) buffer.length with short | long
  · rw [Nat.min_eq_left short]
  · rw [Nat.min_eq_right long, List.drop_length, List.drop_eq_nil_of_le long]

theorem strstr_zeroed (next needle : List Byte) (room : Nat) :
    strstr (next ++ List.replicate room 0) needle = find needle (cstr next) := by
  rw [strstr, cstr_append_zeroed]

/-- The bytes behind the header as the loop body computes them. -/
theorem remaining_ranges (next stale buffer : List Byte) (headersEnd copied : Nat)
    (inside : headersEnd + 4 ≤ next.length) (bounded : next.length ≤ bufferSize - 1)
    (copiedLe : copied ≤ buffer.length) (small : buffer.length ≤ bufferSize) :
    (if 0 < sizeSub next.length (headersEnd + 4) then
        [readAt (next ++ stale) (headersEnd + 4)
          (sizeSub next.length (headersEnd + 4))] else []) ++
      (if 0 < sizeSub buffer.length copied then
        [readAt buffer copied (sizeSub buffer.length copied)] else []) =
      [next.drop (headersEnd + 4), buffer.drop copied].filter (fun range => !range.isEmpty) := by
  have frontSize : sizeSub next.length (headersEnd + 4) =
      (next.drop (headersEnd + 4)).length := by
    rw [sizeSub_of_le inside (by omega), List.length_drop]
  have backSize : sizeSub buffer.length copied = (buffer.drop copied).length := by
    rw [sizeSub_of_le copiedLe (by omega), List.length_drop]
  have front : readAt (next ++ stale) (headersEnd + 4)
      (next.drop (headersEnd + 4)).length = next.drop (headersEnd + 4) := by
    rw [readAt_append _ _ _ _ (by rw [List.length_drop]; omega), List.take_length]
  have back : readAt buffer copied (buffer.drop copied).length = buffer.drop copied := by
    rw [readAt_inside _ _ _ (by rw [List.length_drop]; omega), List.take_length]
  rw [frontSize, backSize, front, back]
  rcases next.drop (headersEnd + 4) with _ | ⟨byte, bytes⟩ <;>
    rcases buffer.drop copied with _ | ⟨byte', bytes'⟩ <;> simp

/-- The loop body in terms of the bytes seen so far. -/
theorem loopBody_holding (seen buffer : List Byte) (room : seen.length ≤ bufferSize - 1)
    (small : buffer.length ≤ bufferSize) :
    loopBody (.holding seen false) buffer =
      match find headerTerminator (cstr (seen ++ kept seen buffer)) with
      | some headersEnd =>
          if lacksOk (seen ++ kept seen buffer) then
            ⟨.holding (seen ++ kept seen buffer) false, [notOkResponse.take pointerSize], true⟩
          else
            ⟨.holding (seen ++ kept seen buffer) false,
              [(seen ++ kept seen buffer).drop (headersEnd + 4), spilled seen buffer].filter
                (fun range => !range.isEmpty), false⟩
      | none =>
          if bufferSize - 1 ≤ (seen ++ kept seen buffer).length then
            ⟨.holding (seen ++ kept seen buffer) false, [tooLargeResponse.take pointerSize], true⟩
          else ⟨.holding (seen ++ kept seen buffer) true, [], false⟩ := by
  have bounded := kept_room seen buffer room
  have copied : writeAt (seen ++ List.replicate (bufferSize - seen.length) 0) seen.length
      (kept seen buffer) =
      (seen ++ kept seen buffer) ++
        List.replicate (bufferSize - (seen ++ kept seen buffer).length) 0 := by
    rw [writeAt_zeroed, List.length_append, Nat.sub_sub]
  simp only [loopBody, LoopState.holding, Bool.false_eq_true, if_false,
    copyLength_eq seen buffer room, take_kept_length, copied, strstr_zeroed,
    ← List.length_append]
  cases found : find headerTerminator (cstr (seen ++ kept seen buffer)) with
  | none => rfl
  | some headersEnd =>
      have inString := find_bound _ _ _ found
      have inBuffer := (cstr_initial (seen ++ kept seen buffer)).length_le
      have inside : headersEnd + 4 ≤ (seen ++ kept seen buffer).length := by
        have terminatorLength : headerTerminator.length = 4 := by decide
        omega
      have keptLe : (kept seen buffer).length ≤ buffer.length := by
        rw [kept, List.length_take]
        omega
      simp only [remaining_ranges _ _ buffer headersEnd _ inside bounded keptLe small,
        drop_kept_length]
      rfl

/-! ## Behind the header -/

/-- A successful status line, and no CRLF CRLF before the one after `head`. -/
structure OkHeader (head body : List Byte) : Prop where
  statusLine : upTo crlf (head ++ headerTerminator ++ body) = http10Ok ∨
    upTo crlf (head ++ headerTerminator ++ body) = http11Ok
  firstTerminator : find headerTerminator (head ++ headerTerminator ++ body) = some head.length

/-- A response with such a header, short enough for the header buffer, as
`recv` delivers it. -/
structure OkResponse (head body : List Byte) (chunks : List Chunk) : Prop
    extends OkHeader head body where
  fits : head.length + 4 ≤ bufferSize - 1
  delivered : received chunks = head ++ headerTerminator ++ body

theorem terminator_length : headerTerminator.length = 4 := rfl

theorem loopRanges_checked (chunks : List Chunk) (state : LoopState)
    (checked : state.isChecked = true) :
    (loopRanges chunks state).flatten = received chunks := by
  induction chunks with
  | nil => rfl
  | cons chunk rest ih => simp [loopRanges, loopBody, checked, ih]

section Response

variable {head body : List Byte}

/-- The search in any header buffer that holds the whole header. -/
theorem terminator_found (tail : List Byte) (clean : 0 ∉ head) (header : OkHeader head body) :
    find headerTerminator (cstr (head ++ headerTerminator ++ tail)) = some head.length := by
  have cleanHeader : 0 ∉ head ++ headerTerminator := by
    rw [List.mem_append]
    intro assumed
    rcases assumed with inHead | inTerminator
    · exact clean inHead
    · exact absurd inTerminator (by decide)
  have inHeader : find headerTerminator (head ++ headerTerminator) = some head.length := by
    rw [find_initial headerTerminator (List.prefix_append _ body) head.length
        header.firstTerminator,
      if_pos (by rw [List.length_append])]
  rw [cstr_append_of_no_nul _ tail cleanHeader]
  exact find_extend headerTerminator (List.prefix_append _ _) head.length inHeader

/-- The search in a header buffer whose string ends before the terminator does. -/
theorem terminator_missing {next : List Byte} (header : OkHeader head body)
    (initial : next <+: head ++ headerTerminator ++ body)
    (short : (cstr next).length < head.length + 4) :
    find headerTerminator (cstr next) = none := by
  rw [find_initial headerTerminator ((cstr_initial next).trans initial) head.length
    header.firstTerminator,
    if_neg (by rw [terminator_length]; omega)]

theorem upTo_crlf_in_head {line : List Byte}
    (statusLine : upTo crlf (head ++ headerTerminator ++ body) = line) :
    line <+: head := by
  have lineFirst : line <+: head ++ headerTerminator ++ body := by
    rw [← statusLine]
    exact upTo_initial crlf _
  have occurs : crlf <+: (head ++ headerTerminator ++ body).drop head.length := by
    rw [List.append_assoc, List.drop_left]
    exact ⟨crlf ++ body, rfl⟩
  have within : line.length ≤ head.length := by
    unfold upTo at statusLine
    cases found : find crlf (head ++ headerTerminator ++ body) with
    | none =>
        have absent := (find_eq_none_iff crlf _).mp found head.length
        exact absurd occurs (absent (by rw [List.length_append, List.length_append]; omega))
    | some position =>
        rw [found] at statusLine
        obtain ⟨_, _, earliest⟩ := (find_eq_some_iff crlf _ position).mp found
        have before : position ≤ head.length := by
          by_contra later
          exact earliest head.length (by omega) occurs
        rw [← statusLine, List.length_take]
        omega
  rw [List.append_assoc] at lineFirst
  exact List.prefix_of_prefix_length_le lineFirst (List.prefix_append _ _) within

theorem status_found (tail : List Byte) (clean : 0 ∉ head) (header : OkHeader head body) :
    lacksOk (head ++ headerTerminator ++ tail) = false := by
  have front : head <+: cstr (head ++ headerTerminator ++ tail) := by
    rw [List.append_assoc, cstr_append_of_no_nul _ _ clean]
    exact List.prefix_append _ _
  rcases header.statusLine with http10 | http11
  · have inHead := upTo_crlf_in_head http10
    rw [lacksOk, find_of_occurs_first _ _ (inHead.trans front)]
    rfl
  · have inHead := upTo_crlf_in_head http11
    rw [lacksOk, find_of_occurs_first _ _ (inHead.trans front), Bool.and_comm]
    rfl

/-- One pass of the loop once the header buffer holds the whole header and
`tail`: everything behind the header is inserted, then what did not fit. -/
theorem loopBody_found (tail buffer : List Byte) (clean : 0 ∉ head) (header : OkHeader head body)
    (seen : List Byte) (room : seen.length ≤ bufferSize - 1)
    (small : buffer.length ≤ bufferSize)
    (holds : seen ++ kept seen buffer = head ++ headerTerminator ++ tail) :
    loopBody (.holding seen false) buffer =
      ⟨.holding (head ++ headerTerminator ++ tail) false,
        [tail, spilled seen buffer].filter (fun range => !range.isEmpty), false⟩ := by
  have behind : (head ++ headerTerminator ++ tail).drop (head.length + 4) = tail := by
    rw [← terminator_length, ← List.length_append, List.drop_left]
  rw [loopBody_holding seen buffer room small, holds, terminator_found tail clean header]
  simp only [status_found tail clean header, behind, Bool.false_eq_true, if_false]

theorem loopRanges_found (tail : List Byte) (chunk : Chunk) (rest : List Chunk)
    (clean : 0 ∉ head) (header : OkHeader head body)
    (seen : List Byte) (room : seen.length ≤ bufferSize - 1)
    (holds : seen ++ kept seen chunk.bytes = head ++ headerTerminator ++ tail) :
    (loopRanges (chunk :: rest) (.holding seen false)).flatten =
      tail ++ spilled seen chunk.bytes ++
        (loopRanges rest (.holding (head ++ headerTerminator ++ tail) false)).flatten := by
  simp only [loopRanges, loopBody_found tail chunk.bytes clean header seen room
    chunk.bounded holds, Bool.false_eq_true, if_false, List.flatten_append,
    List.flatten_filter_not_isEmpty]
  simp

/-- From the second chunk on: what is behind the header is inserted once more
before the chunk, and it grows by the part of the chunk that is copied. -/
theorem loopRanges_again (tail : List Byte) (chunk : Chunk) (rest : List Chunk)
    (clean : 0 ∉ head) (header : OkHeader head body)
    (room : (head ++ headerTerminator ++ tail).length ≤ bufferSize - 1) :
    (loopRanges (chunk :: rest) (.holding (head ++ headerTerminator ++ tail) false)).flatten =
      tail ++ chunk.bytes ++
        (loopRanges rest (.holding (head ++ headerTerminator ++
          (tail ++ kept (head ++ headerTerminator ++ tail) chunk.bytes)) false)).flatten := by
  rw [loopRanges_found (tail ++ kept (head ++ headerTerminator ++ tail) chunk.bytes) chunk rest
    clean header _ room (List.append_assoc _ _ _)]
  rw [List.append_assoc tail, kept_append_spilled]

theorem loopRanges_length_ge (tail : List Byte) (chunks : List Chunk) (clean : 0 ∉ head)
    (header : OkHeader head body)
    (room : (head ++ headerTerminator ++ tail).length ≤ bufferSize - 1) :
    (received chunks).length + (if chunks = [] then 0 else tail.length) ≤
      (loopRanges chunks (.holding (head ++ headerTerminator ++ tail) false)).flatten.length := by
  induction chunks generalizing tail with
  | nil => simp
  | cons chunk rest ih =>
      have grown := kept_room _ chunk.bytes room
      rw [List.append_assoc (head ++ headerTerminator)] at grown
      have later := ih _ grown
      rw [loopRanges_again tail chunk rest clean header room]
      simp only [received_cons, List.length_append, if_neg (List.cons_ne_nil chunk rest)] at later ⊢
      omega

/-- A header that fills the header buffer leaves no room for duplicates. -/
theorem loopRanges_full (chunks : List Chunk) (clean : 0 ∉ head) (header : OkHeader head body)
    (full : head.length + 4 = bufferSize - 1) :
    (loopRanges chunks (.holding (head ++ headerTerminator) false)).flatten = received chunks := by
  have filled : (head ++ headerTerminator).length = bufferSize - 1 := by
    rw [List.length_append, terminator_length, full]
  induction chunks with
  | nil => rfl
  | cons chunk rest ih =>
      have again := loopRanges_again [] chunk rest clean header
        (by rw [List.append_nil, filled])
      have nothing : kept (head ++ headerTerminator) chunk.bytes = [] := by
        rw [kept, filled, Nat.sub_self, List.take_zero]
      simp only [List.append_nil, List.nil_append, nothing, ih] at again
      rw [again, received_cons]

/-- The chunks after the one that completed the header are inserted exactly
when there is no occasion to insert anything twice. -/
theorem loopRanges_exact_iff (tail : List Byte) (chunks : List Chunk) (clean : 0 ∉ head)
    (header : OkHeader head body)
    (room : (head ++ headerTerminator ++ tail).length ≤ bufferSize - 1) :
    (loopRanges chunks (.holding (head ++ headerTerminator ++ tail) false)).flatten =
        received chunks ↔
      chunks = [] ∨ tail = [] ∧ (head.length + 4 = bufferSize - 1 ∨ chunks.length = 1) := by
  constructor
  · intro same
    have longer := loopRanges_length_ge tail chunks clean header room
    rw [same] at longer
    cases chunks with
    | nil => exact Or.inl rfl
    | cons chunk rest =>
        rw [if_neg (List.cons_ne_nil chunk rest)] at longer
        have noTail : tail = [] := List.eq_nil_of_length_eq_zero (by omega)
        subst tail
        refine Or.inr ⟨rfl, ?_⟩
        by_contra neither
        rw [not_or] at neither
        rw [loopRanges_again [] chunk rest clean header room] at same
        have grown := kept_room _ chunk.bytes room
        rw [List.append_assoc (head ++ headerTerminator)] at grown
        have later := loopRanges_length_ge _ rest clean header grown
        have lengths := congrArg List.length same
        have nonempty := List.length_pos_iff.mpr chunk.nonempty
        have more : rest ≠ [] := by
          intro none
          exact neither.2 (by rw [none]; rfl)
        simp only [if_neg more, received_cons, List.length_append, List.nil_append,
          List.append_nil, kept, List.length_take, terminator_length] at later lengths room
        omega
  · intro assumed
    rcases assumed with none | ⟨noTail, full | one⟩
    · subst chunks
      rfl
    · subst tail
      rw [List.append_nil]
      exact loopRanges_full chunks clean header full
    · subst tail
      obtain ⟨chunk, only⟩ := List.length_eq_one_iff.mp one
      subst chunks
      rw [loopRanges_again [] chunk [] clean header room]
      simp [loopRanges]

/-- The first chunk does not complete the header in the eyes of `strstr`: it
ends too early, or a NUL in the header hides the rest. -/
theorem loopRanges_missed (chunk : Chunk) (rest : List Chunk) (header : OkHeader head body)
    (delivered : received (chunk :: rest) = head ++ headerTerminator ++ body)
    (missed : 0 ∈ head ∨ chunk.bytes.length < head.length + 4) :
    (loopRanges (chunk :: rest) (.holding [] false)).flatten =
      if bufferSize - 1 ≤ chunk.bytes.length then tooLargeResponse.take pointerSize
      else received rest := by
  have initial : kept [] chunk.bytes <+: head ++ headerTerminator ++ body := by
    rw [← delivered, received_cons]
    exact (List.take_prefix _ _).trans (List.prefix_append _ _)
  have short : (cstr (kept [] chunk.bytes)).length < head.length + 4 := by
    rcases missed with nul | early
    · obtain ⟨behind, whole⟩ := initial
      have inHead := cstr_length_lt_of_nul head (headerTerminator ++ body) nul
      rw [← List.append_assoc, ← whole] at inHead
      have smaller := ((cstr_initial (kept [] chunk.bytes ++ behind)).length_le)
      by_cases nulHere : 0 ∈ kept [] chunk.bytes
      · rw [cstr_append_of_nul _ _ nulHere] at inHead
        omega
      · rw [cstr_append_of_no_nul _ _ nulHere, List.length_append] at inHead
        have bounded := (cstr_initial (kept [] chunk.bytes)).length_le
        omega
    · have bounded := (cstr_initial (kept [] chunk.bytes)).length_le
      have shorter := (List.take_prefix (bufferSize - 1 - ([] : List Byte).length)
        chunk.bytes).length_le
      exact Nat.lt_of_le_of_lt (bounded.trans shorter) early
  have pass := loopBody_holding [] chunk.bytes (Nat.zero_le _) chunk.bounded
  rw [List.nil_append, terminator_missing header initial short] at pass
  have size : bufferSize - 1 ≤ (kept [] chunk.bytes).length ↔
      bufferSize - 1 ≤ chunk.bytes.length := by
    rw [kept, List.length_take, List.length_nil, Nat.sub_zero]
    omega
  by_cases large : bufferSize - 1 ≤ chunk.bytes.length
  · simp [loopRanges, pass, size, large]
  · simp only [size, if_neg large] at pass
    simpa [loopRanges, pass, large] using loopRanges_checked rest _ rfl

end Response

/-! ## The exact condition -/

/-- The body is kept iff the first chunk completes the header and afterwards
nothing behind the header can be inserted twice.  With a NUL in the header the
search never succeeds, and the body is kept only if the first chunk is exactly
the header, or by coincidence with the text of the error reply. -/
def KeepsBody (head body : List Byte) : List Chunk → Prop
  | [] => False
  | chunk :: rest =>
      if 0 ∈ head then
        (chunk.bytes.length = head.length + 4 ∧ head.length + 4 < bufferSize - 1) ∨
          (bufferSize - 1 ≤ chunk.bytes.length ∧ body = tooLargeResponse.take pointerSize)
      else
        head.length + 4 ≤ chunk.bytes.length ∧
          (rest = [] ∨ head.length + 4 = bufferSize - 1 ∨
            (chunk.bytes.length = head.length + 4 ∧ rest.length = 1))

section Response

variable {head body : List Byte}

theorem kept_iff_missed (chunk : Chunk) (rest : List Chunk)
    (response : OkResponse head body (chunk :: rest))
    (missed : 0 ∈ head ∨ chunk.bytes.length < head.length + 4) :
    (loopRanges (chunk :: rest) (.holding [] false)).flatten = body ↔
      KeepsBody head body (chunk :: rest) := by
  have delivered := response.delivered
  have lengths := congrArg List.length delivered
  simp only [received_cons, List.length_append, terminator_length] at lengths
  have atHeader : chunk.bytes.length = head.length + 4 ↔ received rest = body := by
    constructor
    · intro exactly
      rw [received_cons] at delivered
      exact (List.append_inj' delivered (by omega)).2
    · intro same
      rw [same] at lengths
      omega
  have fits := response.fits
  rw [loopRanges_missed chunk rest response.toOkHeader delivered missed]
  by_cases large : bufferSize - 1 ≤ chunk.bytes.length
  · have nul : 0 ∈ head := missed.resolve_right (by omega)
    simp only [KeepsBody, if_pos nul, large, if_true, true_and]
    constructor
    · intro same
      exact Or.inr same.symm
    · intro assumed
      rcases assumed with ⟨exactly, smaller⟩ | same
      · omega
      · exact same.symm
  · rw [if_neg large, ← atHeader]
    by_cases nul : 0 ∈ head
    · simp only [KeepsBody, if_pos nul, large, false_and, or_false]
      constructor
      · intro exactly
        exact ⟨exactly, by omega⟩
      · exact And.left
    · have early := missed.resolve_left nul
      simp only [KeepsBody, if_neg nul]
      constructor
      · intro exactly
        omega
      · intro assumed
        obtain ⟨complete, _⟩ := assumed
        omega

theorem kept_iff_found (chunk : Chunk) (rest : List Chunk)
    (response : OkResponse head body (chunk :: rest)) (clean : 0 ∉ head)
    (complete : head.length + 4 ≤ chunk.bytes.length) :
    (loopRanges (chunk :: rest) (.holding [] false)).flatten = body ↔
      KeepsBody head body (chunk :: rest) := by
  have delivered := response.delivered
  have fits := response.fits
  rw [received_cons] at delivered
  -- the copied part of the first chunk is the header and some first part of the body
  obtain ⟨tail, holds⟩ : head ++ headerTerminator <+: kept [] chunk.bytes := by
    have headerFirst : head ++ headerTerminator <+: chunk.bytes := by
      apply List.prefix_of_prefix_length_le (List.prefix_append _ body)
      · rw [← delivered]
        exact List.prefix_append _ _
      · rw [List.length_append, terminator_length]
        exact complete
    apply List.prefix_of_prefix_length_le headerFirst (List.take_prefix _ _)
    rw [List.length_append, terminator_length, List.length_take, List.length_nil]
    omega
  have rejoined := kept_append_spilled [] chunk.bytes
  rw [← holds] at rejoined
  have behind : body = tail ++ spilled [] chunk.bytes ++ received rest := by
    rw [← rejoined, List.append_assoc, List.append_assoc] at delivered
    rw [List.append_assoc]
    exact (List.append_cancel_left delivered).symm
  have room := kept_room [] chunk.bytes (Nat.zero_le _)
  rw [List.nil_append, ← holds] at room
  rw [loopRanges_found tail chunk rest clean response.toOkHeader [] (Nat.zero_le _)
    (by rw [List.nil_append, holds]), behind, List.append_cancel_left_eq,
    loopRanges_exact_iff tail rest clean response.toOkHeader room]
  have size : (head ++ headerTerminator ++ tail).length =
      min (bufferSize - 1) chunk.bytes.length := by
    rw [holds, kept, List.length_take, List.length_nil, Nat.sub_zero]
  have tailEmpty : tail = [] ↔
      head.length + 4 = bufferSize - 1 ∨ chunk.bytes.length = head.length + 4 := by
    rw [← List.length_eq_zero_iff]
    simp only [List.length_append, terminator_length] at size
    omega
  simp only [KeepsBody, if_neg clean, complete, true_and, tailEmpty]
  tauto

end Response

/-- The cached body equals the body that was sent, exactly under `KeepsBody`. -/
theorem body_kept_iff (url : List Byte) (now : Int) (next : Option Addr)
    (head body : List Byte) (chunks : List Chunk) (response : OkResponse head body chunks) :
    ((downloadData (fun _ => true) (List.replicate bufferSize 0) (newEntry url now next)
          chunks .endOfStream).entry.isComplete = true ∧
      (downloadData (fun _ => true) (List.replicate bufferSize 0) (newEntry url now next)
          chunks .endOfStream).entry.content = body) ↔
      KeepsBody head body chunks := by
  rw [downloadData_isComplete, downloadData_content, CacheEntry.newEntry_content,
    List.nil_append, stored_of_ok _ _ _ (fun _ _ => rfl), start_zeroed]
  simp only [true_and]
  cases chunks with
  | nil =>
      have lengths := congrArg List.length response.delivered
      simp only [received_nil, List.length_nil, List.length_append, terminator_length] at lengths
      omega
  | cons chunk rest =>
      by_cases missed : 0 ∈ head ∨ chunk.bytes.length < head.length + 4
      · exact kept_iff_missed chunk rest response missed
      · rw [not_or, Nat.not_lt] at missed
        exact kept_iff_found chunk rest response missed.1 missed.2

/-- The body `ab` in one chunk with its header. -/
def inOneChunk : List Chunk := [⟨text "HTTP/1.0 200 OK\r\n\r\nab", by decide, by decide⟩]

theorem body_kept_single :
    (downloadData (fun _ => true) (List.replicate bufferSize 0)
        (newEntry (text "http://a/") 0 none) inOneChunk .endOfStream).entry.isComplete = true ∧
      (downloadData (fun _ => true) (List.replicate bufferSize 0)
        (newEntry (text "http://a/") 0 none) inOneChunk .endOfStream).entry.content =
          text "ab" := by
  have response : OkResponse (text "HTTP/1.0 200 OK") (text "ab") inOneChunk :=
    ⟨⟨Or.inl rfl, by decide⟩, by decide, rfl⟩
  apply (body_kept_iff _ 0 none (text "HTTP/1.0 200 OK") (text "ab") _ response).mpr
  rw [inOneChunk, KeepsBody, if_neg (by decide)]
  exact ⟨by decide, Or.inl rfl⟩

/-- The same response, cut before its last byte. -/
def inTwoChunks : List Chunk :=
  [⟨text "HTTP/1.0 200 OK\r\n\r\na", by decide, by decide⟩, ⟨text "b", by decide, by decide⟩]

/-- The first body byte is cached twice. -/
theorem body_duplicated :
    OkResponse (text "HTTP/1.0 200 OK") (text "ab") inTwoChunks ∧
      (downloadData (fun _ => true) (List.replicate bufferSize 0)
        (newEntry (text "http://a/") 0 none) inTwoChunks .endOfStream).entry.isComplete = true ∧
      (downloadData (fun _ => true) (List.replicate bufferSize 0)
        (newEntry (text "http://a/") 0 none) inTwoChunks .endOfStream).entry.content =
          text "aab" ∧
      text "aab" ≠ text "ab" := by
  refine ⟨⟨⟨Or.inl rfl, by decide⟩, by decide, rfl⟩, rfl, ?_, by decide⟩
  decide +kernel

end OsLabs.Proxy
