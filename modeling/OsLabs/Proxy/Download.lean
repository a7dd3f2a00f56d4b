import OsLabs.Proxy.Entry

/-!
# The receive loop of downloadData

Lines 216 to 277 of `downloadData`: the loop over the chunks that `recv`
returns, and the completion mark after it.  One pass of the loop body is
`loopBody`; it decides which byte ranges go to `cacheInsertData` and whether
the loop is left.  Whether an insertion succeeds never feeds back into the
loop, so `loopRanges` gives the inserted ranges for every allocation pattern.
-/

set_option autoImplicit false

namespace OsLabs.Proxy

open OsLabs.CString

/-- `sizeof(errorResponse)` for a `const char*`. -/
def pointerSize : Nat := 8

def crlf : List Byte := text "\r\n"

def headerTerminator : List Byte := text "\r\n\r\n"

def http10Ok : List Byte := text "HTTP/1.0 200 OK"

def http11Ok : List Byte := text "HTTP/1.1 200 OK"

def notOkResponse : List Byte :=
  text "HTTP/1.1 502 Bad Gateway\r\nContent-Type: text/plain\r\nContent-Length: 43\r\n\r\nError: Received non-200 response from server"

def tooLargeResponse : List Byte :=
  text "HTTP/1.1 502 Bad Gateway\r\nContent-Type: text/plain\r\nContent-Length: 35\r\n\r\nError: Response headers too large"

/-- Both error replies are cut off after their protocol version. -/
theorem notOkResponse_initial : notOkResponse.take pointerSize = text "HTTP/1.1" := by
  decide +kernel

theorem tooLargeResponse_initial : tooLargeResponse.take pointerSize = text "HTTP/1.1" := by
  decide +kernel

/-- How the sequence of `recv` results ends: 0 or -1. -/
inductive RecvEnd where
  | endOfStream
  | error
  deriving DecidableEq

structure LoopState where
  headerBuffer : List Byte
  headerLength : Nat
  isChecked : Bool

/-- The variables before the first `recv`; `headerBuffer` is not initialised. -/
def LoopState.start (headerBuffer : List Byte) : LoopState := ⟨headerBuffer, 0, false⟩

structure Iteration where
  state : LoopState
  ranges : List (List Byte)
  leaves : Bool

/-- `copyLength`: the room left in `headerBuffer`, or the chunk when it is shorter. -/
def copyLength (headerLength bytesReceived : Nat) : Nat :=
  let room := sizeSub (sizeSub bufferSize headerLength) 1
  if bytesReceived < room then bytesReceived else room

def loopBody (state : LoopState) (buffer : List Byte) : Iteration :=
  if state.isChecked then ⟨state, [buffer], false⟩
  else
    let copied := copyLength state.headerLength buffer.length
    let headerBuffer := writeAt state.headerBuffer state.headerLength (buffer.take copied)
    let headerLength := state.headerLength + copied
    match strstr headerBuffer headerTerminator with
    | some headersEnd =>
        if (strstr headerBuffer http10Ok).isNone && (strstr headerBuffer http11Ok).isNone then
          ⟨⟨headerBuffer, headerLength, false⟩, [notOkResponse.take pointerSize], true⟩
        else
          let headersSize := headersEnd + 4
          let remainingBytes := sizeSub headerLength headersSize
          let dataOffset := sizeSub buffer.length copied
          -- the assignment `isChecked = 1` is commented out here
          ⟨⟨headerBuffer, headerLength, false⟩,
            (if 0 < remainingBytes then [readAt headerBuffer headersSize remainingBytes] else []) ++
              (if 0 < dataOffset then [readAt buffer copied dataOffset] else []), false⟩
    | none =>
        if bufferSize - 1 ≤ headerLength then
          ⟨⟨headerBuffer, headerLength, false⟩, [tooLargeResponse.take pointerSize], true⟩
        else ⟨⟨headerBuffer, headerLength, true⟩, [], false⟩

inductive LoopExit where
  | endOfStream
  | recvError
  | broke
  deriving DecidableEq

def RecvEnd.exit : RecvEnd → LoopExit
  | .endOfStream => .endOfStream
  | .error => .recvError

/-- The entry, and the ranges passed to `cacheInsertData` so far. -/
structure Progress where
  entry : CacheEntry
  ranges : List (List Byte)

/-- One call of `cacheInsertData`; `reallocOk` answers the calls in order. -/
def Progress.insert (reallocOk : Nat → Bool) (progress : Progress) (range : List Byte) :
    Progress where
  entry := progress.entry.cacheInsertData (reallocOk progress.ranges.length) range
  ranges := progress.ranges ++ [range]

def receiveLoop (reallocOk : Nat → Bool) (ending : RecvEnd) :
    List Chunk → LoopState → Progress → Progress × LoopExit
  | [], _, progress => (progress, ending.exit)
  | chunk :: rest, state, progress =>
      let iteration := loopBody state chunk.bytes
      let inserted := iteration.ranges.foldl (Progress.insert reallocOk) progress
      if iteration.leaves then (inserted, .broke)
      else receiveLoop reallocOk ending rest iteration.state inserted

structure Downloaded where
  entry : CacheEntry
  ranges : List (List Byte)
  exit : LoopExit

/-- `downloadData` from its receive buffers on, on a connected socket. -/
def downloadData (reallocOk : Nat → Bool) (headerBuffer : List Byte) (entry : CacheEntry)
    (chunks : List Chunk) (ending : RecvEnd) : Downloaded :=
  let (progress, exit) := receiveLoop reallocOk ending chunks (.start headerBuffer) ⟨entry, []⟩
  ⟨progress.entry.cacheMarkComplete, progress.ranges, exit⟩

/-! ## The inserted ranges -/

/-- The ranges the loop passes to `cacheInsertData`. -/
def loopRanges : List Chunk → LoopState → List (List Byte)
  | [], _ => []
  | chunk :: rest, state =>
      let iteration := loopBody state chunk.bytes
      if iteration.leaves then iteration.ranges
      else iteration.ranges ++ loopRanges rest iteration.state

/-- Some pass of the loop body reaches a `break`. -/
def Breaks (state : LoopState) (chunks : List Chunk) : Prop :=
  ∃ before chunk after, chunks = before ++ chunk :: after ∧
    (loopBody (before.foldl (fun s c => (loopBody s c.bytes).state) state) chunk.bytes).leaves = true

theorem insertAll_ranges (reallocOk : Nat → Bool) (ranges : List (List Byte))
    (progress : Progress) :
    (ranges.foldl (Progress.insert reallocOk) progress).ranges = progress.ranges ++ ranges := by
  induction ranges generalizing progress with
  | nil => simp
  | cons range rest ih =>
      rw [List.foldl_cons, ih]
      simp [Progress.insert]

theorem receiveLoop_ranges (reallocOk : Nat → Bool) (ending : RecvEnd) (chunks : List Chunk)
    (state : LoopState) (progress : Progress) :
    (receiveLoop reallocOk ending chunks state progress).1.ranges =
      progress.ranges ++ loopRanges chunks state := by
  induction chunks generalizing state progress with
  | nil => simp [receiveLoop, loopRanges]
  | cons chunk rest ih =>
      simp only [receiveLoop, loopRanges]
      split
      · exact insertAll_ranges reallocOk _ progress
      · rw [ih, insertAll_ranges, List.append_assoc]

theorem downloadData_ranges (reallocOk : Nat → Bool) (headerBuffer : List Byte)
    (entry : CacheEntry) (chunks : List Chunk) (ending : RecvEnd) :
    (downloadData reallocOk headerBuffer entry chunks ending).ranges =
      loopRanges chunks (.start headerBuffer) := by
  simp [downloadData, receiveLoop_ranges]

/-- What the insertions from a given call on leave in the entry. -/
def stored (reallocOk : Nat → Bool) : Nat → List (List Byte) → List Byte
  | _, [] => []
  | call, range :: rest =>
      (if reallocOk call then range else []) ++ stored reallocOk (call + 1) rest

theorem stored_append (reallocOk : Nat → Bool) (call : Nat) (front back : List (List Byte)) :
    stored reallocOk call (front ++ back) =
      stored reallocOk call front ++ stored reallocOk (call + front.length) back := by
  induction front generalizing call with
  | nil => simp [stored]
  | cons range rest ih =>
      simp only [List.cons_append, stored, ih, List.append_assoc, List.length_cons]
      rw [Nat.add_assoc, Nat.add_comm 1]

theorem insertAll_content (reallocOk : Nat → Bool) (ranges : List (List Byte))
    (progress : Progress) :
    (ranges.foldl (Progress.insert reallocOk) progress).entry.content =
      progress.entry.content ++ stored reallocOk progress.ranges.length ranges := by
  induction ranges generalizing progress with
  | nil => simp [stored]
  | cons range rest ih =>
      rw [List.foldl_cons, ih, stored, ← List.append_assoc]
      simp only [Progress.insert, CacheEntry.cacheInsertData_content, List.length_append,
        List.length_singleton]

theorem receiveLoop_content (reallocOk : Nat → Bool) (ending : RecvEnd) (chunks : List Chunk)
    (state : LoopState) (progress : Progress) :
    (receiveLoop reallocOk ending chunks state progress).1.entry.content =
      progress.entry.content ++
        stored reallocOk progress.ranges.length (loopRanges chunks state) := by
  induction chunks generalizing state progress with
  | nil => simp [receiveLoop, loopRanges, stored]
  | cons chunk rest ih =>
      simp only [receiveLoop, loopRanges]
      split
      · exact insertAll_content reallocOk _ progress
      · rw [ih, insertAll_content, insertAll_ranges, stored_append, List.length_append,
          List.append_assoc]

/-- The cached bytes, for every pattern of allocation failures. -/
theorem downloadData_content (reallocOk : Nat → Bool) (headerBuffer : List Byte)
    (entry : CacheEntry) (chunks : List Chunk) (ending : RecvEnd) :
    (downloadData reallocOk headerBuffer entry chunks ending).entry.content =
      entry.content ++ stored reallocOk 0 (loopRanges chunks (.start headerBuffer)) :=
  receiveLoop_content reallocOk ending chunks (.start headerBuffer) ⟨entry, []⟩

theorem stored_of_ok (reallocOk : Nat → Bool) (call : Nat) (ranges : List (List Byte))
    (ok : ∀ offset < ranges.length, reallocOk (call + offset) = true) :
    stored reallocOk call ranges = ranges.flatten := by
  induction ranges generalizing call with
  | nil => rfl
  | cons range rest ih =>
      have here : reallocOk call = true := ok 0 (by simp)
      have later := ih (call + 1) (fun offset below => by
        have next := ok (offset + 1) (by simpa using below)
        rwa [Nat.add_comm offset, ← Nat.add_assoc] at next)
      simp only [stored, here, if_true, later, List.flatten_cons]

theorem downloadData_isComplete (reallocOk : Nat → Bool) (headerBuffer : List Byte)
    (entry : CacheEntry) (chunks : List Chunk) (ending : RecvEnd) :
    (downloadData reallocOk headerBuffer entry chunks ending).entry.isComplete = true := rfl

end OsLabs.Proxy
