import OsLabs.Lib.CString
import Mathlib.Algebra.Group.Nat.Defs

/-!
# The TCP echo server

`connectionHandler` of `lab7/tcp/server.c`.  A chunk is received by its length
and sent back as a string: `printf` and `strlen` look at `clientReply` up to
the first NUL, `write` sends what is in front of it.  The buffer is zeroed
before each `recv`, so nothing of an earlier chunk is sent; a chunk that holds
a zero byte is cut, and behind a chunk that fills the buffer there is no NUL.
-/

set_option autoImplicit false

namespace OsLabs.Tcp

open OsLabs.CString

/-- BUFFER_SIZE -/
def bufferSize : Nat := 512

/-- What a pass of the loop finds: the bytes `recv` stores, the stack behind
`clientReply` and the global `isFinished`. -/
structure Receive where
  bytes : List Byte
  behind : List Byte
  isFinished : Bool
  nonempty : bytes ≠ []
  fits : bytes.length ≤ bufferSize

/-- What the pass does: the bytes written back, and up to where it looks at
memory from `clientReply` on. -/
structure Pass where
  received : List Byte
  sent : List Byte
  looked : Nat

/-- A count stored in an `int`. -/
def asInt (count : Nat) : Int := Int.bmod count (2 ^ 32)

def zeroed : List Byte := List.replicate bufferSize 0

/-- The loop; at the end of the list `recv` returns 0. -/
def receiveLoop (clientReply : List Byte) : List Receive → List Pass
  | [] => []
  | receive :: rest =>
      if receive.isFinished then []
      else
        let reply := cstr (writeAt clientReply 0 receive.bytes ++ receive.behind)
        let w := asInt reply.length
        ⟨receive.bytes, reply, reply.length + 1⟩ ::
          -- "Error write", break
          if w ≤ 0 then [] else receiveLoop zeroed rest

def connectionHandler (receives : List Receive) : List Pass := receiveLoop zeroed receives

/-- The stream of the client. -/
def stream (receives : List Receive) : List Byte := (receives.map Receive.bytes).flatten

def writtenBack (receives : List Receive) : List Byte :=
  ((connectionHandler receives).map Pass.sent).flatten

/-- No byte outside the received part of `clientReply` is looked at. -/
def Pass.InReceived (pass : Pass) : Prop := pass.looked ≤ pass.received.length

/-- No byte is looked at but the received part and one behind it in the buffer. -/
def Pass.InTerminated (pass : Pass) : Prop :=
  pass.looked ≤ pass.received.length + 1 ∧ pass.looked ≤ bufferSize

/-- A chunk that is a string of the buffer. -/
def Receive.IsString (receive : Receive) : Prop :=
  receive.isFinished = false ∧ 0 ∉ receive.bytes ∧ receive.bytes.length < bufferSize

@[simp] theorem stream_cons (receive : Receive) (rest : List Receive) :
    stream (receive :: rest) = receive.bytes ++ stream rest := rfl

theorem Receive.positive (receive : Receive) : 0 < receive.bytes.length :=
  List.length_pos_of_ne_nil receive.nonempty

theorem asInt_small (count : Nat) (small : count ≤ bufferSize) : asInt count = count := by
  rw [bufferSize] at small
  exact Int.bmod_eq_of_le (by omega) (by omega)

/-- The string a pass finds in its buffer. -/
def Receive.reply (receive : Receive) : List Byte :=
  cstr (receive.bytes ++ (List.replicate (bufferSize - receive.bytes.length) 0 ++ receive.behind))

theorem receiveLoop_cons (receive : Receive) (rest : List Receive)
    (serving : receive.isFinished = false) :
    connectionHandler (receive :: rest) =
      ⟨receive.bytes, receive.reply, receive.reply.length + 1⟩ ::
        if asInt receive.reply.length ≤ 0 then [] else connectionHandler rest := by
  have stored : writeAt zeroed 0 receive.bytes =
      receive.bytes ++ List.replicate (bufferSize - receive.bytes.length) 0 :=
    writeAt_zeroed [] receive.bytes bufferSize
  simp only [connectionHandler, receiveLoop, serving, Bool.false_eq_true, if_false, stored,
    List.append_assoc, Receive.reply]
  rfl

theorem receiveLoop_quit (receive : Receive) (rest : List Receive)
    (quit : ¬ receive.isFinished = false) : connectionHandler (receive :: rest) = [] := by
  rw [Bool.not_eq_false] at quit
  rw [connectionHandler, receiveLoop, if_pos quit]

theorem reply_string (receive : Receive) (isString : receive.IsString) :
    receive.reply = receive.bytes := by
  obtain ⟨_, clean, small⟩ := isString
  obtain ⟨room, size⟩ : ∃ room, bufferSize - receive.bytes.length = room + 1 :=
    ⟨bufferSize - receive.bytes.length - 1, by omega⟩
  rw [Receive.reply, cstr_append_of_no_nul _ _ clean, size]
  simp [cstr, List.replicate_succ]

/-- A chunk with a zero byte is cut. -/
theorem reply_cut (receive : Receive) (nul : 0 ∈ receive.bytes) :
    receive.reply.length < receive.bytes.length :=
  cstr_length_lt_of_nul _ _ nul

theorem handler_strings (receives : List Receive)
    (strings : ∀ receive ∈ receives, receive.IsString) :
    connectionHandler receives =
      receives.map fun receive => ⟨receive.bytes, receive.bytes, receive.bytes.length + 1⟩ := by
  induction receives with
  | nil => rfl
  | cons receive rest ih =>
      have isString := strings receive List.mem_cons_self
      have positive := receive.positive
      rw [receiveLoop_cons receive rest isString.1, reply_string receive isString,
        asInt_small _ receive.fits, if_neg (by omega),
        ih fun later member => strings later (List.mem_cons_of_mem receive member)]
      rfl

/-- When no byte behind the terminator is looked at, at most the stream is sent,
and all of it only when every chunk is a string. -/
theorem sent_bounded (receives : List Receive)
    (inside : ∀ pass ∈ connectionHandler receives, pass.InTerminated) :
    (writtenBack receives).length ≤ (stream receives).length ∧
      ((writtenBack receives).length = (stream receives).length →
        ∀ receive ∈ receives, receive.IsString) := by
  induction receives with
  | nil => exact ⟨Nat.le_refl _, by simp⟩
  | cons receive rest ih =>
      have positive := receive.positive
      rw [stream_cons, List.length_append]
      by_cases serving : receive.isFinished = false
      · rw [writtenBack, receiveLoop_cons receive rest serving]
        rw [receiveLoop_cons receive rest serving] at inside
        obtain ⟨behind, inBuffer⟩ := inside _ List.mem_cons_self
        dsimp only at behind inBuffer
        rw [asInt_small _ (by omega)] at inside ⊢
        rw [List.map_cons, List.flatten_cons, List.length_append]
        dsimp only
        split
        · rename_i nothing
          rw [List.map_nil, List.flatten_nil, List.length_nil]
          constructor
          · omega
          · intro whole
            omega
        · rename_i something
          rw [if_neg something] at inside
          obtain ⟨bounded, strings⟩ := ih fun pass member =>
            inside pass (List.mem_cons_of_mem _ member)
          rw [writtenBack] at bounded strings
          constructor
          · omega
          · intro whole
            have clean : 0 ∉ receive.bytes := by
              intro nul
              have cut := reply_cut receive nul
              omega
            exact List.forall_mem_cons.mpr
              ⟨⟨serving, clean, by omega⟩, strings (by omega)⟩
      · rw [writtenBack, receiveLoop_quit receive rest serving, List.map_nil, List.flatten_nil,
          List.length_nil]
        constructor
        · omega
        · intro whole
          omega

theorem echoes_terminated_iff (receives : List Receive) :
    (writtenBack receives = stream receives ∧
        ∀ pass ∈ connectionHandler receives, pass.InTerminated) ↔
      ∀ receive ∈ receives, receive.IsString := by
  constructor
  · intro assumed
    obtain ⟨echoed, inside⟩ := assumed
    exact (sent_bounded receives inside).2 (by rw [echoed])
  · intro strings
    have passes := handler_strings receives strings
    constructor
    · rw [writtenBack, passes, List.map_map]
      rfl
    · intro pass member
      rw [passes] at member
      obtain ⟨receive, isReceived, rfl⟩ := List.mem_map.mp member
      obtain ⟨_, _, small⟩ := strings receive isReceived
      exact ⟨Nat.le_refl _, small⟩

theorem received_of (receives : List Receive) (pass : Pass)
    (member : pass ∈ connectionHandler receives) :
    ∃ receive : Receive, pass.received = receive.bytes := by
  induction receives with
  | nil => cases member
  | cons receive rest ih =>
      by_cases serving : receive.isFinished = false
      · rw [receiveLoop_cons receive rest serving] at member
        rcases List.mem_cons.mp member with isFirst | later
        · exact ⟨receive, by rw [isFirst]⟩
        · split at later
          · cases later
          · exact ih later
      · rw [receiveLoop_quit receive rest serving] at member
        cases member

theorem received_terminated (receives : List Receive)
    (inside : ∀ pass ∈ connectionHandler receives, pass.InReceived) :
    ∀ pass ∈ connectionHandler receives, pass.InTerminated := by
  intro pass member
  have within := inside pass member
  obtain ⟨receive, isReceived⟩ := received_of receives pass member
  have fits := receive.fits
  rw [Pass.InReceived, isReceived] at within
  rw [Pass.InTerminated, isReceived]
  constructor <;> omega

/-- `strlen` always looks at the byte behind the chunk.  This byte aside, the
server echoes exactly the streams whose chunks are strings of the buffer. -/
theorem echoes_iff (receives : List Receive) :
    ((writtenBack receives = stream receives ∧
        ∀ pass ∈ connectionHandler receives, pass.InReceived) ↔ receives = []) ∧
      ((writtenBack receives = stream receives ∧
          ∀ pass ∈ connectionHandler receives, pass.InTerminated) ↔
        ∀ receive ∈ receives, receive.isFinished = false ∧ 0 ∉ receive.bytes ∧
          receive.bytes.length < bufferSize) := by
  refine ⟨?_, echoes_terminated_iff receives⟩
  constructor
  · intro ⟨echoed, inside⟩
    have strings := (echoes_terminated_iff receives).mp
      ⟨echoed, received_terminated receives inside⟩
    cases receives with
    | nil => rfl
    | cons receive rest =>
        rw [handler_strings _ strings] at inside
        have beyond : receive.bytes.length + 1 ≤ receive.bytes.length :=
          inside _ List.mem_cons_self
        omega
  · intro nothing
    subst nothing
    exact ⟨rfl, by simp [connectionHandler, receiveLoop]⟩

/-- `H`, a zero byte, `I`. -/
def zeroInside : Receive := ⟨[72, 0, 73], [], false, by simp, by decide⟩

def fullChunk : Receive where
  bytes := List.replicate bufferSize 65
  behind := [66]
  isFinished := false
  nonempty := by
    rw [Ne, List.replicate_eq_nil_iff]
    decide
  fits := by simp

/-- A zero byte ends the echo of its chunk, and a full chunk comes back with
what lies behind the buffer. -/
theorem not_echoed :
    ¬ (writtenBack [zeroInside] = stream [zeroInside] ∧
        ∀ pass ∈ connectionHandler [zeroInside], pass.InReceived) ∧
      writtenBack [zeroInside] = [72] ∧
      writtenBack [fullChunk] = stream [fullChunk] ++ [66] := by
  have cut : writtenBack [zeroInside] = [72] := by decide +kernel
  refine ⟨?_, cut, ?_⟩
  · intro ⟨echoed, _⟩
    rw [cut] at echoed
    cases echoed
  · have clean : (0 : Byte) ∉ List.replicate bufferSize 65 := by simp [List.mem_replicate]
    have reply : fullChunk.reply = List.replicate bufferSize 65 ++ [66] := by
      rw [Receive.reply, fullChunk, cstr_append_of_no_nul _ _ clean]
      simp [cstr]
    rw [writtenBack, receiveLoop_cons fullChunk [] rfl, List.map_cons, List.flatten_cons, reply]
    split <;> simp [stream, fullChunk, connectionHandler, receiveLoop]

end OsLabs.Tcp
