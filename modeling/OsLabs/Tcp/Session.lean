import OsLabs.Lib.Transition
import OsLabs.Tcp.Echo

/-!
# A session of the TCP echo

The client of `lab7/tcp` and the handler of its connection, with the two byte
streams between them.  Neither side knows where a message ends: the client
takes whatever a single `recv` gives for the reply.  It prints `reply` as a
string without terminating it, the first time from uninitialised memory.
-/

set_option autoImplicit false

namespace OsLabs.Tcp

open OsLabs.CString OsLabs.Transition

def exitCommand : List Byte := text "exit999"

inductive ClientPc where
  | scanning
  | waiting
  | closed
  deriving DecidableEq

/-- `connectionHandler` before its `recv`, before its `write`, or behind the loop. -/
inductive HandlerPc where
  | receiving
  | writing (reply : List Byte)
  | closed

/-- `reply` is the buffer of the client; `sent` and `printed` are what it has
passed to `send` and printed. -/
structure Session where
  pc : ClientPc
  words : List (Word bufferSize)
  reply : List Byte
  sent : List (List Byte)
  printed : List (List Byte)
  toServer : List Byte
  handler : HandlerPc
  toClient : List Byte

/-- The environment decides how much of its stream a `recv` takes, and what lies
behind the buffers. -/
inductive Action where
  | scans
  | serves (receive : Receive)
  | writes
  | receives (bytes behind : List Byte)

/-- Where the handler is after `write`: with nothing written it leaves the loop. -/
def afterWrite (reply : List Byte) : HandlerPc :=
  if asInt reply.length ≤ 0 then .closed else .receiving

def step (s : Session) : Action → Option Session
  | .scans =>
      match s.pc, s.words with
      | .scanning, word :: rest =>
          if word.string = exitCommand then some { s with pc := .closed, words := rest }
          else
            some { s with
              pc := .waiting, words := rest, sent := s.sent ++ [word.string]
              toServer := s.toServer ++ word.string }
      | _, _ => none
  | .serves receive =>
      match s.handler with
      | .receiving =>
          if receive.isFinished = false ∧ receive.bytes <+: s.toServer then
            some { s with
              toServer := s.toServer.drop receive.bytes.length
              handler := .writing receive.reply }
          else none
      | _ => none
  | .writes =>
      match s.handler with
      | .writing reply =>
          some { s with toClient := s.toClient ++ reply, handler := afterWrite reply }
      | _ => none
  | .receives bytes behind =>
      if s.pc = .waiting ∧ bytes <+: s.toClient ∧ bytes.length ≤ bufferSize ∧ bytes ≠ [] then
        some { s with
          pc := .scanning, reply := zeroed, toClient := s.toClient.drop bytes.length
          printed := s.printed ++ [cstr (writeAt s.reply 0 bytes ++ behind)] }
      else none

/-- The session begins with the stack of the client as it is. -/
def Session.start (words : List (Word bufferSize)) (stack : List Byte) : Session where
  pc := .scanning
  words := words
  reply := stack
  sent := []
  printed := []
  toServer := []
  handler := .receiving
  toClient := []

def session (words : List (Word bufferSize)) (stack : List Byte) : System Session Action :=
  ⟨Session.start words stack, step⟩

/-! ## Bytes under way -/

def HandlerPc.held : HandlerPc → List Byte
  | .writing reply => reply
  | _ => []

/-- What the client has still to receive of its own bytes, in order. -/
def Session.underway (s : Session) : List Byte := s.toClient ++ s.handler.held ++ s.toServer

/-- What an action does to the bytes under way. -/
inductive Move (s next : Session) : Action → Prop where
  | closes {word : Word bufferSize} {rest : List (Word bufferSize)} (here : s.pc = .scanning)
      (isNext : s.words = word :: rest) (isExit : word.string = exitCommand)
      (pc : next.pc = .closed) (sent : next.sent = s.sent) (printed : next.printed = s.printed)
      (handler : next.handler = s.handler) (underway : next.underway = s.underway) :
      Move s next .scans
  | sends {word : Word bufferSize} {rest : List (Word bufferSize)} (here : s.pc = .scanning)
      (isNext : s.words = word :: rest) (notExit : word.string ≠ exitCommand)
      (pc : next.pc = .waiting) (sent : next.sent = s.sent ++ [word.string])
      (printed : next.printed = s.printed) (handler : next.handler = s.handler)
      (underway : next.underway = s.underway ++ word.string) : Move s next .scans
  | serves {receive : Receive} (here : s.handler = .receiving) (front back : List Byte)
      (pc : next.pc = s.pc) (sent : next.sent = s.sent) (printed : next.printed = s.printed)
      (handler : next.handler = .writing receive.reply)
      (before : s.underway = front ++ receive.bytes ++ back)
      (after : next.underway = front ++ receive.reply ++ back) : Move s next (.serves receive)
  | writes {reply : List Byte} (here : s.handler = .writing reply) (pc : next.pc = s.pc)
      (sent : next.sent = s.sent) (printed : next.printed = s.printed)
      (handler : next.handler = afterWrite reply)
      (underway : next.underway = s.underway) : Move s next .writes
  | receives {bytes behind : List Byte} (here : s.pc = .waiting) (pc : next.pc = .scanning)
      (sent : next.sent = s.sent)
      (printed : next.printed = s.printed ++ [cstr (writeAt s.reply 0 bytes ++ behind)])
      (handler : next.handler = s.handler) (underway : s.underway = bytes ++ next.underway) :
      Move s next (.receives bytes behind)

theorem afterWrite_held (reply : List Byte) : (afterWrite reply).held = [] := by
  rw [afterWrite]
  split <;> rfl

/-- What a `recv` takes from the front of a stream leaves the rest of it. -/
theorem take_drop {bytes stream : List Byte} (front : bytes <+: stream) :
    bytes ++ stream.drop bytes.length = stream := by
  obtain ⟨rest, rfl⟩ := front
  rw [List.drop_left]

theorem step_move {s next : Session} {action : Action} (stepped : step s action = some next) :
    Move s next action := by
  cases action with
  | scans =>
      simp only [step] at stepped
      split at stepped
      · rename_i word rest here isNext
        split at stepped
        · rename_i isExit
          cases stepped
          exact .closes here isNext isExit rfl rfl rfl rfl rfl
        · rename_i notExit
          cases stepped
          refine .sends here isNext notExit rfl rfl rfl rfl ?_
          simp [Session.underway]
      · cases stepped
  | serves receive =>
      simp only [step] at stepped
      split at stepped
      · rename_i here
        split at stepped
        · rename_i possible
          cases stepped
          refine .serves here s.toClient (s.toServer.drop receive.bytes.length) rfl rfl rfl rfl
            ?_ rfl
          rw [List.append_assoc, take_drop possible.2]
          simp [Session.underway, here, HandlerPc.held]
        · cases stepped
      · cases stepped
  | writes =>
      simp only [step] at stepped
      split at stepped
      · rename_i reply here
        -- evaluating `afterWrite` here would count to 2 ^ 32
        generalize isAfter : afterWrite reply = after at stepped
        cases stepped
        refine .writes here rfl rfl rfl isAfter.symm ?_
        simp only [Session.underway, here, ← isAfter, afterWrite_held]
        simp [HandlerPc.held]
      · cases stepped
  | receives bytes behind =>
      simp only [step] at stepped
      split at stepped
      · rename_i possible
        obtain ⟨here, front, _, _⟩ := possible
        cases stepped
        refine .receives here rfl rfl rfl rfl ?_
        simp only [Session.underway, ← List.append_assoc]
        rw [take_drop front]
      · cases stepped

/-! ## Strings in the buffers -/

/-- The string in a buffer that received clean bytes. -/
theorem cstr_received (buffer bytes behind : List Byte) (clean : 0 ∉ bytes) :
    cstr (writeAt buffer 0 bytes ++ behind) =
      bytes ++ cstr (buffer.drop bytes.length ++ behind) := by
  have stored : writeAt buffer 0 bytes = bytes ++ buffer.drop bytes.length := by simp [writeAt]
  rw [stored, List.append_assoc, cstr_append_of_no_nul _ _ clean]

theorem reply_clean (receive : Receive) (clean : 0 ∉ receive.bytes) :
    receive.reply =
      receive.bytes ++ if receive.bytes.length = bufferSize then cstr receive.behind else [] := by
  rw [Receive.reply, cstr_append_of_no_nul _ _ clean]
  by_cases full : receive.bytes.length = bufferSize
  · rw [if_pos full, full, Nat.sub_self]
    rfl
  · have fits := receive.fits
    obtain ⟨room, size⟩ : ∃ room, bufferSize - receive.bytes.length = room + 1 :=
      ⟨bufferSize - receive.bytes.length - 1, by omega⟩
    rw [if_neg full, size]
    simp [cstr, List.replicate_succ]

/-! ## The stream -/

/-- The client prints the bytes it has sent, in order, and waits only while some
of them are under way. -/
structure InOrder (s : Session) : Prop where
  echoed : s.sent.flatten = s.printed.flatten ++ s.underway
  expected : s.pc = .waiting → s.underway ≠ []

/-- Nothing but the received bytes is taken for a string, and nothing is waited
for that is not under way. -/
def Sound (s : Session) : Action → Prop
  | .scans => ∀ word rest, s.words = word :: rest → word.string ≠ exitCommand →
      word.string ≠ [] ∨ s.underway ≠ []
  | .serves receive => receive.bytes.length = bufferSize → cstr receive.behind = []
  | .writes => True
  | .receives bytes behind => cstr (s.reply.drop bytes.length ++ behind) = []

/-- No byte under way is a NUL, and what the handler writes is not empty. -/
structure Flowing (s : Session) : Prop where
  clean : 0 ∉ s.underway
  handler : s.handler = .receiving ∨
    ∃ reply, s.handler = .writing reply ∧ reply ≠ [] ∧ reply.length ≤ bufferSize

structure Streaming (s : Session) : Prop where
  inOrder : InOrder s
  flowing : Flowing s

section Stream

variable {s next : Session} {action : Action}

theorem start_streaming (words : List (Word bufferSize)) (stack : List Byte) :
    Streaming (Session.start words stack) where
  inOrder := ⟨rfl, by intro waiting; cases waiting⟩
  flowing := ⟨by simp [Session.start, Session.underway, HandlerPc.held], Or.inl rfl⟩

/-- A chunk that fills the buffer aside, the handler writes what it received. -/
theorem Flowing.reply_iff (flowing : Flowing s) {receive : Receive} {front back : List Byte}
    (before : s.underway = front ++ receive.bytes ++ back) :
    receive.reply.length = receive.bytes.length ↔
      (receive.bytes.length = bufferSize → cstr receive.behind = []) := by
  have cleanBytes : 0 ∉ receive.bytes := fun nul => flowing.clean (by rw [before]; simp [nul])
  rw [reply_clean receive cleanBytes, List.length_append, Nat.add_eq_left,
    List.length_eq_zero_iff]
  split
  · rename_i full
    exact ⟨fun nothing _ => nothing, fun nothing => nothing full⟩
  · rename_i notFull
    exact ⟨fun _ full => absurd full notFull, fun _ => rfl⟩

theorem Flowing.reply_eq (flowing : Flowing s) {receive : Receive} {front back : List Byte}
    (before : s.underway = front ++ receive.bytes ++ back)
    (sound : receive.bytes.length = bufferSize → cstr receive.behind = []) :
    receive.reply = receive.bytes := by
  have cleanBytes : 0 ∉ receive.bytes := fun nul => flowing.clean (by rw [before]; simp [nul])
  have same := (flowing.reply_iff before).mpr sound
  have initial : receive.bytes <+: receive.reply := by
    rw [reply_clean receive cleanBytes]
    exact List.prefix_append _ _
  exact (initial.eq_of_length same.symm).symm

theorem move_flowing (flowing : Flowing s) (sound : Sound s action) (move : Move s next action) :
    Flowing next := by
  obtain ⟨clean, isHandler⟩ := flowing
  cases move with
  | closes here isNext isExit pc sent printed handler underway =>
      exact ⟨by rw [underway]; exact clean, by rw [handler]; exact isHandler⟩
  | @sends word rest here isNext notExit pc sent printed handler underway =>
      refine ⟨?_, by rw [handler]; exact isHandler⟩
      rw [underway, List.mem_append, not_or]
      exact ⟨clean, word.clean⟩
  | @serves receive here front back pc sent printed handler before after =>
      have isReply := Flowing.reply_eq ⟨clean, isHandler⟩ before sound
      refine ⟨by rw [after, isReply, ← before]; exact clean, Or.inr ⟨_, handler, ?_⟩⟩
      rw [isReply]
      exact ⟨receive.nonempty, receive.fits⟩
  | @writes reply here pc sent printed handler underway =>
      refine ⟨by rw [underway]; exact clean, Or.inl ?_⟩
      rcases isHandler with isReceiving | ⟨written, isWritten, something, fits⟩
      · rw [here] at isReceiving
        cases isReceiving
      · rw [here] at isWritten
        cases isWritten
        have positive := List.length_pos_of_ne_nil something
        rw [handler, afterWrite, if_neg (by rw [asInt_small _ fits]; omega)]
  | @receives bytes behind here pc sent printed handler underway =>
      refine ⟨fun nul => clean ?_, by rw [handler]; exact isHandler⟩
      rw [underway]
      exact List.mem_append_right _ nul

/-- The client prints what it received, exactly when its buffer ends there. -/
theorem Flowing.printed_eq (flowing : Flowing s) {bytes rest : List Byte} (behind : List Byte)
    (underway : s.underway = bytes ++ rest) :
    cstr (writeAt s.reply 0 bytes ++ behind) =
      bytes ++ cstr (s.reply.drop bytes.length ++ behind) := by
  refine cstr_received _ _ _ fun nul => flowing.clean ?_
  rw [underway]
  exact List.mem_append_left _ nul

theorem move_inOrder (streaming : Streaming s) (sound : Sound s action)
    (move : Move s next action) : InOrder next := by
  obtain ⟨⟨echoed, expected⟩, flowing⟩ := streaming
  cases move with
  | closes here isNext isExit pc sent printed handler underway =>
      refine ⟨by rw [sent, printed, underway]; exact echoed, ?_⟩
      rw [pc]
      intro waiting
      cases waiting
  | @sends word rest here isNext notExit pc sent printed handler underway =>
      refine ⟨?_, fun _ => ?_⟩
      · rw [sent, printed, underway, List.flatten_append, echoed]
        simp
      · rw [underway, Ne, List.append_eq_nil_iff, not_and_or]
        exact (sound word rest isNext notExit).symm
  | serves here front back pc sent printed handler before after =>
      have same : next.underway = s.underway := by
        rw [after, flowing.reply_eq before sound, ← before]
      exact ⟨by rw [sent, printed, same]; exact echoed, by rw [pc, same]; exact expected⟩
  | writes here pc sent printed handler underway =>
      exact ⟨by rw [sent, printed, underway]; exact echoed, by rw [pc, underway]; exact expected⟩
  | @receives bytes behind here pc sent printed handler underway =>
      refine ⟨?_, ?_⟩
      · have ends : cstr (s.reply.drop bytes.length ++ behind) = [] := sound
        rw [sent, printed, List.flatten_append, flowing.printed_eq behind underway, ends, echoed,
          underway]
        simp
      · rw [pc]
        intro waiting
        cases waiting

/-- A step that takes other bytes for a string, or waits for nothing, shows at
once. -/
theorem sound_of_inOrder (streaming : Streaming s) (move : Move s next action)
    (inOrder : InOrder next) : Sound s action := by
  obtain ⟨⟨echoed, expected⟩, flowing⟩ := streaming
  cases move with
  | closes here isNext isExit pc sent printed handler underway =>
      intro word rest isWord notExit
      rw [isNext, List.cons.injEq] at isWord
      rw [← isWord.1] at notExit
      exact absurd isExit notExit
  | sends here isNext notExit pc sent printed handler underway =>
      intro word rest isWord _
      rw [isNext, List.cons.injEq] at isWord
      have something := inOrder.expected pc
      rw [underway, Ne, List.append_eq_nil_iff, not_and_or, isWord.1] at something
      exact something.symm
  | serves here front back pc sent printed handler before after =>
      refine (flowing.reply_iff before).mp ?_
      have lengths := congrArg List.length inOrder.echoed
      rw [sent, printed, echoed, before, after] at lengths
      simp only [List.length_append] at lengths
      omega
  | writes here pc sent printed handler underway => trivial
  | @receives bytes behind here pc sent printed handler underway =>
      have lengths := congrArg List.length inOrder.echoed
      rw [sent, printed, List.flatten_append, flowing.printed_eq behind underway, echoed,
        underway] at lengths
      simp only [List.flatten_cons, List.flatten_nil, List.append_nil, List.length_append]
        at lengths
      exact List.length_eq_zero_iff.mp (by omega)

theorem step_streaming (streaming : Streaming s) (sound : Sound s action)
    (stepped : step s action = some next) : Streaming next :=
  ⟨move_inOrder streaming sound (step_move stepped),
    move_flowing streaming.flowing sound (step_move stepped)⟩

end Stream

/-- The client prints its own bytes in order, and never waits for nothing,
exactly when each `recv` that fills a buffer, and the first one of the client,
finds a NUL behind its bytes and no empty message is waited for. -/
theorem session_inOrder_iff (words : List (Word bufferSize)) (stack : List Byte)
    (actions : List Action) :
    (session words stack).Always InOrder (Session.start words stack) actions ↔
      (session words stack).Meets Sound (Session.start words stack) actions := by
  refine System.always_iff_meets Sound Streaming InOrder (fun _ => Streaming.inOrder) ?_ ?_ _
    actions (start_streaming words stack)
  · intro s action next streaming sound stepped
    exact step_streaming streaming sound stepped
  · intro s action next streaming stepped inOrder
    exact sound_of_inOrder streaming (step_move stepped) inOrder

/-! ## The messages -/

/-- Each reply is the message sent last, and between the messages nothing is
under way. -/
structure InStep (s : Session) : Prop where
  printed : s.printed <+: s.sent
  waiting : s.pc = .waiting ↔ s.underway ≠ []

/-- A `recv` of the client takes the whole echo, and a NUL lies behind it. -/
def Whole (s : Session) : Action → Prop
  | .scans => ∀ word rest, s.words = word :: rest → word.string ≠ exitCommand → word.string ≠ []
  | .serves _ => True
  | .writes => True
  | .receives bytes behind =>
      bytes = s.underway ∧ cstr (s.reply.drop bytes.length ++ behind) = []

structure Stepping (s : Session) : Prop where
  streaming : Streaming s
  inStep : InStep s
  lockstep : s.sent.length = s.printed.length + if s.pc = .waiting then 1 else 0
  short : ∀ message ∈ s.sent, message.length < bufferSize

section Messages

variable {s next : Session} {action : Action}

theorem start_stepping (words : List (Word bufferSize)) (stack : List Byte) :
    Stepping (Session.start words stack) where
  streaming := start_streaming words stack
  inStep := ⟨List.prefix_refl _, by simp [Session.start, Session.underway, HandlerPc.held]⟩
  lockstep := rfl
  short message member := by cases member

/-- While the client waits its last message is what is under way. -/
theorem Stepping.last (stepping : Stepping s) (waiting : s.pc = .waiting) :
    s.sent = s.printed ++ [s.underway] := by
  obtain ⟨rest, isSent⟩ := stepping.inStep.printed
  have one := stepping.lockstep
  rw [if_pos waiting, ← isSent, List.length_append, Nat.add_left_cancel_iff,
    List.length_eq_one_iff] at one
  obtain ⟨message, rfl⟩ := one
  have echoed := stepping.streaming.inOrder.echoed
  rw [← isSent, List.flatten_append, List.append_cancel_left_eq] at echoed
  rw [← isSent, ← echoed]
  simp

/-- What the handler receives is part of one message, so it fits. -/
theorem Stepping.sound (stepping : Stepping s) (whole : Whole s action)
    (move : Move s next action) : Sound s action := by
  cases move with
  | closes here isNext isExit | sends here isNext notExit =>
      intro word rest isWord notExit
      exact Or.inl (whole word rest isWord notExit)
  | @serves receive here front back pc sent printed handler before after =>
      intro full
      have something : s.underway ≠ [] := by
        intro nothing
        rw [before] at nothing
        simp only [List.append_eq_nil_iff] at nothing
        exact receive.nonempty nothing.1.2
      have waiting := stepping.inStep.waiting.mpr something
      have short := stepping.short s.underway (by rw [stepping.last waiting]; simp)
      have lengths := congrArg List.length before
      simp only [List.length_append] at lengths
      omega
  | writes => trivial
  | receives => exact whole.2

theorem move_stepping (stepping : Stepping s) (whole : Whole s action)
    (move : Move s next action) : Stepping next := by
  have sound := stepping.sound whole move
  have streaming : Streaming next :=
    ⟨move_inOrder stepping.streaming sound move, move_flowing stepping.streaming.flowing sound move⟩
  have isPrinted := stepping.inStep.printed
  have isWaiting := stepping.inStep.waiting
  have lockstep := stepping.lockstep
  have short := stepping.short
  cases move with
  | closes here isNext isExit pc sent printed handler underway =>
      refine ⟨streaming, ⟨by rw [printed, sent]; exact isPrinted, ?_⟩, ?_,
        by rw [sent]; exact short⟩
      · rw [pc, underway, ← isWaiting, here]
        simp
      · rw [sent, printed, pc, lockstep, here]
        rfl
  | @sends word rest here isNext notExit pc sent printed handler underway =>
      have nothing : s.underway = [] := by
        by_contra something
        rw [isWaiting.mpr something] at here
        cases here
      refine ⟨streaming, ⟨?_, ?_⟩, ?_, ?_⟩
      · rw [printed, sent]
        exact isPrinted.trans (List.prefix_append _ _)
      · rw [pc, underway, nothing, List.nil_append]
        exact ⟨fun _ => whole word rest isNext notExit, fun _ => rfl⟩
      · rw [sent, printed, pc, List.length_append, lockstep, here]
        rfl
      · intro message member
        rw [sent] at member
        rcases List.mem_append.mp member with earlier | isLast
        · exact short message earlier
        · rw [List.mem_singleton.mp isLast]
          exact word.short
  | @serves receive here front back pc sent printed handler before after =>
      have same : next.underway = s.underway := by
        rw [after, stepping.streaming.flowing.reply_eq before sound, ← before]
      exact ⟨streaming, ⟨by rw [printed, sent]; exact isPrinted, by rw [pc, same]; exact isWaiting⟩,
        by rw [sent, printed, pc]; exact lockstep, by rw [sent]; exact short⟩
  | writes here pc sent printed handler underway =>
      exact ⟨streaming, ⟨by rw [printed, sent]; exact isPrinted,
        by rw [pc, underway]; exact isWaiting⟩, by rw [sent, printed, pc]; exact lockstep,
        by rw [sent]; exact short⟩
  | @receives bytes behind here pc sent printed handler underway =>
      obtain ⟨isAll, ends⟩ := whole
      have last := stepping.last here
      have nothing : next.underway = [] := by
        rw [← isAll] at underway
        exact List.append_right_eq_self.mp underway.symm
      rw [stepping.streaming.flowing.printed_eq behind underway, ends, List.append_nil, isAll,
        ← last] at printed
      refine ⟨streaming, ⟨by rw [printed, sent], ?_⟩, ?_, by rw [sent]; exact short⟩
      · rw [pc, nothing]
        simp
      · rw [sent, printed, pc]
        rfl

/-- A `recv` that takes less than the echo leaves bytes under way. -/
theorem whole_of_inStep (stepping : Stepping s) (move : Move s next action)
    (inStep : InStep next) : Whole s action := by
  cases move with
  | closes here isNext isExit pc sent printed handler underway =>
      intro word rest isWord notExit
      rw [isNext, List.cons.injEq] at isWord
      rw [← isWord.1] at notExit
      exact absurd isExit notExit
  | @sends word rest here isNext notExit pc sent printed handler underway =>
      intro other later isWord _
      rw [isNext, List.cons.injEq] at isWord
      have nothing : s.underway = [] := by
        by_contra something
        rw [stepping.inStep.waiting.mpr something] at here
        cases here
      have something := inStep.waiting.mp pc
      rw [underway, nothing, List.nil_append, isWord.1] at something
      exact something
  | serves | writes => trivial
  | @receives bytes behind here pc sent printed handler underway =>
      have nothing : next.underway = [] := by
        by_contra something
        rw [inStep.waiting.mpr something] at pc
        cases pc
      rw [nothing, List.append_nil] at underway
      refine ⟨underway.symm, ?_⟩
      have isPrinted := inStep.printed
      rw [printed, sent, stepping.last here] at isPrinted
      have isReply := isPrinted.eq_of_length (by simp)
      rw [List.append_cancel_left_eq, List.cons.injEq,
        stepping.streaming.flowing.printed_eq behind (underway.trans (List.append_nil _).symm),
        underway] at isReply
      exact List.append_right_eq_self.mp isReply.1

end Messages

/-- Each reply that the client prints is the message it sent last, and nothing
is left of the echo, exactly when every `recv` of the client takes the whole
echo and finds a NUL behind it and no message is empty. -/
theorem session_inStep_iff (words : List (Word bufferSize)) (stack : List Byte)
    (actions : List Action) :
    (session words stack).Always InStep (Session.start words stack) actions ↔
      (session words stack).Meets Whole (Session.start words stack) actions := by
  refine System.always_iff_meets Whole Stepping InStep (fun _ => Stepping.inStep) ?_ ?_ _
    actions (start_stepping words stack)
  · intro s action next stepping whole stepped
    exact move_stepping stepping whole (step_move stepped)
  · intro s action next stepping stepped inStep
    exact whole_of_inStep stepping (step_move stepped) inStep

end OsLabs.Tcp
