import Mathlib.Data.Multiset.Filter
import OsLabs.Lib.CString
import OsLabs.Lib.Transition

/-!
# The UDP echo

The clients and the server of `lab7/udp` with the network between them, which
may lose datagrams, duplicate them and deliver them in any order.  A client
sends its next message only after a reply to the last one, but it takes any
datagram for that reply, and it waits for ever where none comes.
-/

set_option autoImplicit false

namespace OsLabs.Udp

open OsLabs.CString OsLabs.Transition

/-- BUFFER_SIZE -/
def bufferSize : Nat := 512

def exitCommand : List Byte := text "exit999"

inductive Address (n : Nat) where
  | server
  | client (i : Fin n)
  deriving DecidableEq

structure Packet (n : Nat) where
  sender : Address n
  receiver : Address n
  bytes : List Byte
  deriving DecidableEq

inductive ClientPc where
  | scanning
  | waiting
  | closed
  deriving DecidableEq

/-- A client: `server` is the variable of that name, which `recvfrom` overwrites.
`sent` and `replies` are what it has passed to `sendto` and printed. -/
structure Client (n : Nat) where
  pc : ClientPc
  server : Address n
  words : List (Word bufferSize)
  sent : List (List Byte)
  replies : List (List Byte)

/-- The server is between `recvfrom` and `sendto` while `serving` is not `none`.
`lost` has the datagrams that nobody will receive. -/
structure State (n : Nat) where
  clients : Fin n → Client n
  serving : Option (Address n × List Byte)
  isFinished : Bool
  network : Multiset (Packet n)
  lost : Multiset (Packet n)

/-- `behind` is the memory behind the buffer of the client. -/
inductive Action (n : Nat) where
  | scans (i : Fin n)
  | receives (i : Fin n) (packet : Packet n) (behind : List Byte)
  | serves (packet : Packet n)
  | answers
  | quits
  | loses (packet : Packet n)
  | duplicates (packet : Packet n)

variable {n : Nat}

/-- What `printf` prints of a received datagram. -/
def printed (bytes behind : List Byte) : List Byte :=
  cstr (writeAt (List.replicate bufferSize 0) 0 (bytes.take bufferSize) ++ behind)

/-- The datagram that `sendto` of the server is going to send. -/
def State.held (s : State n) : Multiset (Packet n) :=
  match s.serving with
  | none => 0
  | some (client, bytes) => {⟨.server, client, bytes⟩}

def step (s : State n) : Action n → Option (State n)
  | .scans i =>
      let client := s.clients i
      match client.pc, client.words with
      | .scanning, word :: rest =>
          if word.string = exitCommand then
            some { s with
              clients := Function.update s.clients i { client with pc := .closed, words := rest } }
          else
            some { s with
              clients := Function.update s.clients i
                { client with
                  pc := .waiting, words := rest, sent := client.sent ++ [word.string] }
              network := ⟨.client i, client.server, word.string⟩ ::ₘ s.network }
      | _, _ => none
  | .receives i packet behind =>
      let client := s.clients i
      if client.pc = .waiting ∧ packet.receiver = .client i ∧ packet ∈ s.network then
        some { s with
          clients := Function.update s.clients i
            { client with
              pc := .scanning, server := packet.sender
              replies := client.replies ++ [printed packet.bytes behind] }
          network := s.network.erase packet }
      else none
  | .serves packet =>
      if s.isFinished = false ∧ s.serving = none ∧ packet.receiver = .server ∧
          packet ∈ s.network then
        some { s with
          serving := some (packet.sender, packet.bytes.take bufferSize)
          network := s.network.erase packet }
      else none
  | .answers =>
      match s.serving with
      | none => none
      | some _ => some { s with serving := none, network := s.held + s.network }
  | .quits =>
      some { s with isFinished := true, serving := none, lost := s.held + s.lost }
  | .loses packet =>
      if packet ∈ s.network then
        some { s with network := s.network.erase packet, lost := packet ::ₘ s.lost }
      else none
  | .duplicates packet =>
      if packet ∈ s.network then some { s with network := packet ::ₘ s.network } else none

/-- The clients have the words to type before them. -/
def State.start (words : Fin n → List (Word bufferSize)) : State n where
  clients i := ⟨.scanning, .server, words i, [], []⟩
  serving := none
  isFinished := false
  network := 0
  lost := 0

def echo (words : Fin n → List (Word bufferSize)) : System (State n) (Action n) :=
  ⟨State.start words, step⟩

/-! ## Copies of messages -/

/-- Every datagram there is, the one that the server holds as the reply to come. -/
def State.copies (s : State n) : Multiset (Packet n) := s.network + s.lost + s.held

/-- What an action does to the clients and to the copies. -/
inductive Move (s next : State n) : Action n → Prop where
  | closes {i : Fin n} {word : Word bufferSize} {rest : List (Word bufferSize)}
      (here : (s.clients i).pc = .scanning)
      (isNext : (s.clients i).words = word :: rest) (isExit : word.string = exitCommand)
      (clients : next.clients =
        Function.update s.clients i { s.clients i with pc := .closed, words := rest })
      (copies : next.copies = s.copies) : Move s next (.scans i)
  | sends {i : Fin n} {word : Word bufferSize} {rest : List (Word bufferSize)}
      (here : (s.clients i).pc = .scanning)
      (isNext : (s.clients i).words = word :: rest) (notExit : word.string ≠ exitCommand)
      (clients : next.clients = Function.update s.clients i
        { s.clients i with
          pc := .waiting, words := rest, sent := (s.clients i).sent ++ [word.string] })
      (copies : next.copies = ⟨.client i, (s.clients i).server, word.string⟩ ::ₘ s.copies) :
      Move s next (.scans i)
  | prints {i : Fin n} {packet : Packet n} {behind : List Byte}
      (here : (s.clients i).pc = .waiting) (isReceiver : packet.receiver = .client i)
      (clients : next.clients = Function.update s.clients i
        { s.clients i with
          pc := .scanning, server := packet.sender
          replies := (s.clients i).replies ++ [printed packet.bytes behind] })
      (copies : s.copies = packet ::ₘ next.copies) : Move s next (.receives i packet behind)
  | turns {packet : Packet n} (others : Multiset (Packet n)) (isReceiver : packet.receiver = .server)
      (clients : next.clients = s.clients) (before : s.copies = packet ::ₘ others)
      (after : next.copies =
        ⟨.server, packet.sender, packet.bytes.take bufferSize⟩ ::ₘ others) :
      Move s next (.serves packet)
  | moves {action : Action n} (clients : next.clients = s.clients)
      (copies : next.copies = s.copies) : Move s next action
  | doubles {packet : Packet n} (clients : next.clients = s.clients)
      (member : packet ∈ s.copies) (copies : next.copies = packet ::ₘ s.copies) :
      Move s next (.duplicates packet)

theorem step_move {s next : State n} {action : Action n} (stepped : step s action = some next) :
    Move s next action := by
  cases action with
  | scans i =>
      simp only [step] at stepped
      split at stepped
      · rename_i word rest here isNext
        split at stepped
        · rename_i isExit
          cases stepped
          exact .closes here isNext isExit rfl rfl
        · rename_i notExit
          cases stepped
          refine .sends here isNext notExit rfl ?_
          simp [State.copies, State.held]
      · cases stepped
  | receives i packet behind =>
      simp only [step] at stepped
      split at stepped
      · rename_i possible
        obtain ⟨here, isReceiver, member⟩ := possible
        cases stepped
        refine .prints here isReceiver rfl ?_
        simp only [State.copies, State.held, ← Multiset.cons_add, Multiset.cons_erase member]
      · cases stepped
  | serves packet =>
      simp only [step] at stepped
      split at stepped
      · rename_i possible
        obtain ⟨_, idle, isReceiver, member⟩ := possible
        cases stepped
        refine .turns (s.network.erase packet + s.lost) isReceiver rfl ?_ ?_
        · simp only [State.copies, State.held, idle, ← Multiset.cons_add,
            Multiset.cons_erase member, Multiset.add_zero]
        · simp only [State.copies, State.held, ← Multiset.singleton_add]
          exact Multiset.add_comm _ _
      · cases stepped
  | answers =>
      simp only [step] at stepped
      split at stepped
      · cases stepped
      · cases stepped
        refine .moves rfl ?_
        change s.held + s.network + s.lost + 0 = s.network + s.lost + s.held
        rw [Multiset.add_zero, Multiset.add_assoc]
        exact Multiset.add_comm _ _
  | quits =>
      cases stepped
      refine .moves rfl ?_
      change s.network + (s.held + s.lost) + 0 = s.network + s.lost + s.held
      rw [Multiset.add_zero, Multiset.add_comm s.held, Multiset.add_assoc]
  | loses packet =>
      simp only [step] at stepped
      split at stepped
      · rename_i member
        cases stepped
        refine .moves rfl ?_
        change s.network.erase packet + packet ::ₘ s.lost + s.held = s.network + s.lost + s.held
        rw [Multiset.add_cons, ← Multiset.cons_add, Multiset.cons_erase member]
      · cases stepped
  | duplicates packet =>
      simp only [step] at stepped
      split at stepped
      · rename_i member
        cases stepped
        refine .doubles rfl ?_ ?_
        · simp [State.copies, member]
        · change packet ::ₘ s.network + s.lost + s.held = packet ::ₘ s.copies
          rw [Multiset.cons_add, Multiset.cons_add]
          rfl
      · cases stepped

/-! ## Any network -/

/-- What `strlen` finds in `message`. -/
def Plain (message : List Byte) : Prop := 0 ∉ message ∧ message.length < bufferSize

theorem word_plain (word : Word bufferSize) : Plain word.string := ⟨word.clean, word.short⟩

/-- Such a message comes out of a buffer as it went in. -/
theorem printed_plain {message : List Byte} (plain : Plain message) (behind : List Byte) :
    printed message behind = message := by
  obtain ⟨clean, small⟩ := plain
  obtain ⟨room, size⟩ : ∃ room, bufferSize - message.length = room + 1 :=
    ⟨bufferSize - message.length - 1, by omega⟩
  have stored : writeAt (List.replicate bufferSize 0) 0 message =
      message ++ List.replicate (bufferSize - message.length) 0 :=
    writeAt_zeroed [] message bufferSize
  rw [printed, List.take_of_length_le (by omega), stored, List.append_assoc,
    cstr_append_of_no_nul _ _ clean, size]
  simp [cstr, List.replicate_succ]

/-- The datagram goes between the server and this client. -/
def Packet.Concerns (packet : Packet n) (i : Fin n) : Prop :=
  packet.sender = .client i ∧ packet.receiver = .server ∨
    packet.sender = .server ∧ packet.receiver = .client i

theorem Packet.Concerns.to_client {packet : Packet n} {i j : Fin n} (concerns : packet.Concerns j)
    (isReceiver : packet.receiver = .client i) : i = j ∧ packet.sender = .server := by
  rcases concerns with ⟨_, toServer⟩ | ⟨fromServer, toClient⟩
  · rw [isReceiver] at toServer
    cases toServer
  · rw [isReceiver] at toClient
    exact ⟨Address.client.inj toClient, fromServer⟩

theorem Packet.Concerns.to_server {packet : Packet n} {i : Fin n} (concerns : packet.Concerns i)
    (isReceiver : packet.receiver = .server) : packet.sender = .client i := by
  rcases concerns with ⟨fromClient, _⟩ | ⟨_, toClient⟩
  · exact fromClient
  · rw [isReceiver] at toClient
    cases toClient

/-- One reply for each message, the last one aside while the client waits. -/
def Client.Lockstep (client : Client n) : Prop :=
  client.sent.length = client.replies.length + if client.pc = .waiting then 1 else 0

structure Client.Genuine (client : Client n) : Prop where
  server : client.server = .server
  plain : ∀ message ∈ client.sent, Plain message
  replies : ∀ reply ∈ client.replies, reply ∈ client.sent
  lockstep : client.Lockstep

structure Genuine (s : State n) : Prop where
  clients : ∀ i, (s.clients i).Genuine
  copies : ∀ packet ∈ s.copies, ∃ i, packet.Concerns i ∧ packet.bytes ∈ (s.clients i).sent

section Genuine

variable {s next : State n} {action : Action n}

theorem start_copies (words : Fin n → List (Word bufferSize)) : (State.start words).copies = 0 := rfl

theorem start_genuine (words : Fin n → List (Word bufferSize)) : Genuine (State.start words) where
  clients _ := ⟨rfl, by simp [State.start], by simp [State.start], rfl⟩
  copies packet member := by
    rw [start_copies] at member
    cases member

/-- What holds of every client holds after one of them has changed. -/
theorem clients_update {property : Client n → Prop} {i : Fin n} {client : Client n}
    (isNext : next.clients = Function.update s.clients i client)
    (everywhere : ∀ j, property (s.clients j)) (here : property client) :
    ∀ j, property (next.clients j) := by
  intro j
  rw [isNext]
  by_cases same : j = i
  · rw [same, Function.update_self]
    exact here
  · rw [Function.update_of_ne same]
    exact everywhere j

/-- A client forgets none of its messages. -/
theorem sent_grows {i : Fin n} {client : Client n} {message : List Byte}
    (isNext : next.clients = Function.update s.clients i client)
    (grows : (s.clients i).sent <+: client.sent) (j : Fin n)
    (member : message ∈ (s.clients j).sent) : message ∈ (next.clients j).sent := by
  rw [isNext]
  by_cases same : j = i
  · subst same
    rw [Function.update_self]
    exact grows.subset member
  · rw [Function.update_of_ne same]
    exact member

theorem move_genuine (genuine : Genuine s) (move : Move s next action) : Genuine next := by
  cases move with
  | @closes i word rest here isNext isExit clients copies =>
      obtain ⟨server, plain, replies, lockstep⟩ := genuine.clients i
      refine ⟨clients_update clients genuine.clients ⟨server, plain, replies, ?_⟩, ?_⟩
      · simpa [Client.Lockstep, here] using lockstep
      · intro packet member
        rw [copies] at member
        obtain ⟨j, concerns, isSent⟩ := genuine.copies packet member
        exact ⟨j, concerns, sent_grows clients (List.prefix_refl _) j isSent⟩
  | @sends i word rest here isNext notExit clients copies =>
      obtain ⟨server, plain, replies, lockstep⟩ := genuine.clients i
      have grows : (s.clients i).sent <+: (s.clients i).sent ++ [word.string] :=
        List.prefix_append _ _
      refine ⟨clients_update clients genuine.clients ⟨server, ?_, ?_, ?_⟩, ?_⟩
      · intro message member
        rcases List.mem_append.mp member with earlier | isLast
        · exact plain message earlier
        · rw [List.mem_singleton.mp isLast]
          exact word_plain word
      · intro reply member
        exact grows.subset (replies reply member)
      · simpa [Client.Lockstep, here] using lockstep
      · intro packet member
        rw [copies] at member
        rcases Multiset.mem_cons.mp member with isNew | old
        · subst isNew
          refine ⟨i, Or.inl ⟨rfl, server⟩, ?_⟩
          rw [clients, Function.update_self]
          simp
        · obtain ⟨j, concerns, isSent⟩ := genuine.copies packet old
          exact ⟨j, concerns, sent_grows clients grows j isSent⟩
  | @prints i packet behind here isReceiver clients copies =>
      obtain ⟨j, concerns, isSent⟩ :=
        genuine.copies packet (by rw [copies]; exact Multiset.mem_cons_self _ _)
      obtain ⟨rfl, fromServer⟩ := concerns.to_client isReceiver
      obtain ⟨_, plain, replies, lockstep⟩ := genuine.clients i
      refine ⟨clients_update clients genuine.clients ⟨fromServer, plain, ?_, ?_⟩, ?_⟩
      · intro reply member
        rcases List.mem_append.mp member with earlier | isLast
        · exact replies reply earlier
        · rw [List.mem_singleton.mp isLast, printed_plain (plain _ isSent)]
          exact isSent
      · simpa [Client.Lockstep, here] using lockstep
      · intro other member
        obtain ⟨k, concerns, isSent⟩ :=
          genuine.copies other (by rw [copies]; exact Multiset.mem_cons_of_mem member)
        exact ⟨k, concerns, sent_grows clients (List.prefix_refl _) k isSent⟩
  | @turns packet others isReceiver clients before after =>
      refine ⟨by rw [clients]; exact genuine.clients, ?_⟩
      intro other member
      rw [clients]
      rw [after] at member
      rcases Multiset.mem_cons.mp member with isReply | old
      · subst isReply
        obtain ⟨i, concerns, isSent⟩ :=
          genuine.copies packet (by rw [before]; exact Multiset.mem_cons_self _ _)
        have whole := ((genuine.clients i).plain _ isSent).2
        refine ⟨i, Or.inr ⟨rfl, concerns.to_server isReceiver⟩, ?_⟩
        rw [List.take_of_length_le (Nat.le_of_lt whole)]
        exact isSent
      · exact genuine.copies other (by rw [before]; exact Multiset.mem_cons_of_mem old)
  | moves clients copies =>
      exact ⟨by rw [clients]; exact genuine.clients, by rw [clients, copies]; exact genuine.copies⟩
  | @doubles packet clients member copies =>
      refine ⟨by rw [clients]; exact genuine.clients, ?_⟩
      intro other isCopy
      rw [copies] at isCopy
      rw [clients]
      rcases Multiset.mem_cons.mp isCopy with isSame | old
      · rw [isSame]
        exact genuine.copies packet member
      · exact genuine.copies other old

end Genuine

/-- On any network a client prints only messages that it has sent itself, one
for each that it has sent, the last one aside while it waits. -/
theorem replies_are_messages (words : Fin n → List (Word bufferSize)) (actions : List (Action n)) :
    (echo words).Always (fun s => ∀ i,
        (∀ reply ∈ (s.clients i).replies, reply ∈ (s.clients i).sent) ∧
          (s.clients i).Lockstep)
      (State.start words) actions := by
  refine System.always_of_invariant Genuine (start_genuine words) ?_ ?_ actions
  · intro s action next genuine stepped
    exact move_genuine genuine (step_move stepped)
  · intro s genuine i
    exact ⟨(genuine.clients i).replies, (genuine.clients i).lockstep⟩

end OsLabs.Udp
