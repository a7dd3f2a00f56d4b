import OsLabs.Udp.Echo

/-!
# The UDP echo without duplicates

Where the network loses datagrams and delivers them in any order but doubles
none, a waiting client has one copy of its last message somewhere, so it prints
its messages in order.  When that copy is lost it waits for ever: neither side
sends anything again.
-/

set_option autoImplicit false

namespace OsLabs.Udp

open OsLabs.CString OsLabs.Transition

variable {n : Nat}

instance (i : Fin n) : DecidablePred fun packet : Packet n => packet.Concerns i :=
  fun packet => inferInstanceAs (Decidable (packet.sender = .client i ∧ packet.receiver = .server ∨
    packet.sender = .server ∧ packet.receiver = .client i))

def Action.isDuplicate : Action n → Bool
  | .duplicates _ => true
  | _ => false

def singleEcho (words : Fin n → List (Word bufferSize)) : System (State n) (Action n) :=
  (echo words).restrict fun action => !action.isDuplicate

/-- The copies of the last message of a client, wherever they are. -/
def State.copiesFor (s : State n) (i : Fin n) : Nat :=
  s.copies.countP fun packet => packet.Concerns i

theorem Packet.Concerns.unique {packet : Packet n} {i j : Fin n} (first : packet.Concerns i)
    (second : packet.Concerns j) : i = j := by
  rcases first with ⟨fromClient, toServer⟩ | ⟨fromServer, toClient⟩
  · exact Address.client.inj (fromClient.symm.trans (second.to_server toServer))
  · exact (second.to_client toClient).1

def Client.InOrder (client : Client n) : Prop := client.replies <+: client.sent

structure Single (s : State n) : Prop where
  genuine : Genuine s
  one : ∀ i, s.copiesFor i = if (s.clients i).pc = .waiting then 1 else 0
  last : ∀ i, ∀ packet ∈ s.copies, packet.Concerns i →
    (s.clients i).sent.getLast? = some packet.bytes
  inOrder : ∀ i, (s.clients i).InOrder

section Single

variable {s next : State n} {action : Action n} {i : Fin n}

theorem start_single (words : Fin n → List (Word bufferSize)) : Single (State.start words) where
  genuine := start_genuine words
  one _ := rfl
  last i packet member := by
    rw [start_copies] at member
    cases member
  inOrder _ := List.nil_prefix

/-- A client that does not wait has no copies under way. -/
theorem Single.none_for (single : Single s) (notWaiting : (s.clients i).pc ≠ .waiting)
    {packet : Packet n} (member : packet ∈ s.copies) : ¬ packet.Concerns i := by
  have nothing := single.one i
  rw [if_neg notWaiting] at nothing
  exact Multiset.countP_eq_zero.mp nothing packet member

theorem copiesFor_cons {packet : Packet n} {others : Multiset (Packet n)}
    (copies : s.copies = packet ::ₘ others) (i : Fin n) :
    s.copiesFor i = others.countP (fun other => other.Concerns i) +
      if packet.Concerns i then 1 else 0 := by
  rw [State.copiesFor, copies]
  exact Multiset.countP_cons _ _ _

/-- The last message of a client completes its replies. -/
theorem replies_complete {sent replies : List (List Byte)} {message : List Byte}
    (inOrder : replies <+: sent) (one : sent.length = replies.length + 1)
    (last : sent.getLast? = some message) : replies ++ [message] = sent := by
  obtain ⟨rest, rfl⟩ := inOrder
  rw [List.length_append, Nat.add_left_cancel_iff, List.length_eq_one_iff] at one
  obtain ⟨only, rfl⟩ := one
  rw [List.getLast?_append, List.getLast?_singleton, Option.some_or, Option.some.injEq] at last
  rw [last]

theorem move_single (single : Single s) (once : action.isDuplicate = false)
    (move : Move s next action) : Single next := by
  have genuine := move_genuine single.genuine move
  cases move with
  | @closes i word rest here isNext isExit clients copies =>
      refine ⟨genuine, fun j => ?_, fun j packet member concerns => ?_,
        clients_update clients single.inOrder (single.inOrder i)⟩
      · have counted := single.one j
        rw [State.copiesFor, copies, clients]
        by_cases same : j = i
        · subst same
          simpa [State.copiesFor, here] using counted
        · rw [Function.update_of_ne same]
          exact counted
      · rw [copies] at member
        rw [clients]
        by_cases same : j = i
        · subst same
          rw [Function.update_self]
          exact single.last j packet member concerns
        · rw [Function.update_of_ne same]
          exact single.last j packet member concerns
  | @sends i word rest here isNext notExit clients copies =>
      have isNew : Packet.Concerns ⟨.client i, (s.clients i).server, word.string⟩ i :=
        Or.inl ⟨rfl, (single.genuine.clients i).server⟩
      refine ⟨genuine, fun j => ?_, fun j packet member concerns => ?_,
        clients_update clients single.inOrder
          (List.IsPrefix.trans (single.inOrder i) (List.prefix_append _ _))⟩
      · have counted := single.one j
        rw [copiesFor_cons copies, clients]
        by_cases same : j = i
        · subst same
          rw [if_pos isNew, Function.update_self]
          rw [State.copiesFor, here] at counted
          simpa using counted
        · rw [if_neg fun concerns => same (concerns.unique isNew), Function.update_of_ne same]
          exact counted
      · rw [copies] at member
        rw [clients]
        rcases Multiset.mem_cons.mp member with isPacket | old
        · subst isPacket
          obtain rfl := concerns.unique isNew
          rw [Function.update_self]
          exact List.getLast?_concat
        · have same : j ≠ i := by
            intro same
            subst same
            exact single.none_for (by simp [here]) old concerns
          rw [Function.update_of_ne same]
          exact single.last j packet old concerns
  | @prints i packet behind here isReceiver clients copies =>
      have member : packet ∈ s.copies := by
        rw [copies]
        exact Multiset.mem_cons_self _ _
      obtain ⟨_, concerns, isSent⟩ := single.genuine.copies packet member
      obtain ⟨rfl, _⟩ := concerns.to_client isReceiver
      have lockstep := (single.genuine.clients i).lockstep
      rw [Client.Lockstep, if_pos here] at lockstep
      have complete := replies_complete (single.inOrder i) lockstep
        (single.last i packet member concerns)
      refine ⟨genuine, fun j => ?_, fun j other isCopy otherConcerns => ?_,
        clients_update clients single.inOrder ?_⟩
      · have counted := single.one j
        rw [copiesFor_cons copies] at counted
        rw [State.copiesFor, clients]
        by_cases same : j = i
        · subst same
          rw [if_pos concerns, if_pos here] at counted
          rw [Function.update_self]
          simpa using counted
        · rw [if_neg fun another => same (another.unique concerns)] at counted
          rw [Function.update_of_ne same]
          exact counted
      · have last := single.last j other
          (by rw [copies]; exact Multiset.mem_cons_of_mem isCopy) otherConcerns
        rw [clients]
        by_cases same : j = i
        · subst same
          rw [Function.update_self]
          exact last
        · rw [Function.update_of_ne same]
          exact last
      · rw [Client.InOrder, printed_plain ((single.genuine.clients i).plain _ isSent), complete]
  | @turns packet others isReceiver clients before after =>
      have member : packet ∈ s.copies := by
        rw [before]
        exact Multiset.mem_cons_self _ _
      obtain ⟨i, concerns, isSent⟩ := single.genuine.copies packet member
      have fromClient := concerns.to_server isReceiver
      have whole : packet.bytes.take bufferSize = packet.bytes :=
        List.take_of_length_le (Nat.le_of_lt ((single.genuine.clients i).plain _ isSent).2)
      have reply : Packet.Concerns
          ⟨.server, packet.sender, packet.bytes.take bufferSize⟩ i := Or.inr ⟨rfl, fromClient⟩
      refine ⟨genuine, fun j => ?_, fun j other isCopy otherConcerns => ?_,
        by rw [clients]; exact single.inOrder⟩
      · have counted := single.one j
        rw [copiesFor_cons before] at counted
        rw [copiesFor_cons after, clients, ← counted]
        by_cases same : j = i
        · subst same
          rw [if_pos concerns, if_pos reply]
        · rw [if_neg fun another => same (another.unique reply),
            if_neg fun another => same (another.unique concerns)]
      · rw [clients]
        rw [after] at isCopy
        rcases Multiset.mem_cons.mp isCopy with isReply | old
        · subst isReply
          obtain rfl := otherConcerns.unique reply
          rw [single.last j packet member concerns, whole]
        · exact single.last j other (by rw [before]; exact Multiset.mem_cons_of_mem old)
            otherConcerns
  | moves clients copies =>
      refine ⟨genuine, fun j => ?_, by rw [clients, copies]; exact single.last,
        by rw [clients]; exact single.inOrder⟩
      rw [State.copiesFor, copies, clients]
      exact single.one j
  | doubles clients member copies => cases once

end Single

/-- Without duplicates a client prints its messages in order, and while it waits
there is one packet for it, a copy of the last one, in the network, with the
server or lost. -/
theorem replies_in_order (words : Fin n → List (Word bufferSize)) (actions : List (Action n)) :
    (singleEcho words).Always (fun s => ∀ i, (s.clients i).replies <+: (s.clients i).sent ∧
        (s.clients i).Lockstep ∧
        s.copiesFor i = (if (s.clients i).pc = .waiting then 1 else 0) ∧
        ∀ packet ∈ s.copies, packet.Concerns i →
          (s.clients i).sent.getLast? = some packet.bytes)
      (State.start words) actions := by
  refine System.always_of_invariant Single (start_single words) ?_ ?_ actions
  · intro s action next single stepped
    obtain ⟨allowed, stepped⟩ := System.restrict_step _ _ _ _ _ stepped
    exact move_single single (by simpa using allowed) (step_move stepped)
  · intro s single i
    exact ⟨single.inOrder i, (single.genuine.clients i).lockstep, single.one i, single.last i⟩

/-! ## Waiting for ever -/

/-- The copy of the last message is lost, or is still on its way to a server that
has finished. -/
def State.Stuck (s : State n) (i : Fin n) : Prop :=
  (∃ packet ∈ s.lost, packet.Concerns i) ∨
    s.isFinished = true ∧
      ∃ packet ∈ s.network, packet.sender = .client i ∧ packet.receiver = .server

/-- Some continuation has the client print its next reply. -/
def CanPrint (words : Fin n → List (Word bufferSize)) (s : State n) (i : Fin n) : Prop :=
  (singleEcho words).Can
    (fun final => (s.clients i).replies.length < (final.clients i).replies.length) s

section Waiting

variable {words : Fin n → List (Word bufferSize)} {s next : State n} {action : Action n} {i : Fin n}

/-- Two places cannot both have a copy. -/
theorem Single.no_other (single : Single s) {packet : Packet n} {others : Multiset (Packet n)}
    (split : s.copies = packet ::ₘ others) (concerns : packet.Concerns i) {other : Packet n}
    (member : other ∈ others) : ¬ other.Concerns i := by
  have counted := single.one i
  rw [copiesFor_cons split, if_pos concerns] at counted
  have nothing : others.countP (fun other => other.Concerns i) = 0 := by
    split at counted <;> omega
  exact Multiset.countP_eq_zero.mp nothing other member

/-- What a stuck client keeps, and does not do. -/
theorem Single.stuck_step (single : Single s) (waiting : (s.clients i).pc = .waiting)
    (stuck : s.Stuck i) (once : action.isDuplicate = false)
    (stepped : step s action = some next) :
    next.clients i = s.clients i ∧ next.Stuck i := by
  cases action with
  | scans j =>
      simp only [step] at stepped
      split at stepped
      · rename_i word rest here isNext
        have elsewhere : i ≠ j := by
          intro same
          rw [← same, waiting] at here
          cases here
        split at stepped
        · cases stepped
          exact ⟨Function.update_of_ne elsewhere _ _, stuck⟩
        · cases stepped
          refine ⟨Function.update_of_ne elsewhere _ _, stuck.imp id ?_⟩
          rintro ⟨finished, packet, member, isRequest⟩
          exact ⟨finished, packet, Multiset.mem_cons_of_mem member, isRequest⟩
      · cases stepped
  | receives j packet behind =>
      simp only [step] at stepped
      split at stepped
      · rename_i possible
        obtain ⟨here, isReceiver, member⟩ := possible
        have split : s.copies = packet ::ₘ (s.network.erase packet + s.lost + s.held) := by
          rw [State.copies, ← Multiset.cons_add, ← Multiset.cons_add, Multiset.cons_erase member]
        have elsewhere : i ≠ j := by
          intro same
          subst same
          obtain ⟨k, concerns, _⟩ := single.genuine.copies packet
            (by rw [split]; exact Multiset.mem_cons_self _ _)
          obtain ⟨rfl, _⟩ := concerns.to_client isReceiver
          rcases stuck with ⟨other, isLost, otherConcerns⟩ | ⟨_, other, inNetwork, isRequest⟩
          · exact single.no_other split concerns (by simp [isLost]) otherConcerns
          · have different : other ≠ packet := by
              intro same
              rw [same, isReceiver] at isRequest
              cases isRequest.2
            refine single.no_other split concerns ?_ (Or.inl isRequest)
            simp [(Multiset.mem_erase_of_ne different).mpr inNetwork]
        cases stepped
        refine ⟨Function.update_of_ne elsewhere _ _, stuck.imp id ?_⟩
        rintro ⟨finished, other, inNetwork, isRequest⟩
        have different : other ≠ packet := by
          intro same
          rw [same, isReceiver] at isRequest
          cases isRequest.2
        exact ⟨finished, other, (Multiset.mem_erase_of_ne different).mpr inNetwork, isRequest⟩
      · cases stepped
  | serves packet =>
      simp only [step] at stepped
      split at stepped
      · rename_i possible
        cases stepped
        refine ⟨rfl, stuck.imp id ?_⟩
        rintro ⟨finished, _⟩
        rw [possible.1] at finished
        cases finished
      · cases stepped
  | answers =>
      simp only [step] at stepped
      split at stepped
      · cases stepped
      · cases stepped
        refine ⟨rfl, stuck.imp id ?_⟩
        rintro ⟨finished, packet, member, isRequest⟩
        exact ⟨finished, packet, Multiset.mem_add.mpr (Or.inr member), isRequest⟩
  | quits =>
      cases stepped
      refine ⟨rfl, stuck.imp ?_ ?_⟩
      · rintro ⟨packet, member, concerns⟩
        exact ⟨packet, Multiset.mem_add.mpr (Or.inr member), concerns⟩
      · rintro ⟨_, isThere⟩
        exact ⟨rfl, isThere⟩
  | loses packet =>
      simp only [step] at stepped
      split at stepped
      · cases stepped
        refine ⟨rfl, ?_⟩
        rcases stuck with ⟨other, isLost, concerns⟩ | ⟨finished, other, inNetwork, isRequest⟩
        · exact Or.inl ⟨other, Multiset.mem_cons_of_mem isLost, concerns⟩
        · by_cases same : other = packet
          · exact Or.inl ⟨packet, Multiset.mem_cons_self _ _, same ▸ Or.inl isRequest⟩
          · exact Or.inr ⟨finished, other, (Multiset.mem_erase_of_ne same).mpr inNetwork,
              isRequest⟩
      · cases stepped
  | duplicates packet => cases once

/-- A stuck client does nothing any more. -/
theorem stuck_silent (single : Single s) (waiting : (s.clients i).pc = .waiting)
    (stuck : s.Stuck i) : ¬ CanPrint words s i := by
  refine System.not_can_of_invariant
    (fun state => Single state ∧ state.clients i = s.clients i ∧ state.Stuck i) ?_ ?_
    ⟨single, rfl, stuck⟩
  · rintro state action next ⟨single, same, stuck⟩ stepped
    obtain ⟨allowed, stepped⟩ := System.restrict_step _ _ _ _ _ stepped
    have once : action.isDuplicate = false := by simpa using allowed
    obtain ⟨sameNext, stuckNext⟩ := single.stuck_step (by rw [same]; exact waiting) stuck once
      stepped
    exact ⟨move_single single once (step_move stepped), sameNext.trans same, stuckNext⟩
  · rintro final ⟨_, same, _⟩
    rw [same]
    exact Nat.lt_irrefl _

theorem singleEcho_step (words : Fin n → List (Word bufferSize)) (once : action.isDuplicate = false) :
    (singleEcho words).step s action = step s action := by
  simp [singleEcho, System.restrict, once, echo]

theorem CanPrint.now (stepped : step s action = some next) (once : action.isDuplicate = false)
    (longer : (s.clients i).replies.length < (next.clients i).replies.length) :
    CanPrint words s i :=
  System.Can.step ((singleEcho_step words once).trans stepped) (System.Can.now longer)

theorem CanPrint.after (stepped : step s action = some next) (once : action.isDuplicate = false)
    (same : (next.clients i).replies = (s.clients i).replies) (later : CanPrint words next i) :
    CanPrint words s i := by
  rw [CanPrint, same] at later
  exact System.Can.step ((singleEcho_step words once).trans stepped) later

theorem canPrint_of_reply {packet : Packet n} (waiting : (s.clients i).pc = .waiting)
    (isReceiver : packet.receiver = .client i) (member : packet ∈ s.network) :
    CanPrint words s i := by
  have stepped : step s (.receives i packet []) =
      some { s with
        clients := Function.update s.clients i
          { s.clients i with
            pc := .scanning, server := packet.sender
            replies := (s.clients i).replies ++ [printed packet.bytes []] }
        network := s.network.erase packet } := by
    simp [step, waiting, isReceiver, member]
  exact CanPrint.now stepped rfl (by simp)

theorem canPrint_of_held {bytes : List Byte} (waiting : (s.clients i).pc = .waiting)
    (serving : s.serving = some (.client i, bytes)) : CanPrint words s i := by
  have stepped : step s .answers =
      some { s with serving := none, network := s.held + s.network } := by
    simp [step, serving]
  have isHeld : (⟨.server, .client i, bytes⟩ : Packet n) ∈ s.held + s.network := by
    simp [State.held, serving]
  exact CanPrint.after stepped rfl rfl (canPrint_of_reply waiting rfl isHeld)

theorem canPrint_of_request {packet : Packet n} (waiting : (s.clients i).pc = .waiting)
    (running : s.isFinished = false) (idle : s.serving = none)
    (isRequest : packet.sender = .client i ∧ packet.receiver = .server)
    (member : packet ∈ s.network) : CanPrint words s i := by
  have stepped : step s (.serves packet) =
      some { s with
        serving := some (.client i, packet.bytes.take bufferSize)
        network := s.network.erase packet } := by
    simp [step, running, idle, isRequest, member]
  exact CanPrint.after stepped rfl rfl (canPrint_of_held waiting rfl)

theorem canPrint_of_not_stuck (single : Single s) (waiting : (s.clients i).pc = .waiting)
    (free : ¬ s.Stuck i) : CanPrint words s i := by
  have counted := single.one i
  rw [if_pos waiting] at counted
  obtain ⟨packet, member, concerns⟩ :=
    Multiset.countP_pos.mp (show 0 < s.copiesFor i by omega)
  rw [State.copies, Multiset.mem_add, Multiset.mem_add] at member
  rcases member with (inNetwork | isLost) | isHeld
  · rcases concerns with isRequest | ⟨_, isReceiver⟩
    · have running : s.isFinished = false := by
        by_contra finished
        exact free (Or.inr ⟨by simpa using finished, packet, inNetwork, isRequest⟩)
      cases serving : s.serving with
      | none => exact canPrint_of_request waiting running serving isRequest inNetwork
      | some request =>
          -- the server answers its request first
          have stepped : step s .answers =
              some { s with serving := none, network := s.held + s.network } := by
            simp [step, serving]
          refine CanPrint.after stepped rfl rfl
            (canPrint_of_request waiting running rfl isRequest ?_)
          exact Multiset.mem_add.mpr (Or.inr inNetwork)
    · exact canPrint_of_reply waiting isReceiver inNetwork
  · exact absurd (Or.inl ⟨packet, isLost, concerns⟩) free
  · cases serving : s.serving with
    | none =>
        simp [State.held, serving] at isHeld
    | some request =>
        obtain ⟨client, bytes⟩ := request
        simp only [State.held, serving, Multiset.mem_singleton] at isHeld
        subst isHeld
        rcases concerns with ⟨fromClient, _⟩ | ⟨_, toClient⟩
        · cases fromClient
        · obtain rfl : client = .client i := toClient
          exact canPrint_of_held waiting serving

end Waiting

/-- A waiting client can still get its reply exactly when the copy of its message
is neither lost nor on its way to a server that has finished. -/
theorem waiting_ends_iff (words : Fin n → List (Word bufferSize)) (s : State n)
    (reached : (singleEcho words).Reachable s) (i : Fin n)
    (waiting : (s.clients i).pc = .waiting) : CanPrint words s i ↔ ¬ s.Stuck i := by
  have single : Single s := by
    refine reached.invariant Single (start_single words) ?_
    intro state action next single stepped
    obtain ⟨allowed, stepped⟩ := System.restrict_step _ _ _ _ _ stepped
    exact move_single single (by simpa using allowed) (step_move stepped)
  constructor
  · intro assumed stuck
    exact stuck_silent single waiting stuck assumed
  · exact canPrint_of_not_stuck single waiting

def hi : Word bufferSize := ⟨text "hi", by decide⟩

/-- The request of the only client gets lost. -/
theorem lost_waits :
    ∃ s, (singleEcho fun _ : Fin 1 => [hi]).run (State.start fun _ => [hi])
        [.scans 0, .loses ⟨.client 0, .server, text "hi"⟩] = some s ∧
      ¬ CanPrint (fun _ => [hi]) s 0 := by
  refine ⟨_, rfl, ?_⟩
  rw [waiting_ends_iff (fun _ => [hi]) _
    ⟨[.scans 0, .loses ⟨.client 0, .server, text "hi"⟩], rfl⟩ 0 rfl, not_not]
  exact Or.inl ⟨_, Multiset.mem_cons_self (⟨.client 0, .server, text "hi"⟩ : Packet 1) 0,
    Or.inl ⟨rfl, rfl⟩⟩

end OsLabs.Udp
