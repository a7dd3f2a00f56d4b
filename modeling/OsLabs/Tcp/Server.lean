import OsLabs.Lib.Handles
import OsLabs.Lib.Transition
import OsLabs.Tcp.Echo

/-!
# The TCP echo server and its clients

`main` of `lab7/tcp/server.c` gives each connection to a thread of its own that
runs `connectionHandler`, in a block that nobody frees.  The descriptors and the
connections behind them are kept apart: a number that was closed may lead to
another client later.  `clients_apart` says that nevertheless each client gets
back what the handler makes of its own bytes.
-/

set_option autoImplicit false

namespace OsLabs.Tcp.Server

open OsLabs.CString OsLabs.Handles OsLabs.Transition

/-- The loop of `main`. -/
inductive Main where
  | accept
  | malloc (clientSocket : Fd)
  | fill (clientSocket : Fd) (newClient : Block)
  | pthreadCreate (clientSocket : Fd) (newClient : Block)
  deriving DecidableEq

/-- `connectionHandler` looks into its block at every call; `passed` is what
`main` has put there. -/
inductive Handler where
  | recv (clientSocket : Block) (passed : Fd)
  | write (clientSocket : Block) (passed : Fd) (reply : List Byte)
  | close (clientSocket : Block) (passed : Fd)
  | returned (clientSocket : Block)
  deriving DecidableEq

inductive Place where
  | unborn
  | main (pc : Main)
  | handler (pc : Handler)
  deriving DecidableEq

/-- The block stays with the handler that has returned. -/
def Place.resources : Place → List Resource
  | .main (.malloc fd) => [.descriptor fd]
  | .main (.fill fd block) | .main (.pthreadCreate fd block) | .handler (.recv block fd)
  | .handler (.write block fd _) | .handler (.close block fd) => [.descriptor fd, .block block]
  | .handler (.returned block) => [.block block]
  | _ => []

def Place.knows : Place → List (Block × Fd)
  | .main (.pthreadCreate fd block) | .handler (.recv block fd) | .handler (.write block fd _)
  | .handler (.close block fd) => [(block, fd)]
  | _ => []

theorem knows_own (place : Place) (known : Block × Fd) (member : known ∈ place.knows) :
    .block known.1 ∈ place.resources := by
  unfold Place.knows at member
  split at member
  case h_5 => cases member
  all_goals
    rw [List.mem_singleton.mp member, Place.resources]
    simp

theorem knows_descriptor (place : Place) (known : Block × Fd) (member : known ∈ place.knows) :
    .descriptor known.2 ∈ place.resources := by
  unfold Place.knows at member
  split at member
  case h_5 => cases member
  all_goals
    rw [List.mem_singleton.mp member, Place.resources]
    simp

def roles : Roles Place := ⟨.unborn, Place.resources, Place.knows, rfl, knows_own⟩

/-- What has happened on a connection: all that the client has sent, what of it
was not received yet, the chunks, and what was written back. -/
structure Connection where
  arrived : List Byte
  toServer : List Byte
  receives : List Receive
  written : List Byte

/-- `route` leads from a descriptor to its connection; these are numbered as they
are accepted. -/
structure State where
  process : Process Place
  route : Fd → Nat
  accepted : Nat
  connections : Nat → Connection
  isFinished : Bool
  ended : Bool

/-- `main` and `recv` carry what the system answers, `write` whether it succeeds. -/
inductive Action where
  | sends (connection : Nat) (bytes : List Byte)
  | quits
  | exits
  | main (answer : Option Nat)
  | recv (tid : Tid) (receive : Option Receive)
  | write (tid : Tid) (succeeds : Bool)
  | close (tid : Tid)

def mainThread : Tid := 0

namespace State

def within (s : State) (process : Process Place) : State := { s with process := process }

def goto (s : State) (tid : Tid) (place : Place) : State := s.within (s.process.goto tid place)

def fault (s : State) : State := s.within s.process.fault

def log (s : State) (connection : Nat) (entry : Connection) : State :=
  { s with connections := Function.update s.connections connection entry }

/-- `*clientSocket`, if it is an open descriptor. -/
def socket (s : State) (block : Block) : Option Fd :=
  match s.process.heap block with
  | some (some fd) => if s.process.isOpen fd then some fd else none
  | _ => none

end State

/-- `accept` that fails ends the server, and so does the descriptor 0; without a
block the server dies in the assignment, without a thread in `myShutdown`. -/
def Main.step (s : State) (answer : Option Nat) : Main → Option State
  | .accept =>
      match answer with
      | some 0 | none => some { s with ended := true }
      | some fd =>
          (s.process.openNew mainThread fd (.main (.malloc fd))).map fun process =>
            { s with
              process := process, route := Function.update s.route fd s.accepted
              accepted := s.accepted + 1 }
  | .malloc fd =>
      match answer with
      | some block => (s.process.malloc mainThread block (.main (.fill fd block))).map s.within
      | none => some { s with ended := true }
  | .fill fd block =>
      some (s.within (s.process.fill mainThread fd block (.main (.pthreadCreate fd block))))
  | .pthreadCreate fd block =>
      match answer with
      | some child =>
          ((s.process.goto mainThread (.main .accept)).create roles child
            (.handler (.recv block fd))).map s.within
      | none => some { s with ended := true }

/-- A `recv` that fails looks like a long message to the loop: its empty string is
written back, and that ends the loop just as 0 does. -/
def recv (s : State) (tid : Tid) (block : Block) (passed : Fd) (receive : Option Receive) :
    Option State :=
  match s.socket block, receive with
  | none, _ => some s.fault
  | some _, none => some (s.goto tid (.handler (.close block passed)))
  | some fd, some receive =>
      let connection := s.connections (s.route fd)
      if receive.isFinished = s.isFinished ∧ receive.bytes <+: connection.toServer then
        let entry := { connection with
          toServer := connection.toServer.drop receive.bytes.length
          receives := connection.receives ++ [receive] }
        some ((s.log (s.route fd) entry).goto tid
          (if receive.isFinished then .handler (.close block passed)
            else .handler (.write block passed receive.reply)))
      else none

def write (s : State) (tid : Tid) (block : Block) (passed : Fd) (reply : List Byte)
    (succeeds : Bool) : Option State :=
  match s.socket block with
  | none => some s.fault
  | some fd =>
      if succeeds then
        let connection := s.connections (s.route fd)
        let entry := { connection with written := connection.written ++ reply }
        some ((s.log (s.route fd) entry).goto tid
          (if asInt reply.length ≤ 0 then .handler (.close block passed)
            else .handler (.recv block passed)))
      else some (s.goto tid (.handler (.close block passed)))

def close (s : State) (tid : Tid) (block : Block) : State :=
  match s.process.heap block with
  | some (some fd) => s.within (s.process.close tid fd (.handler (.returned block)))
  | _ => s.fault

/-- `quits` and `exits` are `inputHandler` after a `q`. -/
def step (s : State) (action : Action) : Option State :=
  if s.ended then none
  else
    match action with
    | .sends connection bytes =>
        let entry := s.connections connection
        some (s.log connection { entry with
          arrived := entry.arrived ++ bytes, toServer := entry.toServer ++ bytes })
    | .quits => some { s with isFinished := true }
    | .exits => if s.isFinished then some { s with ended := true } else none
    | .main answer =>
        match s.process.place mainThread with
        | .main pc => pc.step s answer
        | _ => none
    | .recv tid receive =>
        match s.process.place tid with
        | .handler (.recv block passed) => recv s tid block passed receive
        | _ => none
    | .write tid succeeds =>
        match s.process.place tid with
        | .handler (.write block passed reply) => write s tid block passed reply succeeds
        | _ => none
    | .close tid =>
        match s.process.place tid with
        | .handler (.close block _) => some (close s tid block)
        | _ => none

/-- After `listen`; no descriptor leads anywhere yet. -/
def State.start (mySocket : Fd) : State where
  process := .start roles mySocket (.main .accept)
  route := fun _ => 0
  accepted := 0
  connections := fun _ => ⟨[], [], [], []⟩
  isFinished := false
  ended := false

def server (mySocket : Fd) : System State Action := ⟨.start mySocket, step⟩

/-- Each client gets back what the handler alone makes of its bytes, as far as it
was written; a handler that waits has written all of it. -/
structure Apart (mySocket : Fd) (s : State) : Prop where
  accounted : Accounted roles mySocket s.process
  received : ∀ connection, (s.connections connection).arrived =
    stream (s.connections connection).receives ++ (s.connections connection).toServer
  written : ∀ connection, (s.connections connection).written <+:
    writtenBack (s.connections connection).receives
  waiting : ∀ tid block fd, s.process.place tid = .handler (.recv block fd) →
    s.socket block = some fd ∧ (s.connections (s.route fd)).written =
      writtenBack (s.connections (s.route fd)).receives
  routes : ∀ first second firstFd secondFd,
    roles.Holds (s.process.place first) (.descriptor firstFd) →
      roles.Holds (s.process.place second) (.descriptor secondFd) →
        s.route firstFd = s.route secondFd → first = second

/-! ## A connection on its own -/

/-- No pass has ended the loop. -/
def Steady (receives : List Receive) : Prop :=
  ∀ receive ∈ receives, receive.isFinished = false ∧ 0 < asInt receive.reply.length

theorem writtenBack_snoc {receives : List Receive} (steady : Steady receives) (last : Receive) :
    writtenBack (receives ++ [last]) =
      writtenBack receives ++ if last.isFinished then [] else last.reply := by
  induction receives with
  | nil =>
      cases quit : last.isFinished with
      | true =>
          rw [List.nil_append, writtenBack, receiveLoop_quit last [] (by simp [quit])]
          simp [writtenBack, connectionHandler, receiveLoop]
      | false =>
          rw [List.nil_append, writtenBack, receiveLoop_cons last [] quit]
          split <;> simp [writtenBack, connectionHandler, receiveLoop]
  | cons receive rest ih =>
      obtain ⟨serving, more⟩ := steady receive List.mem_cons_self
      have restSteady : Steady rest := fun later member =>
        steady later (List.mem_cons_of_mem receive member)
      have split := ih restSteady
      simp only [writtenBack] at split ⊢
      rw [List.cons_append, receiveLoop_cons receive _ serving, receiveLoop_cons receive _ serving,
        if_neg (by omega), if_neg (by omega), List.map_cons, List.map_cons, List.flatten_cons,
        List.flatten_cons, split, List.append_assoc]

/-- The bytes are all there, and nothing else was written. -/
structure Connection.Good (connection : Connection) : Prop where
  received : connection.arrived = stream connection.receives ++ connection.toServer
  written : connection.written <+: writtenBack connection.receives

/-- How far the thread that has the connection is with it. -/
def Place.Current (connection : Connection) : Place → Prop
  | .main (.malloc _) | .main (.fill _ _) | .main (.pthreadCreate _ _) | .handler (.recv _ _) =>
      Steady connection.receives ∧ connection.written = writtenBack connection.receives
  | .handler (.write _ _ reply) =>
      ∃ front last, connection.receives = front ++ [last] ∧ last.isFinished = false ∧
        last.reply = reply ∧ Steady front ∧ connection.written = writtenBack front
  | _ => True

theorem start_good : Connection.Good ⟨[], [], [], []⟩ := ⟨rfl, List.nil_prefix⟩

theorem Connection.Good.sends {connection : Connection} (good : connection.Good)
    (bytes : List Byte) :
    Connection.Good { connection with
      arrived := connection.arrived ++ bytes, toServer := connection.toServer ++ bytes } where
  received := by rw [good.received, List.append_assoc]
  written := good.written

theorem Connection.Good.receives {connection : Connection} (good : connection.Good)
    (steady : Steady connection.receives) {receive : Receive}
    (front : receive.bytes <+: connection.toServer) :
    Connection.Good { connection with
      toServer := connection.toServer.drop receive.bytes.length
      receives := connection.receives ++ [receive] } where
  received := by
    obtain ⟨rest, isRest⟩ := front
    rw [good.received, ← isRest, List.drop_left]
    simp [stream]
  written := by
    rw [writtenBack_snoc steady]
    exact good.written.trans (List.prefix_append _ _)

/-! ## The server -/

/-- A thread has one descriptor at most. -/
theorem one_socket {place : Place} {first second : Fd}
    (firstHolds : roles.Holds place (.descriptor first))
    (secondHolds : roles.Holds place (.descriptor second)) : first = second := by
  have both := And.intro firstHolds secondHolds
  simp only [Roles.Holds, roles] at both
  unfold Place.resources at both
  split at both <;> simp_all

structure Serving (mySocket : Fd) (s : State) : Prop where
  handed : ∃ owner, Handed roles mySocket owner s.process
  routes : ∀ tid fd, roles.Holds (s.process.place tid) (.descriptor fd) → s.route fd < s.accepted
  apart : ∀ first second firstFd secondFd,
    roles.Holds (s.process.place first) (.descriptor firstFd) →
      roles.Holds (s.process.place second) (.descriptor secondFd) →
        s.route firstFd = s.route secondFd → firstFd = secondFd
  fresh : ∀ connection, s.accepted ≤ connection →
    (s.connections connection).receives = [] ∧ (s.connections connection).written = []
  good : ∀ connection, (s.connections connection).Good
  current : ∀ tid fd, roles.Holds (s.process.place tid) (.descriptor fd) →
    (s.process.place tid).Current (s.connections (s.route fd))

section Steps

variable {mySocket : Fd} {s next : State} {tid : Tid}

/-- The threads go on, and each connection is in the hands it was in, or in those
of a thread that knows as much about it. -/
theorem Serving.rearranges (serving : Serving mySocket s) {process : Process Place}
    (handed : ∃ owner, Handed roles mySocket owner process)
    (origin : ∀ tid fd, roles.Holds (process.place tid) (.descriptor fd) →
      ∃ before, roles.Holds (s.process.place before) (.descriptor fd) ∧
        ∀ connection, (s.process.place before).Current connection →
          (process.place tid).Current connection) : Serving mySocket (s.within process) where
  handed := handed
  routes tid fd holds := by
    obtain ⟨before, held, _⟩ := origin tid fd holds
    exact serving.routes before fd held
  apart first second firstFd secondFd firstHolds secondHolds same := by
    obtain ⟨firstBefore, firstHeld, _⟩ := origin first firstFd firstHolds
    obtain ⟨secondBefore, secondHeld, _⟩ := origin second secondFd secondHolds
    exact serving.apart firstBefore secondBefore firstFd secondFd firstHeld secondHeld same
  fresh := serving.fresh
  good := serving.good
  current tid fd holds := by
    obtain ⟨before, held, keeps⟩ := origin tid fd holds
    exact keeps _ (serving.current before fd held)

/-- A thread moves in one connection, and no other thread has to do with it. -/
theorem Serving.serves (serving : Serving mySocket s) {fd : Fd} {place : Place}
    {entry : Connection} (holds : roles.Holds (s.process.place tid) (.descriptor fd))
    (same : place.resources = (s.process.place tid).resources)
    (known : roles.Known s.process.heap place) (good : entry.Good) (current : place.Current entry) :
    Serving mySocket ((s.log (s.route fd) entry).goto tid place) := by
  obtain ⟨owner, handed⟩ := serving.handed
  have hadBefore : ∀ other otherFd,
      roles.Holds (Function.update s.process.place tid place other) (.descriptor otherFd) →
        roles.Holds (s.process.place other) (.descriptor otherFd) := by
    intro other otherFd held
    by_cases here : other = tid
    · subst here
      rw [Function.update_self] at held
      simpa [Roles.Holds, roles, same] using held
    · rwa [Function.update_of_ne here] at held
  refine ⟨⟨owner, handed.goes same known⟩, fun other otherFd held => ?_,
    fun first second firstFd secondFd firstHeld secondHeld => ?_, fun connection isFresh => ?_,
    fun connection => ?_, fun other otherFd held => ?_⟩
  · exact serving.routes other otherFd (hadBefore other otherFd held)
  · exact serving.apart first second firstFd secondFd (hadBefore first firstFd firstHeld)
      (hadBefore second secondFd secondHeld)
  · have isOther : connection ≠ s.route fd := by
      rintro rfl
      have routed := serving.routes tid fd holds
      exact absurd isFresh (Nat.not_le.mpr routed)
    simp only [State.goto, State.within, State.log, Function.update_of_ne isOther]
    exact serving.fresh connection isFresh
  · by_cases here : connection = s.route fd
    · simp only [State.goto, State.within, State.log, here, Function.update_self]
      exact good
    · simp only [State.goto, State.within, State.log, Function.update_of_ne here]
      exact serving.good connection
  · have heldBefore := hadBefore other otherFd held
    by_cases here : other = tid
    · subst here
      have isFd := one_socket heldBefore holds
      subst isFd
      simp only [State.goto, State.within, State.log, Process.goto, Function.update_self]
      exact current
    · have different : s.route otherFd ≠ s.route fd := by
        intro isSame
        have isFd := serving.apart other tid otherFd fd heldBefore holds isSame
        subst isFd
        exact here (handed.owners.unique heldBefore holds)
      simp only [State.goto, State.within, State.log, Process.goto,
        Function.update_of_ne different, Function.update_of_ne here]
      exact serving.current other otherFd heldBefore

/-- A thread goes on with the connection it has, or without it. -/
theorem Serving.rearranges_one (serving : Serving mySocket s) {process : Process Place}
    {place : Place} (handed : ∃ owner, Handed roles mySocket owner process)
    (moved : process.place = Function.update s.process.place tid place)
    (held : ∀ fd, roles.Holds place (.descriptor fd) →
      roles.Holds (s.process.place tid) (.descriptor fd))
    (keeps : ∀ connection, (s.process.place tid).Current connection → place.Current connection) :
    Serving mySocket (s.within process) := by
  refine serving.rearranges handed fun other fd holds => ⟨other, ?_⟩
  rw [moved] at holds ⊢
  by_cases here : other = tid
  · subst here
    rw [Function.update_self] at holds ⊢
    exact ⟨held fd holds, keeps⟩
  · rw [Function.update_of_ne here] at holds ⊢
    exact ⟨holds, fun connection current => current⟩

theorem Serving.ends (serving : Serving mySocket s) : Serving mySocket { s with ended := true } :=
  ⟨serving.handed, serving.routes, serving.apart, serving.fresh, serving.good, serving.current⟩

/-- The descriptor may have led to another connection before. -/
theorem Serving.accepts (serving : Serving mySocket s) {fd : Fd} {process : Process Place}
    (idle : (s.process.place mainThread).resources = [])
    (opened : s.process.openNew mainThread fd (.main (.malloc fd)) = some process) :
    Serving mySocket { s with
      process := process, route := Function.update s.route fd s.accepted
      accepted := s.accepted + 1 } := by
  obtain ⟨owner, handed⟩ := serving.handed
  have handedNext := handed.opens (by rfl) idle (by rfl) opened
  unfold Process.openNew at opened
  split at opened
  · cases opened
  rename_i closed
  cases opened
  have heldCases : ∀ other otherFd,
      roles.Holds (Function.update s.process.place mainThread (.main (.malloc fd)) other)
        (.descriptor otherFd) →
          other = mainThread ∧ otherFd = fd ∨
            other ≠ mainThread ∧ otherFd ≠ fd ∧
              roles.Holds (s.process.place other) (.descriptor otherFd) := by
    intro other otherFd held
    by_cases here : other = mainThread
    · subst here
      rw [Function.update_self] at held
      refine Or.inl ⟨rfl, ?_⟩
      simpa [Roles.Holds, roles, Place.resources] using held
    · rw [Function.update_of_ne here] at held
      refine Or.inr ⟨here, ?_, held⟩
      rintro rfl
      exact closed (handed.own_open held).1
  refine ⟨handedNext, fun other otherFd held => ?_,
    fun first second firstFd secondFd firstHeld secondHeld same => ?_,
    fun connection isFresh => serving.fresh connection (Nat.le_of_succ_le isFresh), serving.good,
    fun other otherFd held => ?_⟩
  · rcases heldCases other otherFd held with ⟨_, rfl⟩ | ⟨_, different, heldBefore⟩
    · simp
    · simp only [Function.update_of_ne different]
      exact Nat.lt_succ_of_lt (serving.routes other otherFd heldBefore)
  · simp only at same
    rcases heldCases first firstFd firstHeld with ⟨_, rfl⟩ | ⟨_, firstOther, firstBefore⟩ <;>
      rcases heldCases second secondFd secondHeld with ⟨_, rfl⟩ | ⟨_, secondOther, secondBefore⟩
    · rfl
    · rw [Function.update_self, Function.update_of_ne secondOther] at same
      have routed := serving.routes second secondFd secondBefore
      omega
    · rw [Function.update_self, Function.update_of_ne firstOther] at same
      have routed := serving.routes first firstFd firstBefore
      omega
    · rw [Function.update_of_ne firstOther, Function.update_of_ne secondOther] at same
      exact serving.apart first second firstFd secondFd firstBefore secondBefore same
  · rcases heldCases other otherFd held with ⟨rfl, rfl⟩ | ⟨notMain, different, heldBefore⟩
    · obtain ⟨nothing, unwritten⟩ := serving.fresh s.accepted (Nat.le_refl _)
      simp only [Process.goto, Function.update_self]
      refine ⟨fun receive member => ?_, ?_⟩
      · rw [nothing] at member
        cases member
      · rw [nothing, unwritten]
        rfl
    · simp only [Process.goto, Function.update_of_ne notMain, Function.update_of_ne different]
      exact serving.current other otherFd heldBefore

theorem Serving.socket (serving : Serving mySocket s) {block : Block} {passed : Fd}
    (known : (block, passed) ∈ (s.process.place tid).knows) :
    s.socket block = some passed ∧ roles.Holds (s.process.place tid) (.descriptor passed) := by
  obtain ⟨owner, handed⟩ := serving.handed
  have holds := knows_descriptor _ _ known
  have filled := handed.known tid (block, passed) known
  refine ⟨?_, holds⟩
  simp only at filled
  simp only [State.socket, filled, (handed.own_open holds).1, if_true]

theorem Main.step_serving (serving : Serving mySocket s) {answer : Option Nat} {pc : Main}
    (here : s.process.place mainThread = .main pc) (stepped : pc.step s answer = some next) :
    Serving mySocket next := by
  obtain ⟨owner, handed⟩ := serving.handed
  have has : roles.resources (s.process.place mainThread) = (Place.main pc).resources := by
    rw [here]
    rfl
  cases pc with
  | accept =>
      simp only [Main.step] at stepped
      split at stepped
      · cases stepped
        exact serving.ends
      · cases stepped
        exact serving.ends
      · rename_i fd _
        obtain ⟨process, opened, rfl⟩ := Option.map_eq_some_iff.mp stepped
        exact serving.accepts has opened
  | malloc fd =>
      cases answer with
      | none =>
          cases stepped
          exact serving.ends
      | some block =>
          obtain ⟨process, allocated, rfl⟩ := Option.map_eq_some_iff.mp stepped
          refine serving.rearranges_one (handed.mallocs has (by rfl) (by rfl) allocated)
            (Process.malloc_place allocated) (fun other held => ?_) fun connection current => ?_
          · rw [Roles.Holds, has]
            simpa [Roles.Holds, roles, Place.resources] using held
          · rwa [here] at current
  | fill fd block =>
      cases stepped
      have own : roles.Holds (s.process.place mainThread) (.block block) := by
        rw [Roles.Holds, has]
        simp [Place.resources]
      refine serving.rearranges_one
        ⟨owner, handed.fills own has.symm fun found member => List.mem_singleton.mp member⟩
        (Process.fill_place (handed.own_block own)) (fun other held => ?_)
        fun connection current => ?_
      · rw [Roles.Holds, has]
        exact held
      · rwa [here] at current
  | pthreadCreate fd block =>
      cases answer with
      | none =>
          cases stepped
          exact serving.ends
      | some child =>
          obtain ⟨process, created, rfl⟩ := Option.map_eq_some_iff.mp stepped
          have known := handed.known mainThread
          rw [here] at known
          have handedNext : ∃ owner, Handed roles mySocket owner process := by
            refine handed.creates ?_ ?_ ?_ ?_ created
            · rfl
            · simp [roles]
            · exact has.symm
            · exact known
          unfold Process.create at created
          split at created <;> cases created
          refine serving.rearranges handedNext fun other otherFd held => ?_
          simp only [Process.goto] at held ⊢
          by_cases isChild : other = child
          · subst isChild
            rw [Function.update_self] at held ⊢
            refine ⟨mainThread, ?_, fun connection current => ?_⟩
            · rw [Roles.Holds, has]
              exact held
            · rwa [here] at current
          · rw [Function.update_of_ne isChild] at held ⊢
            by_cases isMain : other = mainThread
            · rw [isMain, Function.update_self] at held
              cases held
            · rw [Function.update_of_ne isMain] at held ⊢
              exact ⟨other, held, fun connection current => current⟩

/-- A handler that has not closed its socket yet. -/
structure Running (s : State) (tid : Tid) (block : Block) (passed : Fd) (pc : Handler) : Prop where
  has : roles.resources (s.process.place tid) = [.descriptor passed, .block block]
  holds : roles.Holds (s.process.place tid) (.descriptor passed)
  socket : s.socket block = some passed
  filled : s.process.heap block = some (some passed)
  known : roles.Known s.process.heap (.handler pc)
  current : (Place.handler pc).Current (s.connections (s.route passed))

theorem Serving.running (serving : Serving mySocket s) {block : Block} {passed : Fd} {pc : Handler}
    (here : s.process.place tid = .handler pc)
    (has : (Place.handler pc).resources = [.descriptor passed, .block block])
    (knows : (Place.handler pc).knows = [(block, passed)]) : Running s tid block passed pc := by
  obtain ⟨owner, handed⟩ := serving.handed
  have isKnown : (block, passed) ∈ (s.process.place tid).knows := by
    rw [here, knows]
    exact List.mem_singleton.mpr rfl
  obtain ⟨isSocket, holds⟩ := serving.socket isKnown
  refine ⟨?_, holds, isSocket, handed.known tid _ isKnown, ?_, ?_⟩
  · rw [here]
    exact has
  · rw [← here]
    exact handed.known tid
  · rw [← here]
    exact serving.current tid passed holds

/-- Out of the loop. -/
theorem Serving.leaves (serving : Serving mySocket s) {block : Block} {passed : Fd} {pc : Handler}
    (running : Running s tid block passed pc) :
    Serving mySocket (s.goto tid (.handler (.close block passed))) := by
  obtain ⟨owner, handed⟩ := serving.handed
  have known : roles.Known s.process.heap (.handler (.close block passed)) := by
    intro found member
    rw [List.mem_singleton.mp member]
    exact running.filled
  refine serving.rearranges_one ⟨owner, handed.goes running.has.symm known⟩ rfl (fun fd held => ?_)
    fun connection current => trivial
  rw [Roles.Holds, running.has]
  exact held

theorem recv_serving (serving : Serving mySocket s) {block : Block} {passed : Fd}
    {receive : Option Receive} (here : s.process.place tid = .handler (.recv block passed))
    (stepped : recv s tid block passed receive = some next) : Serving mySocket next := by
  have running := serving.running here rfl rfl
  obtain ⟨steady, written⟩ := running.current
  cases receive with
  | none =>
      simp only [recv, running.socket] at stepped
      cases stepped
      exact serving.leaves running
  | some receive =>
      simp only [recv, running.socket] at stepped
      split at stepped
      · rename_i possible
        cases stepped
        have good := (serving.good (s.route passed)).receives steady possible.2
        cases quit : receive.isFinished with
        | true => exact serving.serves running.holds running.has.symm running.known good trivial
        | false =>
            exact serving.serves running.holds running.has.symm running.known good
              ⟨_, _, rfl, quit, rfl, steady, written⟩
      · cases stepped

theorem write_serving (serving : Serving mySocket s) {block : Block} {passed : Fd}
    {reply : List Byte} {succeeds : Bool}
    (here : s.process.place tid = .handler (.write block passed reply))
    (stepped : write s tid block passed reply succeeds = some next) : Serving mySocket next := by
  have running := serving.running here rfl rfl
  obtain ⟨front, last, isReceives, serves, isReply, steady, written⟩ := running.current
  simp only [write, running.socket] at stepped
  split at stepped
  · cases stepped
    have allWritten : (s.connections (s.route passed)).written ++ reply =
        writtenBack (s.connections (s.route passed)).receives := by
      rw [isReceives, writtenBack_snoc steady, serves, written, isReply]
      rfl
    have good := serving.good (s.route passed)
    have goodNext : Connection.Good { s.connections (s.route passed) with
        written := (s.connections (s.route passed)).written ++ reply } :=
      ⟨good.received, allWritten ▸ List.prefix_refl _⟩
    by_cases nothing : asInt reply.length ≤ 0
    · rw [if_pos nothing]
      exact serving.serves running.holds running.has.symm running.known goodNext trivial
    · rw [if_neg nothing]
      refine serving.serves running.holds running.has.symm running.known goodNext
        ⟨fun receive member => ?_, allWritten⟩
      simp only [isReceives, List.mem_append, List.mem_singleton] at member
      rcases member with earlier | isLast
      · exact steady receive earlier
      · rw [isLast, isReply]
        exact ⟨serves, Int.not_le.mp nothing⟩
  · cases stepped
    exact serving.leaves running

theorem close_serving (serving : Serving mySocket s) {block : Block} {passed : Fd}
    (here : s.process.place tid = .handler (.close block passed)) :
    Serving mySocket (close s tid block) := by
  obtain ⟨owner, handed⟩ := serving.handed
  have running := serving.running here rfl rfl
  have after : ∀ other, roles.Holds (.handler (.returned block)) other ↔
      roles.Holds (s.process.place tid) other ∧ other ≠ .descriptor passed := by
    intro other
    rw [Roles.Holds, Roles.Holds, running.has]
    cases other <;> simp [roles, Place.resources]
  simp only [close, running.filled]
  refine serving.rearranges_one (handed.closes running.holds after rfl)
    (Process.close_place (handed.own_open running.holds).1) (fun fd held => ?_)
    fun connection current => trivial
  exact ((after _).mp held).1

theorem Serving.sends (serving : Serving mySocket s) (connection : Nat) (bytes : List Byte) :
    Serving mySocket (s.log connection { s.connections connection with
      arrived := (s.connections connection).arrived ++ bytes
      toServer := (s.connections connection).toServer ++ bytes }) := by
  refine ⟨serving.handed, serving.routes, serving.apart, fun other isFresh => ?_, fun other => ?_,
    fun tid fd holds => ?_⟩
  · have before := serving.fresh other isFresh
    by_cases here : other = connection
    · subst here
      simpa [State.log] using before
    · simpa [State.log, Function.update_of_ne here] using before
  · have before := serving.good other
    by_cases here : other = connection
    · subst here
      simpa [State.log] using before.sends bytes
    · simpa [State.log, Function.update_of_ne here] using before
  · have before := serving.current tid fd holds
    by_cases here : s.route fd = connection
    · subst here
      simpa [State.log, Place.Current] using before
    · simpa [State.log, Function.update_of_ne here] using before

theorem step_serving (serving : Serving mySocket s) {action : Action}
    (stepped : step s action = some next) : Serving mySocket next := by
  unfold step at stepped
  split at stepped
  · cases stepped
  cases action with
  | sends connection bytes =>
      cases stepped
      exact serving.sends connection bytes
  | quits =>
      cases stepped
      exact ⟨serving.handed, serving.routes, serving.apart, serving.fresh, serving.good,
        serving.current⟩
  | exits =>
      simp only at stepped
      split at stepped
      · cases stepped
        exact serving.ends
      · cases stepped
  | main answer =>
      simp only at stepped
      split at stepped
      · rename_i pc here
        exact Main.step_serving serving here stepped
      · cases stepped
  | recv tid receive =>
      simp only at stepped
      split at stepped
      · rename_i block passed here
        exact recv_serving serving here stepped
      · cases stepped
  | write tid succeeds =>
      simp only at stepped
      split at stepped
      · rename_i block passed reply here
        exact write_serving serving here stepped
      · cases stepped
  | close tid =>
      simp only at stepped
      split at stepped
      · rename_i block passed here
        cases stepped
        exact close_serving serving here
      · cases stepped

theorem start_serving (mySocket : Fd) : Serving mySocket (.start mySocket) := by
  have handed : Handed roles mySocket (fun _ => none) (State.start mySocket).process :=
    start_handed mySocket rfl
  have idle : ∀ tid fd, ¬ roles.Holds ((State.start mySocket).process.place tid)
      (.descriptor fd) := by
    intro tid fd holds
    exact handed.has holds rfl
  exact ⟨⟨_, handed⟩, fun tid fd holds => absurd holds (idle tid fd),
    fun first _ firstFd _ holds => absurd holds (idle first firstFd), fun _ _ => ⟨rfl, rfl⟩,
    fun _ => start_good, fun tid fd holds => absurd holds (idle tid fd)⟩

theorem Serving.isApart (serving : Serving mySocket s) : Apart mySocket s := by
  obtain ⟨owner, handed⟩ := serving.handed
  refine ⟨handed.accounted, fun connection => (serving.good connection).received,
    fun connection => (serving.good connection).written, fun tid block fd here => ?_,
    fun first second firstFd secondFd firstHolds secondHolds same => ?_⟩
  · have running := serving.running here rfl rfl
    exact ⟨running.socket, running.current.2⟩
  · have isFd := serving.apart first second firstFd secondFd firstHolds secondHolds same
    subst isFd
    exact handed.owners.unique firstHolds secondHolds

end Steps

/-- However the threads interleave, and whichever numbers the system gives again. -/
theorem clients_apart (mySocket : Fd) (actions : List Action) :
    (server mySocket).Always (Apart mySocket) (server mySocket).init actions :=
  System.always_of_invariant (Serving mySocket) (start_serving mySocket)
    (fun _ _ _ serving stepped => step_serving serving stepped) (fun _ serving => serving.isApart)
    actions

end OsLabs.Tcp.Server
