import OsLabs.Lib.Handles
import OsLabs.Lib.Transition

/-!
# Sockets and thread arguments of the proxy

`startProxy` accepts connections for ever and hands each, in a block of its
own, to a thread that runs `clientThreadRoutine`; that thread may start one
that runs `downloadData` with a socket of its own.  Whichever calls fail, each
socket is closed and each block is freed once, by the thread that has it:
`resources_accounted`.
-/

set_option autoImplicit false

namespace OsLabs.Proxy.Sockets

open OsLabs.Handles OsLabs.Transition

/-- The loop of `startProxy`. -/
inductive StartProxy where
  | accept
  | malloc (clientSocket : Fd)
  | fill (clientSocket : Fd) (args : Block)
  | pthreadCreate (clientSocket : Fd) (args : Block)
  | pthreadDetach
  | freeArgs (clientSocket : Fd) (args : Block)
  | close (clientSocket : Fd)
  deriving DecidableEq

/-- The thread gets its block; `passed` is the socket that `startProxy` has put
there. -/
inductive ClientThreadRoutine where
  | readArgs (args : Block) (passed : Fd)
  | handleRequest (args : Block) (clientSocket : Fd)
  | freeArgs (args : Block) (clientSocket : Fd)
  | close (clientSocket : Fd)
  deriving DecidableEq

inductive DownloadData where
  | socket
  | connect (serverSocket : Fd)
  | receive (serverSocket : Fd)
  | close (serverSocket : Fd)
  deriving DecidableEq

inductive Place where
  | unborn
  | startProxy (pc : StartProxy)
  | client (pc : ClientThreadRoutine)
  | download (pc : DownloadData)
  | returned
  deriving DecidableEq

def Place.resources : Place → List Resource
  | .startProxy (.malloc fd) | .startProxy (.close fd) | .client (.close fd)
  | .download (.connect fd) | .download (.receive fd) | .download (.close fd) => [.descriptor fd]
  | .startProxy (.fill fd args) | .startProxy (.pthreadCreate fd args)
  | .startProxy (.freeArgs fd args) | .client (.readArgs args fd)
  | .client (.handleRequest args fd) | .client (.freeArgs args fd) => [.descriptor fd, .block args]
  | _ => []

/-- A block on its way to its thread has the socket in it. -/
def Place.knows : Place → List (Block × Fd)
  | .startProxy (.pthreadCreate fd args) | .client (.readArgs args fd) => [(args, fd)]
  | _ => []

theorem knows_own (place : Place) (known : Block × Fd) (member : known ∈ place.knows) :
    .block known.1 ∈ place.resources := by
  unfold Place.knows at member
  split at member
  · rw [List.mem_singleton.mp member, Place.resources]
    simp
  · rw [List.mem_singleton.mp member, Place.resources]
    simp
  · cases member

def roles : Roles Place := ⟨.unborn, Place.resources, Place.knows, rfl, knows_own⟩

abbrev State := Process Place

/-- The thread that moves, and what the system answers: a new descriptor, block
or thread, or success, or none of it.  For `handleRequest` an answer is the
thread that it creates, and none is its return. -/
structure Action where
  tid : Tid
  answer : Option Nat

def StartProxy.step (s : State) (tid : Tid) (answer : Option Nat) : StartProxy → Option State
  | .accept =>
      match answer with
      | some fd => s.openNew tid fd (.startProxy (.malloc fd))
      | none => some s
  | .malloc fd =>
      match answer with
      | some args => s.malloc tid args (.startProxy (.fill fd args))
      | none => some (s.goto tid (.startProxy (.close fd)))
  | .fill fd args => some (s.fill tid fd args (.startProxy (.pthreadCreate fd args)))
  | .pthreadCreate fd args =>
      match answer with
      | some child =>
          (s.goto tid (.startProxy .pthreadDetach)).create roles child
            (.client (.readArgs args fd))
      | none => some (s.goto tid (.startProxy (.freeArgs fd args)))
  | .pthreadDetach => some (s.goto tid (.startProxy .accept))
  | .freeArgs fd args => some (s.free tid args (.startProxy (.close fd)))
  | .close fd => some (s.close tid fd (.startProxy .accept))

def ClientThreadRoutine.step (s : State) (tid : Tid) (answer : Option Nat) :
    ClientThreadRoutine → Option State
  | .readArgs args _ =>
      match s.heap args with
      | some (some fd) => some (s.goto tid (.client (.handleRequest args fd)))
      | _ => some s.fault
  | .handleRequest args fd =>
      match answer with
      | some child => s.create roles child (.download .socket)
      | none => some (s.goto tid (.client (.freeArgs args fd)))
  | .freeArgs args fd => some (s.free tid args (.client (.close fd)))
  | .close fd => some (s.close tid fd .returned)

/-- Before its `socket` the download may fail in `parseURL` and `gethostbyname`. -/
def DownloadData.step (s : State) (tid : Tid) (answer : Option Nat) :
    DownloadData → Option State
  | .socket =>
      match answer with
      | some fd => s.openNew tid fd (.download (.connect fd))
      | none => some (s.goto tid .returned)
  | .connect fd =>
      match answer with
      | some _ => some (s.goto tid (.download (.receive fd)))
      | none => some (s.goto tid (.download (.close fd)))
  | .receive fd => some (s.goto tid (.download (.close fd)))
  | .close fd => some (s.close tid fd .returned)

def step (s : State) (action : Action) : Option State :=
  match s.place action.tid with
  | .startProxy pc => pc.step s action.tid action.answer
  | .client pc => pc.step s action.tid action.answer
  | .download pc => pc.step s action.tid action.answer
  | .unborn | .returned => none

/-- After `listen`, with one thread in the loop. -/
def server (serverSocket : Fd) : System State Action :=
  ⟨.start roles serverSocket (.startProxy .accept), step⟩

section Threads

variable {serverSocket : Fd} {owner : Resource → Option Tid} {s next : State} {tid : Tid}
  {answer : Option Nat}

theorem StartProxy.step_handed (handed : Handed roles serverSocket owner s) {pc : StartProxy}
    (here : s.place tid = .startProxy pc) (stepped : pc.step s tid answer = some next) :
    ∃ owner, Handed roles serverSocket owner next := by
  have has : roles.resources (s.place tid) = (Place.startProxy pc).resources := by
    rw [here]
    rfl
  cases pc with
  | accept =>
      cases answer with
      | none =>
          cases stepped
          exact ⟨owner, handed⟩
      | some fd =>
          simp only [StartProxy.step] at stepped
          exact handed.opens (by rfl) has (by rfl) stepped
  | malloc fd =>
      cases answer with
      | none =>
          cases stepped
          exact handed.proceeds has.symm rfl
      | some args =>
          simp only [StartProxy.step] at stepped
          exact handed.mallocs has (by rfl) (by rfl) stepped
  | fill fd args =>
      cases stepped
      refine ⟨owner, handed.fills ?_ has.symm fun found member => List.mem_singleton.mp member⟩
      rw [Roles.Holds, has]
      simp [Place.resources]
  | pthreadCreate fd args =>
      cases answer with
      | none =>
          cases stepped
          exact handed.proceeds has.symm rfl
      | some child =>
          have known := handed.known tid
          rw [here] at known
          simp only [StartProxy.step] at stepped
          refine handed.creates ?_ ?_ ?_ ?_ stepped
          · rfl
          · simp [roles]
          · exact has.symm
          · exact known
  | pthreadDetach =>
      cases stepped
      exact handed.proceeds has.symm rfl
  | freeArgs fd args =>
      cases stepped
      exact handed.frees has rfl rfl
  | close fd =>
      cases stepped
      exact handed.closes_only has rfl

theorem ClientThreadRoutine.step_handed (handed : Handed roles serverSocket owner s)
    {pc : ClientThreadRoutine} (here : s.place tid = .client pc)
    (stepped : pc.step s tid answer = some next) :
    ∃ owner, Handed roles serverSocket owner next := by
  have has : roles.resources (s.place tid) = (Place.client pc).resources := by
    rw [here]
    rfl
  cases pc with
  | readArgs args passed =>
      have filled := handed.known tid (args, passed) (by simp [here, roles, Place.knows])
      simp only [ClientThreadRoutine.step, filled, Option.some.injEq] at stepped
      subst stepped
      exact handed.proceeds has.symm rfl
  | handleRequest args fd =>
      cases answer with
      | none =>
          cases stepped
          exact handed.proceeds has.symm rfl
      | some child => exact ⟨owner, handed.starts rfl stepped⟩
  | freeArgs args fd =>
      cases stepped
      exact handed.frees has rfl rfl
  | close fd =>
      cases stepped
      exact handed.closes_only has rfl

theorem DownloadData.step_handed (handed : Handed roles serverSocket owner s) {pc : DownloadData}
    (here : s.place tid = .download pc) (stepped : pc.step s tid answer = some next) :
    ∃ owner, Handed roles serverSocket owner next := by
  have has : roles.resources (s.place tid) = (Place.download pc).resources := by
    rw [here]
    rfl
  cases pc with
  | socket =>
      cases answer with
      | none =>
          cases stepped
          exact handed.proceeds has.symm rfl
      | some fd =>
          simp only [DownloadData.step] at stepped
          exact handed.opens (by rfl) has (by rfl) stepped
  | connect fd =>
      cases answer with
      | none =>
          cases stepped
          exact handed.proceeds has.symm rfl
      | some connected =>
          cases stepped
          exact handed.proceeds has.symm rfl
  | receive fd =>
      cases stepped
      exact handed.proceeds has.symm rfl
  | close fd =>
      cases stepped
      exact handed.closes_only has rfl

theorem step_handed (handed : Handed roles serverSocket owner s) {action : Action}
    (stepped : step s action = some next) : ∃ owner, Handed roles serverSocket owner next := by
  unfold step at stepped
  split at stepped
  · rename_i pc here
    exact StartProxy.step_handed handed here stepped
  · rename_i pc here
    exact ClientThreadRoutine.step_handed handed here stepped
  · rename_i pc here
    exact DownloadData.step_handed handed here stepped
  · cases stepped
  · cases stepped

end Threads

/-- However the threads interleave, and whichever calls fail, the proxy closes
each connection and frees each block once, and never one that is another's. -/
theorem resources_accounted (serverSocket : Fd) (actions : List Action) :
    (server serverSocket).Always (Accounted roles serverSocket) (server serverSocket).init
      actions := by
  refine System.always_of_invariant
    (fun s => ∃ owner, Handed roles serverSocket owner s) ⟨_, start_handed serverSocket rfl⟩
    (fun s action next handed stepped => ?_) (fun s handed => ?_) actions
  · obtain ⟨owner, handed⟩ := handed
    exact step_handed handed stepped
  · obtain ⟨owner, handed⟩ := handed
    exact handed.accounted

end OsLabs.Proxy.Sockets
