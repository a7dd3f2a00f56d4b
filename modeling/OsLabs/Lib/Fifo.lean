import Mathlib.Data.List.Basic

/-!
# Bounded first-in first-out buffers

A buffer holds at most `capacity` items.  An offer to a full buffer is refused,
a poll of an empty one finds nothing, and neither changes the contents.  Over
any log of requests, the items taken are the first of the items accepted, in
order (`taken_initial`).
-/

set_option autoImplicit false

namespace OsLabs.Fifo

universe u

structure Buffer (Item : Type u) (capacity : Nat) where
  items : List Item
  fits : items.length ≤ capacity

inductive Request (Item : Type u) where
  | offer (item : Item)
  | poll

inductive Answer (Item : Type u) where
  | accepted
  | refused
  | taken (item : Item)
  | nothing

variable {Item : Type u} {capacity : Nat}

namespace Buffer

def empty : Buffer Item capacity := ⟨[], Nat.zero_le _⟩

def serve (buffer : Buffer Item capacity) : Request Item → Answer Item × Buffer Item capacity
  | .offer item =>
      if room : buffer.items.length < capacity then
        (.accepted, ⟨buffer.items ++ [item], by
          rw [List.length_append, List.length_singleton]
          exact room⟩)
      else (.refused, buffer)
  | .poll =>
      match buffer with
      | ⟨[], fits⟩ => (.nothing, ⟨[], fits⟩)
      | ⟨item :: rest, fits⟩ => (.taken item, ⟨rest, Nat.le_of_succ_le fits⟩)

/-- The log of requests and answers is what the buffer does with these requests,
and leaves the final buffer. -/
def Serves (buffer : Buffer Item capacity) :
    List (Request Item × Answer Item) → Buffer Item capacity → Prop
  | [], final => final = buffer
  | (request, answer) :: rest, final =>
      answer = (buffer.serve request).1 ∧ (buffer.serve request).2.Serves rest final

theorem serve_offer_room {buffer : Buffer Item capacity} (item : Item)
    (room : buffer.items.length < capacity) :
    (buffer.serve (.offer item)).1 = .accepted ∧
      (buffer.serve (.offer item)).2.items = buffer.items ++ [item] := by
  simp [serve, room]

theorem serve_offer_full {buffer : Buffer Item capacity} {item : Item}
    (full : capacity ≤ buffer.items.length) :
    buffer.serve (.offer item) = (.refused, buffer) := by
  simp [serve, Nat.not_lt.mpr full]

theorem serve_poll_nil {buffer : Buffer Item capacity} (nothing : buffer.items = []) :
    buffer.serve .poll = (.nothing, buffer) := by
  obtain ⟨items, fits⟩ := buffer
  subst nothing
  rfl

theorem serve_poll_cons {buffer : Buffer Item capacity} {item : Item} {rest : List Item}
    (holds : buffer.items = item :: rest) :
    (buffer.serve .poll).1 = .taken item ∧ (buffer.serve .poll).2.items = rest := by
  obtain ⟨items, fits⟩ := buffer
  subst holds
  exact ⟨rfl, rfl⟩

theorem Serves.append {buffer middle final : Buffer Item capacity}
    {first second : List (Request Item × Answer Item)} (earlier : buffer.Serves first middle)
    (later : middle.Serves second final) : buffer.Serves (first ++ second) final := by
  induction first generalizing buffer with
  | nil =>
      have same : middle = buffer := earlier
      rw [← same]
      exact later
  | cons pair rest ih => exact ⟨earlier.1, ih earlier.2⟩

theorem serves_one (buffer : Buffer Item capacity) (request : Request Item) :
    buffer.Serves [(request, (buffer.serve request).1)] (buffer.serve request).2 :=
  ⟨rfl, rfl⟩

end Buffer

/-- The items of the offers that were accepted. -/
def accepted : List (Request Item × Answer Item) → List Item :=
  List.filterMap fun
    | (.offer item, .accepted) => some item
    | _ => none

/-- The items the polls were answered with. -/
def taken : List (Request Item × Answer Item) → List Item :=
  List.filterMap fun
    | (_, .taken item) => some item
    | _ => none

theorem accepted_cons (pair : Request Item × Answer Item)
    (log : List (Request Item × Answer Item)) :
    accepted (pair :: log) = accepted [pair] ++ accepted log :=
  List.filterMap_append (l := [pair])

theorem taken_cons (pair : Request Item × Answer Item)
    (log : List (Request Item × Answer Item)) :
    taken (pair :: log) = taken [pair] ++ taken log :=
  List.filterMap_append (l := [pair])

theorem serve_conserves (buffer : Buffer Item capacity) (request : Request Item) :
    buffer.items ++ accepted [(request, (buffer.serve request).1)] =
      taken [(request, (buffer.serve request).1)] ++ (buffer.serve request).2.items := by
  cases request with
  | offer item =>
      by_cases room : buffer.items.length < capacity
      · obtain ⟨answer, contents⟩ := Buffer.serve_offer_room item room
        rw [answer, contents]
        rfl
      · rw [Buffer.serve_offer_full (Nat.not_lt.mp room)]
        simp [accepted, taken]
  | poll =>
      cases holds : buffer.items with
      | nil =>
          rw [Buffer.serve_poll_nil holds, holds]
          rfl
      | cons item rest =>
          obtain ⟨answer, contents⟩ := Buffer.serve_poll_cons holds
          rw [answer, contents]
          simp [accepted, taken]

theorem serves_conserves {buffer final : Buffer Item capacity}
    {log : List (Request Item × Answer Item)} (serves : buffer.Serves log final) :
    buffer.items ++ accepted log = taken log ++ final.items := by
  induction log generalizing buffer with
  | nil =>
      have same : final = buffer := serves
      simp [same, accepted, taken]
  | cons pair rest ih =>
      obtain ⟨request, answer⟩ := pair
      obtain ⟨isAnswer, restServes⟩ := serves
      have one := serve_conserves buffer request
      rw [← isAnswer] at one
      rw [accepted_cons, taken_cons, ← List.append_assoc, one, List.append_assoc, ih restServes,
        List.append_assoc]

/-- From an empty buffer, what was taken is the beginning of what was accepted. -/
theorem taken_initial {log : List (Request Item × Answer Item)} {final : Buffer Item capacity}
    (serves : Buffer.empty.Serves log final) : taken log <+: accepted log :=
  ⟨final.items, (serves_conserves serves).symm⟩

end OsLabs.Fifo
