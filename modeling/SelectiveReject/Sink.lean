import SelectiveReject.Bytes

/-!
# Where bytes are written

A sink keeps what it was given, in order.  A sink with `room` takes that many more bytes: of a
longer piece it takes what fits and then fails.
-/

namespace SelectiveReject

structure Sink where
  contents : Array UInt8 := #[]
  /-- How many bytes it still takes; no limit if there is none. -/
  room : Option Nat := none
  deriving DecidableEq, Repr

namespace Sink

/-- Everything that was taken, in order. -/
def bytes (s : Sink) : Bytes := s.contents.toList

/-- Whether the whole piece was taken, and the sink after it. -/
def write (s : Sink) (piece : Bytes) : Bool × Sink :=
  match s.room with
  | none => (true, { s with contents := s.contents ++ piece })
  | some room =>
      if piece.length ≤ room then (true, ⟨s.contents ++ piece, some (room - piece.length)⟩)
      else (false, ⟨s.contents ++ piece.take room, some 0⟩)

/-- Whether so many bytes still fit. -/
def Takes (s : Sink) (length : Nat) : Prop := ∀ room, s.room = some room → length ≤ room

/-- The sink that has taken a piece whole. -/
def push (s : Sink) (piece : Bytes) : Sink :=
  ⟨s.contents ++ piece, s.room.map (· - piece.length)⟩

/-- The sink that has taken what fits of a longer piece. -/
def fill (s : Sink) (piece : Bytes) : Sink := ⟨s.contents ++ piece.take (s.room.getD 0), some 0⟩

variable {s : Sink} {piece : Bytes}

theorem write_of_takes (h : s.Takes piece.length) : s.write piece = (true, s.push piece) := by
  obtain ⟨contents, room⟩ := s
  cases room with
  | none => rfl
  | some room => exact if_pos (h room rfl)

theorem write_of_not_takes (h : ¬ s.Takes piece.length) : s.write piece = (false, s.fill piece) := by
  obtain ⟨contents, room⟩ := s
  cases room with
  | none => exact absurd nofun h
  | some room => exact if_neg fun hle => h fun _ heq => Option.some.inj heq ▸ hle

/-- An unlimited sink takes everything. -/
theorem takes_of_unlimited (h : s.room = none) (length : Nat) : s.Takes length := by
  intro room hroom
  rw [h] at hroom
  cases hroom

@[simp] theorem bytes_push (s : Sink) (piece : Bytes) : (s.push piece).bytes = s.bytes ++ piece :=
  Array.toList_appendList

@[simp] theorem push_nil (s : Sink) : s.push [] = s := by
  obtain ⟨contents, room⟩ := s
  cases room <;> simp [push]

theorem append_append (contents : Array UInt8) (a b : Bytes) :
    contents ++ a ++ b = contents ++ (a ++ b) := Array.toList_inj.mp (by simp)

/-- Pieces may be put together before they are taken. -/
theorem push_push (s : Sink) (a b : Bytes) : (s.push a).push b = s.push (a ++ b) := by
  obtain ⟨contents, room⟩ := s
  cases room <;> simp [push, append_append, Nat.sub_sub]

theorem takes_push (h : s.Takes piece.length) (length : Nat) :
    (s.push piece).Takes length ↔ s.Takes (piece.length + length) := by
  obtain ⟨contents, room⟩ := s
  cases room with
  | none => simp [Takes, push]
  | some room =>
      have := h room rfl
      simp only [Takes, push, Option.map_some, Option.some.injEq, forall_eq']
      omega

theorem fill_push (h : s.Takes piece.length) (hroom : s.room ≠ none) (rest : Bytes) :
    (s.push piece).fill rest = s.fill (piece ++ rest) := by
  obtain ⟨contents, room⟩ := s
  cases room with
  | none => exact absurd rfl hroom
  | some room =>
      have hle : piece.length ≤ room := h room rfl
      simp [push, fill, append_append, List.take_append, List.take_of_length_le hle]

end Sink

end SelectiveReject
