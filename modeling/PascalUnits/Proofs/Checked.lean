import PascalUnits.Source.File

/-!
# Checked steps

Subtractions, look-ups and cuts that fail where they are out of range, instead of giving some
value. A computation that is made of them and does not fail keeps to what is there.
-/

namespace PascalUnits

/-- Why a step cannot be done. -/
inductive Mishap where
  | below (number subtrahend : Nat)
  | noEntry (index size : Nat)
  | noSlice (start stop size : Nat)
  | position (error : PositionError)
  deriving DecidableEq, Repr

/-- What is done after a success succeeds if both do. -/
theorem bind_eq_ok_iff {ε α β : Type} {first : Except ε α} {next : α → Except ε β} {b : β} :
    (first >>= next) = .ok b ↔ ∃ a, first = .ok a ∧ next a = .ok b := by
  cases first <;> simp [bind, Except.bind]

namespace Checked

variable {α : Type}

/-- The difference of two numbers, of which the first is not smaller. -/
def sub (number subtrahend : Nat) : Except Mishap Nat :=
  if subtrahend ≤ number then .ok (number - subtrahend) else .error (.below number subtrahend)

/-- The entry at an index of a list. -/
def entry (list : List α) (index : Nat) : Except Mishap α :=
  match list[index]? with
  | some value => .ok value
  | none => .error (.noEntry index list.length)

/-- The entries from `start` up to `stop`, which is not one of them. -/
def slice (list : List α) (start stop : Nat) : Except Mishap (List α) :=
  if start ≤ stop ∧ stop ≤ list.length then .ok ((list.take stop).drop start)
  else .error (.noSlice start stop list.length)

/-- The position of an offset in a file. -/
def pos (file : SourceFile) (offset : Nat) : Except Mishap Nat :=
  (file.pos offset).mapError .position

theorem sub_eq_ok {number subtrahend : Nat} (h : subtrahend ≤ number) :
    sub number subtrahend = .ok (number - subtrahend) :=
  if_pos h

theorem entry_eq_ok {list : List α} {index : Nat} {value : α} (h : list[index]? = some value) :
    entry list index = .ok value := by
  rw [entry, h]

theorem slice_eq_ok {list : List α} {start stop : Nat} (h : start ≤ stop)
    (hstop : stop ≤ list.length) : slice list start stop = .ok ((list.take stop).drop start) :=
  if_pos ⟨h, hstop⟩

theorem pos_eq_ok {file : SourceFile} {offset : Nat} (h : offset ≤ file.size) :
    pos file offset = .ok (file.base + offset) := by
  rw [pos, SourceFile.pos, if_pos h]
  rfl

end Checked

end PascalUnits
