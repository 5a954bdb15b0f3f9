import Metronome.Fault

/-!
# Ticks

A tick is a position on a circle of `2 ^ 31` simulation steps, kept as the odd word `2 * index + 1`;
the word `0` is left over for "no tick". Nothing about a tick is absolute: which of two ticks is
newer is read off their signed distance on the circle, so an order holds only among ticks that lie
near each other.

`distance` is the distance of any two words; `since` is the same for valid ticks and a fault
otherwise.
-/

namespace Metronome

/-- A simulation tick. A word other than `0` is a valid tick. -/
structure Tick where
  /-- The stored word. -/
  raw : UInt32
deriving DecidableEq

namespace Tick

/-- No tick. -/
def invalid : Tick := ⟨0⟩

instance : Inhabited Tick := ⟨invalid⟩

/-- The tick of an index; of an index past the circle only its place on the circle counts. -/
def ofIndex (index : UInt32) : Tick := ⟨index * 2 + 1⟩

/-- Anything but the word `0` is valid. -/
def isValid (t : Tick) : Bool := t.raw != 0

/-- The place of a valid tick on the circle. -/
def index (t : Tick) : Except Fault UInt32 :=
  if t.isValid then .ok (t.raw / 2) else .error .indexOfInvalid

/-- The signed number of ticks from `older` to `t`, the shorter way around. -/
def distance (t older : Tick) : Int :=
  ((t.raw.toNat : Int) - older.raw.toNat).bmod 4294967296 / 2

/-- The distance of two valid ticks. -/
def since (t older : Tick) : Except Fault Int :=
  if t.isValid && older.isValid then .ok (t.distance older) else .error .comparingInvalid

/-- Whether `t` lies ahead of `other`. -/
def isNewerThan (t other : Tick) : Except Fault Bool :=
  return (← t.since other) > 0

/-- The word `n` ticks ahead. -/
def shift (t : Tick) (n : UInt32) : Tick := ⟨t.raw + n * 2⟩

/-- The word `n` ticks behind. -/
def shiftBack (t : Tick) (n : UInt32) : Tick := ⟨t.raw - n * 2⟩

/-- The tick `n` ahead of a valid one. -/
def advance (t : Tick) (n : UInt32) : Except Fault Tick :=
  if t.isValid then .ok (t.shift n) else .error .advancingInvalid

/-- The tick `n` behind a valid one. -/
def rewind (t : Tick) (n : UInt32) : Except Fault Tick :=
  if t.isValid then .ok (t.shiftBack n) else .error .rewindingInvalid

/-- The tick after a valid one. -/
def next (t : Tick) : Except Fault Tick := t.advance 1

/-- The tick before a valid one. -/
def prev (t : Tick) : Except Fault Tick := t.rewind 1

/-- A valid tick is written as its index. -/
def text (t : Tick) : String :=
  if t.isValid then toString (t.raw / 2).toNat else "invalid"

@[simp] theorem isValid_invalid : invalid.isValid = false := by decide

theorem since_eq_ok {t u : Tick} (ht : t.isValid = true) (hu : u.isValid = true) :
    t.since u = .ok (t.distance u) := by
  simp [since, ht, hu]

theorem isNewerThan_eq_ok {t u : Tick} (ht : t.isValid = true) (hu : u.isValid = true) :
    t.isNewerThan u = .ok (decide (t.distance u > 0)) := by
  simp [isNewerThan, since_eq_ok ht hu, bind, Except.bind, pure, Except.pure]

theorem advance_eq_ok {t : Tick} (ht : t.isValid = true) (n : UInt32) :
    t.advance n = .ok (t.shift n) := by
  simp [advance, ht]

theorem rewind_eq_ok {t : Tick} (ht : t.isValid = true) (n : UInt32) :
    t.rewind n = .ok (t.shiftBack n) := by
  simp [rewind, ht]

end Tick

end Metronome
