/-!
# Step flags

Where an invocation stands in its burst, as a set of bits. Five of the bits belong to a prediction
burst and are cleared together when it ends; one marks a server invocation that others follow.
-/

namespace Metronome

/-- A set of flags. -/
structure StepFlags where
  /-- The set as a word. -/
  bits : UInt8
deriving DecidableEq

namespace StepFlags

/-- No flag. -/
def none : StepFlags := ⟨0⟩

/-- The invocation belongs to a prediction burst. -/
def inLoop : UInt8 := 1

/-- It is the first of the burst. -/
def first : UInt8 := 2

/-- It is the last of the burst. -/
def final : UInt8 := 4

/-- It ends on the last whole tick of the burst. -/
def finalFull : UInt8 := 8

/-- It covers ticks that were never predicted in full before. -/
def firstTime : UInt8 := 16

/-- More server invocations follow in this frame. -/
def catchUp : UInt8 := 32

/-- The flags of a prediction burst. -/
def burstMask : UInt8 := inLoop ||| first ||| final ||| finalFull ||| firstTime

/-- Whether all of `bits` are set. -/
def contains (f : StepFlags) (bits : UInt8) : Bool := f.bits &&& bits == bits

/-- Sets `bits`. -/
def insert (f : StepFlags) (bits : UInt8) : StepFlags := ⟨f.bits ||| bits⟩

/-- Clears `bits`. -/
def remove (f : StepFlags) (bits : UInt8) : StepFlags := ⟨f.bits &&& ~~~bits⟩

/-- Sets or clears `bits`. -/
def set (f : StepFlags) (bits : UInt8) (value : Bool) : StepFlags :=
  if value then f.insert bits else f.remove bits

/-- The flags and their names, in the order in which they are written. -/
def names : List (UInt8 × String) :=
  [(inLoop, "loop"), (first, "first"), (final, "final"), (finalFull, "final-full"),
    (firstTime, "first-time"), (catchUp, "catch-up")]

/-- The names of the set flags; a dash for none. -/
def text (f : StepFlags) : String :=
  let set := (names.filter fun p => f.contains p.1).map Prod.snd
  if set.isEmpty then "-" else "|".intercalate set

end StepFlags

end Metronome
