import Metronome.Scope

/-!
# Arenas

An arena hands out the bytes of one buffer from the front and takes them all back at once. Two
arenas take turns: each acquisition flips to the other one and empties it, so what an invocation
wrote stays readable until the one after the next.
-/

namespace Metronome

/-- A buffer whose front part is handed out. -/
structure Arena where
  /-- The bytes of the buffer. -/
  bytes : Array UInt8
  /-- How many bytes are handed out. -/
  used : Nat
  /-- How often all were taken back. -/
  rewinds : Nat

namespace Arena

/-- A buffer of zeros. -/
def ofCapacity (capacity : Nat) : Arena := ⟨Array.replicate capacity 0, 0, 0⟩

/-- The size of the buffer. -/
def capacity (a : Arena) : Nat := a.bytes.size

/-- Sets the bytes from `start` on, `count` of them, to one value. -/
def fill (bytes : Array UInt8) (start count : Nat) (value : UInt8) : Array UInt8 :=
  bytes.extract 0 start ++ Array.replicate count value ++ bytes.extract (start + count) bytes.size

/-- Hands out the next `length` bytes, set to zero: where they start, and the arena after it.
Nothing if fewer are left. -/
def alloc (a : Arena) (length : Nat) : Option (Nat × Arena) :=
  if a.used + length ≤ a.capacity then
    some (a.used, { a with bytes := fill a.bytes a.used length 0, used := a.used + length })
  else none

/-- Takes all bytes back. -/
def rewind (a : Arena) : Arena := { a with used := 0, rewinds := a.rewinds + 1 }

/-- The bytes of an allocation. -/
def slice (a : Arena) (start length : Nat) : Array UInt8 := a.bytes.extract start (start + length)

/-- Writes one value into the bytes of an allocation. -/
def write (a : Arena) (start length : Nat) (value : UInt8) : Arena :=
  { a with bytes := fill a.bytes start length value }

end Arena

/-- The two arenas of a pair. -/
inductive Side
  | left
  | right
deriving DecidableEq

/-- The other arena. -/
def Side.flip : Side → Side
  | left => right
  | right => left

/-- The name of the arena. The name `0` is for no arena at all. -/
def Side.id : Side → ArenaId
  | left => ⟨1⟩
  | right => ⟨2⟩

/-- Two arenas that take turns. -/
structure ArenaPair where
  /-- The first arena. -/
  left : Arena
  /-- The second arena. -/
  right : Arena
  /-- The arena that was acquired last. -/
  side : Side
  /-- The current arena. -/
  current : ArenaId

namespace ArenaPair

/-- Outside all scopes: no arena is current. -/
def outside : ArenaId := ⟨0⟩

/-- Two empty arenas; the first acquisition takes the left one. -/
def ofCapacity (capacity : Nat) : ArenaPair :=
  ⟨Arena.ofCapacity capacity, Arena.ofCapacity capacity, .right, outside⟩

/-- The arena on a side. -/
def get (p : ArenaPair) : Side → Arena
  | .left => p.left
  | .right => p.right

/-- Replaces the arena on a side. -/
def set (p : ArenaPair) (side : Side) (a : Arena) : ArenaPair :=
  match side with
  | .left => { p with left := a }
  | .right => { p with right := a }

/-- Empties the arena whose turn it is and makes it current; tells which one it replaces. -/
def acquire (p : ArenaPair) : ArenaId × ArenaPair :=
  let side := p.side.flip
  (p.current, { p.set side (p.get side).rewind with side := side, current := side.id })

/-- Makes an arena current again. -/
def release (p : ArenaPair) (previous : ArenaId) : ArenaPair := { p with current := previous }

/-- The side of the current arena, if an arena is current. -/
def currentSide (p : ArenaPair) : Option Side :=
  if p.current = Side.left.id then some .left
  else if p.current = Side.right.id then some .right
  else none

/-- The arena at a position. -/
def at? (p : ArenaPair) (slot : Nat) : Except Fault Arena :=
  match slot with
  | 0 => .ok p.left
  | 1 => .ok p.right
  | _ => .error (.outOfBounds 2 slot)

/-- An allocation from the current arena: where it starts and its side. The first `none` says that
no arena is current, the second that the arena is full. -/
def alloc (p : ArenaPair) (length : Nat) : Option (Option (Side × Nat × ArenaPair)) :=
  p.currentSide.map fun side =>
    ((p.get side).alloc length).map fun (start, a) => (side, start, p.set side a)

end ArenaPair

/-- A host with a stack of windows and two arenas. -/
structure ArenaHost (τ : Type) where
  /-- The open windows, innermost first. -/
  windows : List (Window τ)
  /-- The arenas. -/
  arenas : ArenaPair

namespace ArenaHost

variable {τ : Type}

/-- No window is open. -/
def ofCapacity (capacity : Nat) : ArenaHost τ := ⟨[], ArenaPair.ofCapacity capacity⟩

instance : Host (ArenaHost τ) τ where
  pushWindow h window := { h with windows := window :: h.windows }
  popWindow h := { h with windows := h.windows.tail }
  acquire h :=
    let (replaced, arenas) := h.arenas.acquire
    (replaced, { h with arenas })
  release h arena := { h with arenas := h.arenas.release arena }

end ArenaHost

end Metronome
