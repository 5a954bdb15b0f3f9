import Metronome.Clock
import Metronome.Fault

/-!
# Scopes

An invocation sees a window of time and allocates from a scoped arena. Both are taken from the host
when a scope is entered and given back, in reverse, when it is left; the stack keeps which arena
each scope replaced. Leaving is also the point where work that still uses the arena has to be done.
-/

namespace Metronome

/-- The time an invocation runs at: it ends at `elapsed` and covers `delta`. -/
structure Window (τ : Type) where
  /-- Seconds at its end. -/
  elapsed : τ
  /-- Seconds it covers. -/
  delta : τ
deriving DecidableEq

/-- The name of an arena. -/
structure ArenaId where
  /-- The name as a word. -/
  id : UInt32
deriving DecidableEq

/-- What a host does for the scopes of a world. -/
class Host (H : Type) (τ : outParam Type) where
  /-- Makes a window the current one. -/
  pushWindow : H → Window τ → H
  /-- Makes the window before it the current one again. -/
  popWindow : H → H
  /-- Makes a fresh arena the current one and tells which it replaces. -/
  acquire : H → ArenaId × H
  /-- Makes an arena the current one again. -/
  release : H → ArenaId → H
  /-- Waits for the work in the current arena. -/
  complete : H → H := fun h => h

/-- The arenas that the open scopes replaced, innermost first. -/
structure ScopeStack where
  /-- The replaced arenas. -/
  saved : List ArenaId
deriving DecidableEq

namespace ScopeStack

/-- Why a scope stack refuses. -/
inductive Error
  /-- A scope was left and none was open. -/
  | underflow
  /-- Scopes are open. -/
  | leaked (depth : Nat)
deriving DecidableEq

/-- The report of a refusal. -/
def Error.message : Error → String
  | underflow => Fault.underflowText
  | leaked depth => Fault.leakText depth

/-- No scope is open. -/
def empty : ScopeStack := ⟨[]⟩

/-- How many scopes are open. -/
def depth (s : ScopeStack) : Nat := s.saved.length

variable {H τ : Type} [Host H τ]

/-- Opens a scope with a window. -/
def enter (s : ScopeStack) (host : H) (window : Window τ) : ScopeStack × H :=
  let (replaced, host) := Host.acquire (Host.pushWindow host window)
  (⟨replaced :: s.saved⟩, host)

/-- Closes the innermost scope: its work, its arena, its window. -/
def exit (s : ScopeStack) (host : H) : Except Error (ScopeStack × H) :=
  match s.saved with
  | [] => .error .underflow
  | replaced :: saved => .ok (⟨saved⟩, Host.popWindow (Host.release (Host.complete host) replaced))

/-- Refuses while a scope is open. -/
def balanced (s : ScopeStack) : Except Error Unit :=
  if s.depth = 0 then .ok () else .error (.leaked s.depth)

end ScopeStack

/-! ## A host that keeps a tally -/

/-- A host without simulation work: it counts what it is asked for. -/
structure TallyHost (τ : Type) where
  /-- The open windows, innermost first. -/
  windows : List (Window τ)
  /-- How many windows were opened. -/
  pushed : Nat
  /-- How often a window was to be closed. -/
  popped : Nat
  /-- The arena that was handed out last. -/
  lastArena : ArenaId
  /-- The current arena. -/
  current : ArenaId
  /-- How often work was waited for. -/
  completed : Nat

namespace TallyHost

variable {τ : Type}

/-- Nothing counted. -/
def empty : TallyHost τ := ⟨[], 0, 0, ⟨0⟩, ⟨0⟩, 0⟩

instance : Host (TallyHost τ) τ where
  pushWindow h window := { h with windows := window :: h.windows, pushed := h.pushed + 1 }
  popWindow h := { h with windows := h.windows.tail, popped := h.popped + 1 }
  acquire h :=
    let fresh : ArenaId := ⟨h.lastArena.id + 1⟩
    (h.current, { h with lastArena := fresh, current := fresh })
  release h arena := { h with current := arena }
  complete h := { h with completed := h.completed + 1 }

end TallyHost

end Metronome
