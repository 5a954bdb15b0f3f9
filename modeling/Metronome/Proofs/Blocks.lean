import Mathlib.Order.Interval.Finset.Nat
import Metronome.Proofs.Scratch

/-!
# Blocks of an arena

An arena hands out one block of bytes after the other until it is emptied. However it is used, and
whatever was left in it before it was emptied, its blocks lie apart: a step of `InUse.used` keeps
them in order and below what is handed out (`InUse.Keeps.used`), and each holds what it would hold
as a buffer of its own (`separate`).

The sizes here are natural numbers. In words of 64 bits the end of a block can wrap around;
`allocByWords_eq` says that to refuse such an end comes to the same as to compare the numbers.
-/

namespace Metronome

namespace Arena

/-- Bytes that were handed out together. -/
structure Block where
  /-- Where they start. -/
  start : Nat
  /-- How many there are. -/
  length : Nat
deriving DecidableEq

namespace Block

/-- The position after the last byte. -/
def stop (b : Block) : Nat := b.start + b.length

/-- The positions of the bytes. -/
def range (b : Block) : Finset Nat := Finset.Ico b.start b.stop

theorem disjoint_range {b c : Block} (h : b.stop ≤ c.start) : Disjoint b.range c.range :=
  Finset.disjoint_left.mpr fun i hb hc => by
    rw [range, Finset.mem_Ico] at hb hc
    omega

end Block

/-- What a block holds. -/
def read (a : Arena) (b : Block) : Array UInt8 := a.slice b.start b.length

section Read

variable {a : Arena} {b : Block}

theorem size_read (h : b.stop ≤ a.capacity) : (a.read b).size = b.length := by
  have hle : b.start + b.length ≤ a.bytes.size := h
  rw [read, slice, Array.size_extract]
  omega

/-- What is written elsewhere leaves a block as it is. -/
theorem read_write_of_apart {start count : Nat} (hfits : start + count ≤ a.capacity)
    (h : b.stop ≤ start ∨ start + count ≤ b.start) (value : UInt8) :
    (a.write start count value).read b = a.read b := by
  refine Array.ext_getElem? fun i => ?_
  rw [read, read, getElem?_slice, getElem?_slice, write, getElem?_fill hfits]
  unfold Block.stop at h
  grind

/-- What is written into a block is read from it. -/
theorem read_write_self (hb : b.stop ≤ a.capacity) {offset count : Nat}
    (hle : offset + count ≤ b.length) (value : UInt8) :
    (a.write (b.start + offset) count value).read b = fill (a.read b) offset count value := by
  have hsize := size_read hb
  have hfits : b.start + offset + count ≤ a.bytes.size := by
    have hcapacity : b.start + b.length ≤ a.bytes.size := hb
    omega
  refine Array.ext_getElem? fun i => ?_
  rw [getElem?_fill (hsize.symm ▸ hle), read, read, getElem?_slice, getElem?_slice, write,
    getElem?_fill hfits]
  grind

end Read

/-! ## Writes into a block -/

/-- One value in some bytes of a buffer; nothing is written if they are not all in it. -/
def overwrite (buffer : Array UInt8) (offset count : Nat) (value : UInt8) : Array UInt8 :=
  if offset + count ≤ buffer.size then fill buffer offset count value else buffer

/-- The same for bytes of a block. -/
def overwriteIn (a : Arena) (b : Block) (offset count : Nat) (value : UInt8) : Arena :=
  if offset + count ≤ b.length then a.write (b.start + offset) count value else a

section Overwrite

variable {a : Arena} {b c : Block} (offset count : Nat) (value : UInt8)

theorem used_overwriteIn : (a.overwriteIn b offset count value).used = a.used := by
  unfold overwriteIn
  split_ifs <;> rfl

theorem Sized.overwriteIn {capacity : Nat} (h : a.Sized capacity) (hb : b.stop ≤ a.used) :
    (a.overwriteIn b offset count value).Sized capacity := by
  unfold Arena.overwriteIn
  split_ifs with hle
  · refine h.write (le_trans ?_ hb) value
    unfold Block.stop
    omega
  · exact h

/-- A block that is written into holds what a buffer does that is written into. -/
theorem read_overwriteIn_self (hb : b.stop ≤ a.capacity) :
    (a.overwriteIn b offset count value).read b = overwrite (a.read b) offset count value := by
  unfold overwriteIn overwrite
  rw [size_read hb]
  split_ifs with hle
  · exact read_write_self hb hle value
  · rfl

/-- Another block is left as it is. -/
theorem read_overwriteIn_of_apart (hb : b.stop ≤ a.capacity)
    (h : c.stop ≤ b.start ∨ b.stop ≤ c.start) :
    (a.overwriteIn b offset count value).read c = a.read c := by
  unfold overwriteIn
  split_ifs with hle
  · unfold Block.stop at hb h
    refine read_write_of_apart (by omega) ?_ value
    unfold Block.stop
    omega
  · rfl

end Overwrite

/-! ## An arena in use -/

/-- What is done to an arena. -/
inductive Use
  /-- Bytes are handed out, if there are enough. -/
  | alloc (length : UInt64)
  /-- One value is written into bytes of the block with this number. -/
  | write (block offset count : Nat) (value : UInt8)
  /-- All bytes are taken back. -/
  | rewind

/-- An arena, and the blocks that it handed out since it was emptied, the first one first. -/
structure InUse where
  arena : Arena
  blocks : List Block

namespace InUse

/-- A new arena. -/
def start (capacity : Nat) : InUse := ⟨ofCapacity capacity, []⟩

/-- The arena after one use. A refused allocation changes nothing, and nothing is written where
there is no block. -/
def used (u : InUse) : Use → InUse
  | .alloc length =>
    match u.arena.alloc length.toNat with
    | some (start, arena) => ⟨arena, u.blocks ++ [⟨start, length.toNat⟩]⟩
    | none => u
  | .write block offset count value =>
    match u.blocks[block]? with
    | some b => { u with arena := u.arena.overwriteIn b offset count value }
    | none => u
  | .rewind => ⟨u.arena.rewind, []⟩

/-- The arena after some uses. -/
def after (u : InUse) (uses : List Use) : InUse := uses.foldl used u

section Alloc

variable {u : InUse} {length : UInt64}

theorem used_alloc_of_none (h : u.arena.alloc length.toNat = none) :
    u.used (.alloc length) = u := by
  simp only [used, h]

theorem used_alloc_of_some {start : Nat} {arena : Arena}
    (h : u.arena.alloc length.toNat = some (start, arena)) :
    u.used (.alloc length) = ⟨arena, u.blocks ++ [⟨start, length.toNat⟩]⟩ := by
  simp only [used, h]

end Alloc

end InUse

/-- What buffers of their own hold after one use, with `capacity` bytes for all of them. -/
def separate (capacity : Nat) (buffers : List (Array UInt8)) : Use → List (Array UInt8)
  | .alloc length =>
    if (buffers.map Array.size).sum + length.toNat ≤ capacity then
      buffers ++ [Array.replicate length.toNat 0]
    else buffers
  | .write block offset count value =>
    buffers.modify block fun buffer => overwrite buffer offset count value
  | .rewind => []

namespace InUse

/-- The blocks follow one another in what is handed out, and hold what the buffers do. -/
structure Keeps (capacity : Nat) (buffers : List (Array UInt8)) (u : InUse) : Prop where
  sized : u.arena.Sized capacity
  used_eq : u.arena.used = (u.blocks.map Block.length).sum
  stop_le : ∀ b ∈ u.blocks, b.stop ≤ u.arena.used
  ordered : u.blocks.Pairwise fun b c => b.stop ≤ c.start
  read_eq : u.blocks.map u.arena.read = buffers

theorem keeps_start (capacity : Nat) : (start capacity).Keeps capacity [] :=
  ⟨sized_ofCapacity capacity, rfl, fun _ h => absurd h List.not_mem_nil, .nil, rfl⟩

namespace Keeps

variable {u : InUse} {capacity : Nat} {buffers : List (Array UInt8)}

theorem stop_le_capacity (h : u.Keeps capacity buffers) {b : Block} (hb : b ∈ u.blocks) :
    b.stop ≤ u.arena.capacity :=
  (h.stop_le b hb).trans (h.sized.used_le.trans h.sized.capacity_eq.ge)

theorem sum_size (h : u.Keeps capacity buffers) :
    (buffers.map Array.size).sum = u.arena.used := by
  rw [← h.read_eq, List.map_map, h.used_eq]
  exact congrArg List.sum (List.map_congr_left fun b hb => size_read (h.stop_le_capacity hb))

/-- An allocation succeeds exactly if there is room for it beside the blocks. -/
theorem exists_alloc_iff (h : u.Keeps capacity buffers) (length : Nat) :
    (∃ start arena, u.arena.alloc length = some (start, arena)) ↔
      (u.blocks.map Block.length).sum + length ≤ capacity := by
  rw [← h.used_eq, ← h.sized.capacity_eq]
  exact ⟨fun ⟨_, _, halloc⟩ => (alloc_eq_some_iff.mp halloc).1,
    fun hfits => ⟨_, _, alloc_eq_some_iff.mpr ⟨hfits, rfl, rfl⟩⟩⟩

/-- A new block begins where the others end. -/
theorem stop_le_of_alloc (h : u.Keeps capacity buffers) {length start : Nat} {arena : Arena}
    (halloc : u.arena.alloc length = some (start, arena)) : ∀ b ∈ u.blocks, b.stop ≤ start := by
  obtain ⟨-, rfl, -⟩ := alloc_eq_some_iff.mp halloc
  exact h.stop_le

/-- Of two blocks one ends before the other begins. -/
theorem apart (h : u.Keeps capacity buffers) {i j : Nat} (hne : i ≠ j) {b c : Block}
    (hb : u.blocks[i]? = some b) (hc : u.blocks[j]? = some c) :
    c.stop ≤ b.start ∨ b.stop ≤ c.start := by
  obtain ⟨hi, rfl⟩ := List.getElem?_eq_some_iff.mp hb
  obtain ⟨hj, rfl⟩ := List.getElem?_eq_some_iff.mp hc
  have hordered := List.pairwise_iff_getElem.mp h.ordered
  rcases Nat.lt_or_gt_of_ne hne with hlt | hgt
  · exact .inr (hordered i j hi hj hlt)
  · exact .inl (hordered j i hj hi hgt)

/-! ### Steps -/

theorem alloc (h : u.Keeps capacity buffers) (length : UInt64) :
    (u.used (.alloc length)).Keeps capacity (separate capacity buffers (.alloc length)) := by
  have hroom := h.exists_alloc_iff length.toNat
  rw [← h.used_eq, ← h.sum_size] at hroom
  cases halloc : u.arena.alloc length.toNat with
  | none =>
    have hbuffers : separate capacity buffers (.alloc length) = buffers :=
      if_neg fun hle => nomatch halloc ▸ hroom.mpr hle
    rw [used_alloc_of_none halloc, hbuffers]
    exact h
  | some allocation =>
    obtain ⟨start, arena⟩ := allocation
    let block : Block := ⟨start, length.toNat⟩
    have hbuffers : separate capacity buffers (.alloc length) =
        buffers ++ [Array.replicate length.toNat 0] :=
      if_pos (hroom.mp ⟨start, arena, halloc⟩)
    have hstop : ∀ b ∈ u.blocks, b.stop ≤ block.start := h.stop_le_of_alloc halloc
    obtain ⟨hend, hmore⟩ :
        arena.used = block.stop ∧ arena.used = u.arena.used + length.toNat := by
      obtain ⟨-, rfl, rfl⟩ := alloc_eq_some_iff.mp halloc
      exact ⟨rfl, rfl⟩
    have hnew : arena.read block = Array.replicate length.toNat 0 := slice_alloc halloc
    have hold : ∀ b ∈ u.blocks, arena.read b = u.arena.read b := fun b hb =>
      slice_alloc_of_le halloc (h.stop_le b hb)
    rw [used_alloc_of_some halloc, hbuffers]
    refine ⟨h.sized.alloc halloc, ?_, ?_, ?_, ?_⟩
    · rw [hmore, List.map_append, List.sum_append, ← h.used_eq, List.map_singleton,
        List.sum_singleton]
    · refine List.forall_mem_append.mpr ⟨fun b hb => ?_, List.forall_mem_singleton.mpr hend.ge⟩
      exact (h.stop_le b hb).trans (hmore ▸ Nat.le_add_right _ _)
    · refine List.pairwise_append.mpr ⟨h.ordered, List.pairwise_singleton _ _, fun b hb => ?_⟩
      exact List.forall_mem_singleton.mpr (hstop b hb)
    · rw [List.map_append, List.map_congr_left hold, h.read_eq, List.map_singleton, hnew]

theorem write (h : u.Keeps capacity buffers) (block offset count : Nat) (value : UInt8) :
    (u.used (.write block offset count value)).Keeps capacity
      (separate capacity buffers (.write block offset count value)) := by
  have hbuffers : separate capacity buffers (.write block offset count value) =
      buffers.modify block fun buffer => overwrite buffer offset count value := rfl
  cases hblock : u.blocks[block]? with
  | none =>
    have hused : u.used (.write block offset count value) = u := by
      simp only [InUse.used, hblock]
    have hlength : buffers.length ≤ block := by
      rw [← h.read_eq, List.length_map]
      exact List.getElem?_eq_none_iff.mp hblock
    rw [hused, hbuffers, List.modify_eq_self hlength]
    exact h
  | some b =>
    have hused : u.used (.write block offset count value) =
        { u with arena := u.arena.overwriteIn b offset count value } := by
      simp only [InUse.used, hblock]
    have hb : b ∈ u.blocks := List.mem_of_getElem? hblock
    have hsame := used_overwriteIn offset count value (a := u.arena) (b := b)
    rw [hused, hbuffers]
    refine ⟨h.sized.overwriteIn offset count value (h.stop_le b hb), hsame.trans h.used_eq,
      fun c hc => (h.stop_le c hc).trans hsame.ge, h.ordered, List.ext_getElem? fun i => ?_⟩
    rw [← h.read_eq, List.getElem?_modify, List.getElem?_map, List.getElem?_map]
    cases hc : u.blocks[i]? with
    | none => rfl
    | some c =>
      rw [Option.map_some, Option.map_some, Option.map_eq_map, Option.map_some, Option.some.injEq]
      split_ifs with heq
      · obtain rfl : b = c := Option.some.inj (hblock.symm.trans (heq ▸ hc))
        exact read_overwriteIn_self offset count value (h.stop_le_capacity hb)
      · exact read_overwriteIn_of_apart offset count value (h.stop_le_capacity hb)
          (h.apart heq hblock hc)

theorem rewind (h : u.Keeps capacity buffers) :
    (u.used .rewind).Keeps capacity (separate capacity buffers .rewind) :=
  ⟨h.sized.rewind, rfl, fun _ hb => absurd hb List.not_mem_nil, .nil, rfl⟩

theorem used (h : u.Keeps capacity buffers) (use : Use) :
    (u.used use).Keeps capacity (separate capacity buffers use) := by
  cases use with
  | alloc length => exact h.alloc length
  | write block offset count value => exact h.write block offset count value
  | rewind => exact h.rewind

theorem after (h : u.Keeps capacity buffers) (uses : List Use) :
    (u.after uses).Keeps capacity (uses.foldl (separate capacity) buffers) := by
  induction uses generalizing u buffers with
  | nil => exact h
  | cons use uses ih => exact ih (h.used use)

end Keeps

end InUse

/-! ## Sizes in words -/

/-- Hands out the next bytes as `alloc` does, with sizes in words of 64 bits: an end that wraps
around is refused before it is compared with the size of the buffer. -/
def allocByWords (a : Arena) (length : UInt64) : Option (Nat × Arena) :=
  let start := a.used.toUInt64
  let stop := start + length
  if stop < start then none
  else if a.capacity.toUInt64 < stop then none
  else some (start.toNat, { a with
    bytes := fill a.bytes start.toNat length.toNat 0, used := stop.toNat })

/-- In an arena whose size is a word, words tell the same as numbers. -/
theorem Sized.allocByWords_eq {a : Arena} {capacity : UInt64} (h : a.Sized capacity.toNat)
    (length : UInt64) : a.allocByWords length = a.alloc length.toNat := by
  have hused : a.used.toUInt64.toNat = a.used :=
    Nat.mod_eq_of_lt (h.used_le.trans_lt capacity.toNat_lt)
  have hcapacity : a.capacity.toUInt64.toNat = a.capacity :=
    Nat.mod_eq_of_lt (h.capacity_eq ▸ capacity.toNat_lt)
  have hstop : (a.used.toUInt64 + length).toNat = (a.used + length.toNat) % 2 ^ 64 := by
    rw [UInt64.toNat_add, hused]
  have hlt := length.toNat_lt
  have hle : a.used ≤ a.capacity := h.used_le.trans h.capacity_eq.ge
  unfold allocByWords Arena.alloc
  simp only [UInt64.lt_iff_toNat_lt, hstop, hused, hcapacity]
  rcases Nat.lt_or_ge (a.used + length.toNat) (2 ^ 64) with hsum | hwraps
  · rw [Nat.mod_eq_of_lt hsum, if_neg (Nat.not_lt.mpr (Nat.le_add_right _ _))]
    by_cases hfits : a.used + length.toNat ≤ a.capacity
    · rw [if_neg (Nat.not_lt.mpr hfits), if_pos hfits]
    · rw [if_pos (Nat.lt_of_not_le hfits), if_neg hfits]
  · rw [if_pos (by omega), if_neg]
    have hlast := capacity.toNat_lt
    have hsize := h.capacity_eq
    omega

namespace InUse

/-- An arena hands out memory that lies apart. However it was used, the blocks since it was emptied
add up to what is handed out, which is never more than the arena has; no two of them meet; and each
holds what it would hold as a buffer of its own. Another allocation succeeds exactly if there is
room for it beside them, also where the sum of the sizes is past the largest word. It is then a
block of zeros that meets no other one and leaves them all as they are; else nothing changes. -/
theorem hands_out_apart (capacity : UInt64) (uses : List Use) :
    let u := (start capacity.toNat).after uses
    let total := (u.blocks.map Block.length).sum
    (u.arena.capacity = capacity.toNat ∧ u.arena.used = total ∧ total ≤ capacity.toNat) ∧
      (u.blocks.Pairwise fun b c => Disjoint b.range c.range) ∧
      u.blocks.map u.arena.read = uses.foldl (separate capacity.toNat) [] ∧
      ∀ length : UInt64, u.arena.allocByWords length = u.arena.alloc length.toNat ∧
        ((∃ start arena, u.arena.alloc length.toNat = some (start, arena)) ↔
          total + length.toNat ≤ capacity.toNat) ∧
        (u.arena.alloc length.toNat = none → u.used (.alloc length) = u) ∧
        ∀ start arena, u.arena.alloc length.toNat = some (start, arena) →
          let block : Block := ⟨start, length.toNat⟩
          u.used (.alloc length) = ⟨arena, u.blocks ++ [block]⟩ ∧
            arena.read block = Array.replicate length.toNat 0 ∧
            ∀ b ∈ u.blocks, Disjoint b.range block.range ∧ arena.read b = u.arena.read b := by
  intro u total
  have h := (keeps_start capacity.toNat).after uses
  have htotal : u.arena.used = total := h.used_eq
  refine ⟨⟨h.sized.capacity_eq, htotal, htotal ▸ h.sized.used_le⟩,
    h.ordered.imp Block.disjoint_range, h.read_eq, fun length => ⟨h.sized.allocByWords_eq length,
      h.exists_alloc_iff length.toNat, used_alloc_of_none, fun start arena halloc => ?_⟩⟩
  refine ⟨used_alloc_of_some halloc, slice_alloc halloc, fun b hb => ⟨?_, ?_⟩⟩
  · exact Block.disjoint_range (h.stop_le_of_alloc halloc b hb)
  · exact slice_alloc_of_le halloc (h.stop_le b hb)

/-- After all eight bytes were written and taken back, five are zero beside a block of three; a sum
of sizes that wraps around to two is refused. -/
theorem hands_out_apart_eight :
    let u := (start 8).after [.alloc 8, .write 0 0 8 9, .rewind, .alloc 3, .write 0 1 2 7]
    u.arena.used = 3 ∧ u.blocks.map u.arena.read = [#[0, 7, 7]] ∧
      u.used (.alloc 18446744073709551615) = u ∧
      ∃ arena, u.used (.alloc 5) = ⟨arena, [⟨0, 3⟩, ⟨3, 5⟩]⟩ ∧
        arena.read ⟨0, 3⟩ = #[0, 7, 7] ∧ arena.read ⟨3, 5⟩ = #[0, 0, 0, 0, 0] := by
  intro u
  obtain ⟨⟨-, hused, -⟩, -, hread, halloc⟩ :=
    hands_out_apart 8 [.alloc 8, .write 0 0 8 9, .rewind, .alloc 3, .write 0 1 2 7]
  obtain ⟨hwords, -, hrefused, -⟩ := halloc 18446744073709551615
  obtain ⟨-, hroom, -, hgiven⟩ := halloc 5
  have hblocks : u.blocks = [⟨0, 3⟩] := by decide +kernel
  have hwraps : u.arena.allocByWords 18446744073709551615 = none := by
    have htold : (u.arena.allocByWords 18446744073709551615).isNone = true := by decide +kernel
    exact Option.isNone_iff_eq_none.mp htold
  obtain ⟨start, arena, hsome⟩ := hroom.mpr (by decide +kernel)
  obtain rfl : start = 3 := (alloc_eq_some_iff.mp hsome).2.1.trans hused
  obtain ⟨hmore, hzero, hkept⟩ := hgiven 3 arena hsome
  have hafter : u.used (.alloc 5) = ⟨arena, u.blocks ++ [⟨3, 5⟩]⟩ := hmore
  have hfirst : u.blocks.map u.arena.read = [#[0, 7, 7]] := hread
  have hmem : ⟨0, 3⟩ ∈ u.blocks := hblocks ▸ List.mem_singleton_self _
  rw [hblocks] at hafter hfirst
  exact ⟨hused, hread, hrefused (hwords.symm.trans hwraps), arena, hafter,
    (hkept ⟨0, 3⟩ hmem).2.trans (List.singleton_inj.mp hfirst), hzero⟩

end InUse

end Arena

end Metronome
