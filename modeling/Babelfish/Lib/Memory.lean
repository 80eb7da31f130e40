import Mathlib.Logic.Basic

/-!
# Cells and blocks

A memory of single cells and of blocks that can be extended: extending a block may move it, and then
the old block is freed.  An address is the position of what was allocated; a freed block keeps its
address, so that reading it can be told from reading another.

* `Memory.Extends`: a memory in which all that was there is as it was.
* `Memory.realloc_moved`: what extending a block does to the memory.
-/

namespace Babelfish.Lib

open List

variable {a c : Nat}

/-- A memory of cells and of blocks; the freed blocks are `none`. -/
structure Memory (α β : Type) where
  cells : List α
  blocks : List (Option (List β))

namespace Memory

variable {α β : Type} (m : Memory α β)

def cell (a : Nat) : Option α := m.cells[a]?

/-- The contents of a block that is not freed. -/
def block (b : Nat) : Option (List β) := (m.blocks[b]?).join

def Freed (b : Nat) : Prop := m.blocks[b]? = some none

/-- Allocate a cell; its address is the number of cells. -/
def newCell (v : α) : Memory α β := { m with cells := m.cells ++ [v] }

/-- Allocate a block; its address is the number of blocks. -/
def newBlock (l : List β) : Memory α β := { m with blocks := m.blocks ++ [some l] }

def setCell (a : Nat) (v : α) : Memory α β := { m with cells := m.cells.set a v }

def setBlock (b : Nat) (l : List β) : Memory α β :=
  { m with blocks := m.blocks.set b (some l) }

/-- `repalloc`, together with the writes that fill the block: it is extended where it is, or moved
to a new address. -/
def realloc (moves : Bool) (b : Nat) (l : List β) : Nat × Memory α β :=
  if moves then (m.blocks.length, { m with blocks := m.blocks.set b none ++ [some l] })
  else (b, m.setBlock b l)

/-! ### Reading after writing -/

variable {m : Memory α β} {v : α}

theorem cell_lt (h : m.cell a = some v) : a < m.cells.length :=
  (List.getElem?_eq_some_iff.mp h).1

variable {b : Nat} {l : List β}

theorem block_eq_some : m.block b = some l ↔ m.blocks[b]? = some (some l) := by
  rw [block, Option.join_eq_some_iff]

theorem block_lt (h : m.block b = some l) :
    b < m.blocks.length := (List.getElem?_eq_some_iff.mp (block_eq_some.mp h)).1

theorem Freed.block_eq (h : m.Freed b) : m.block b = none := by
  rw [block, h]
  rfl

theorem Freed.ne (h : m.Freed b) (hc : m.block c = some l) : b ≠ c := by
  rintro rfl
  rw [h.block_eq] at hc
  cases hc

theorem cell_newCell_self : (m.newCell v).cell m.cells.length = some v := by
  rw [cell, newCell, getElem?_concat_length]

theorem block_newBlock_self : (m.newBlock l).block m.blocks.length = some l := by
  rw [block_eq_some, newBlock, getElem?_concat_length]

theorem cell_setCell_self (h : m.cell a = some v) (w : α) : (m.setCell a w).cell a = some w := by
  rw [cell, setCell, getElem?_set_self (cell_lt h)]

theorem cell_setCell_ne {a' : Nat} (h : a' ≠ a) (w : α) : (m.setCell a w).cell a' = m.cell a' := by
  rw [cell, setCell, getElem?_set_ne (Ne.symm h)]
  rfl

theorem block_setBlock_self (h : m.block b = some l) (l' : List β) :
    (m.setBlock b l').block b = some l' := by
  rw [block_eq_some, setBlock, getElem?_set_self (block_lt h)]

theorem block_setBlock_ne (h : c ≠ b) : (m.setBlock b l).block c = m.block c := by
  rw [block, setBlock, getElem?_set_ne (Ne.symm h)]
  rfl

theorem Freed.setBlock {l' : List β} (h : m.Freed c) (hb : m.block b = some l) :
    (m.setBlock b l').Freed c := by
  rwa [Freed, Memory.setBlock, getElem?_set_ne (h.ne hb).symm]

/-! ### Extending a block -/

/-- The block `b` has been extended to `l`, at the address `b'`. -/
structure Moved (m : Memory α β) (b : Nat) (l : List β) (b' : Nat) (m' : Memory α β) : Prop where
  cell : ∀ a, m'.cell a = m.cell a
  block : m'.block b' = some l
  other : ∀ {c l'}, m.block c = some l' → c ≠ b → m'.block c = some l' ∧ b' ≠ c
  old : b' = b ∨ m'.Freed b
  freed : ∀ {c}, m.Freed c → m'.Freed c

theorem realloc_moved (moves : Bool) (h : m.block b = some l) (l' : List β) :
    m.Moved b l' (m.realloc moves b l').1 (m.realloc moves b l').2 := by
  cases moves with
  | false =>
    refine ⟨fun _ => rfl, block_setBlock_self h l', ?_, Or.inl rfl, fun hc => hc.setBlock h⟩
    intro c l'' hc hne
    exact ⟨(block_setBlock_ne hne).trans hc, hne.symm⟩
  | true =>
    let blocks := m.blocks.set b none ++ [some l']
    have hlen : m.blocks.length = (m.blocks.set b none).length := (length_set).symm
    have hkept : ∀ {c x}, m.blocks[c]? = some x → c ≠ b → blocks[c]? = some x := by
      intro c x hc hne
      have hlt := (List.getElem?_eq_some_iff.mp hc).1
      rw [getElem?_append_left (hlen ▸ hlt), getElem?_set_ne hne.symm, hc]
    refine ⟨fun _ => rfl, ?_, ?_, Or.inr ?_, fun hc => hkept hc (hc.ne h)⟩
    · refine block_eq_some.mpr ?_
      change blocks[m.blocks.length]? = some (some l')
      rw [hlen, getElem?_concat_length]
    · intro c l'' hc hne
      exact ⟨block_eq_some.mpr (hkept (block_eq_some.mp hc) hne), Nat.ne_of_gt (block_lt hc)⟩
    · change blocks[b]? = some none
      rw [getElem?_append_left (hlen ▸ block_lt h), getElem?_set_self (block_lt h)]

/-! ### Memories that only grow -/

/-- All that was there is as it was. -/
structure Extends (m m' : Memory α β) : Prop where
  cell : ∀ {a v}, m.cell a = some v → m'.cell a = some v
  block : ∀ {b l}, m.block b = some l → m'.block b = some l
  freed : ∀ {b}, m.Freed b → m'.Freed b
  cells_le : m.cells.length ≤ m'.cells.length
  blocks_le : m.blocks.length ≤ m'.blocks.length

theorem Extends.refl (m : Memory α β) : m.Extends m := ⟨id, id, id, Nat.le_refl _, Nat.le_refl _⟩

theorem Extends.trans {m' m'' : Memory α β} (h : m.Extends m') (h' : m'.Extends m'') :
    m.Extends m'' where
  cell := fun hc => h'.cell (h.cell hc)
  block := fun hb => h'.block (h.block hb)
  freed := fun hf => h'.freed (h.freed hf)
  cells_le := Nat.le_trans h.cells_le h'.cells_le
  blocks_le := Nat.le_trans h.blocks_le h'.blocks_le

theorem extends_newCell : m.Extends (m.newCell v) where
  cell := by
    intro a w h
    rwa [Memory.cell, newCell, getElem?_append_left (cell_lt h)]
  block := id
  freed := id
  cells_le := by simp [newCell]
  blocks_le := Nat.le_refl _

theorem extends_newBlock : m.Extends (m.newBlock l) where
  cell := id
  block := by
    intro b l' h
    rw [block_eq_some, newBlock, getElem?_append_left (block_lt h)]
    exact block_eq_some.mp h
  freed := by
    intro b h
    rwa [Freed, newBlock, List.getElem?_append_left (List.getElem?_eq_some_iff.mp h).1]
  cells_le := Nat.le_refl _
  blocks_le := by simp [newBlock]

end Memory

end Babelfish.Lib
