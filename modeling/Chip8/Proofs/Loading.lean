import Mathlib.Data.List.GetD
import Chip8.Proofs.BlockMoves
import Chip8.Proofs.Blocks
import Chip8.Proofs.Slices
/-!
# A load is whole or nothing

A block that ends with memory, or before, is copied byte for byte, and
nothing else changes (`copied_writeBlock`); a block that passes the end is
refused, and then nothing changes at all. A program is such a block, and
what was loaded can be read back by the slice and by the word
(`load_whole_or_nothing`).
-/

namespace Chip8

namespace Memory

variable {m n : Memory} {start : Nat} {block : List UInt8}

/-- **A memory with a block copied into it**: each byte is in its own cell,
from `start` on, and the other cells are as they were. -/
structure Copied (m : Memory) (start : Nat) (block : List UInt8) (n : Memory) : Prop where
  inside : ∀ (cell : Address) k (hk : k < block.length), cell.val = start + k →
    n.cells.get cell = block[k]
  outside : ∀ cell : Address, ¬(start ≤ cell.val ∧ cell.val < start + block.length) →
    n.cells.get cell = m.cells.get cell

/-- A block that does not pass the end of memory is copied. -/
theorem copied_writeBlock (m : Memory) {addr : UInt16} (h : addr.toNat + block.length ≤ 4096) :
    m.Copied addr.toNat block (m.writeBlock addr block) := by
  constructor
  case inside =>
    intro cell k hk hcell
    have hplace : cell.val - addr.toNat = k := by omega
    rw [get_writeBlock m h, if_pos (by omega), hplace]
    exact List.getD_eq_getElem _ _ hk
  case outside =>
    intro cell hcell
    rw [get_writeBlock m h]
    by_cases hbelow : addr.toNat ≤ cell.val
    · rw [if_pos hbelow]
      exact List.getD_eq_default _ _ (by omega)
    · rw [if_neg hbelow]

/-- What was copied is read as a word, high byte first. -/
theorem Copied.toNat_readWord (h : m.Copied start block n) {addr : UInt16} {k : Nat}
    (hk : k + 1 < block.length) (haddr : addr.toNat = start + k) (hfits : addr.toNat + 1 < 4096) :
    (n.readWord addr).toNat = 256 * block[k].toNat + block[k + 1].toNat := by
  have hhigh : n.read addr = block[k] := by
    refine h.inside (Address.ofWord addr) k (by omega) ?_
    rw [Address.val_ofWord]
    omega
  have hlow : n.read (addr + 1) = block[k + 1] := by
    refine h.inside (Address.ofWord (addr + 1)) (k + 1) hk ?_
    rw [Address.val_ofWord, UInt16.toNat_add, UInt16.toNat_one]
    omega
  rw [Memory.toNat_readWord, hhigh, hlow]

/-- And as a slice. -/
theorem slice?_writeBlock (m : Memory) {addr : UInt16} (h : addr.toNat + block.length ≤ 4096)
    (hbefore : addr.toNat < 4096) :
    (m.writeBlock addr block).slice? addr (UInt64.ofNat block.length) = some block := by
  have hcount : (UInt64.ofNat block.length).toNat = block.length := by
    rw [UInt64.toNat_ofNat']
    omega
  have hstart : addr.toNat % 4096 = addr.toNat := Nat.mod_eq_of_lt hbefore
  have hword : Address.toWord (Address.ofWord addr) = addr := by
    apply UInt16.toNat_inj.1
    rw [Address.toNat_toWord, Address.val_ofWord, hstart]
  have hlength : min block.length (4096 - addr.toNat) = block.length := by omega
  have hsize : addr.toNat + block.length < UInt64.size := Nat.lt_of_le_of_lt h (by decide)
  rw [slice?_of_lt _ (by rw [hstart, hcount]; exact hsize), hword, hcount, hstart, hlength,
    m.readBlock_writeBlock addr (by omega)]

end Memory

namespace Machine

/-! ## Programs -/

/-- A program that fits is loaded, and nothing but memory changes. -/
theorem perform_load_of_le (m : Machine) {program : List UInt8} (h : program.length ≤ 0xE00) :
    m.perform (.load program) = (.ok .done, { m with
      memory := m.memory.writeBlock Registers.programStart program }) := by
  obtain ⟨stop, hload⟩ := m.exists_loadProgram_eq_ok h
  obtain ⟨-, hcopied⟩ := of_loadProgram_eq_ok hload
  rw [hcopied] at hload
  simp only [perform, hload]

/-- A program that does not fit is refused, and nothing changes. -/
theorem perform_load_of_lt (m : Machine) {program : List UInt8} (h : 0xE00 < program.length) :
    m.perform (.load program) = (.error (.load program.length 0xE00), m) := by
  have hlong : 4096 < Registers.programStart.toNat % 4096 + program.length := by
    have hstart : Registers.programStart.toNat % 4096 = 512 := rfl
    omega
  have hload : m.loadProgram program = .error (.load program.length 0xE00) := by
    rw [loadProgram, m.memory.load_of_lt hlong]
    rfl
  simp only [perform, hload]

/-- **A load is whole or nothing.** A block goes into memory exactly if it
does not pass the end of it: then the address past its last byte is given
back in full, each byte is in its own cell, and the other cells are as they
were; otherwise the block is refused with its length and the room that there
was, and no cell changes. No check fails in either case. So a program is
loaded exactly if it has at most `0xE00` bytes, by any machine, faulted or
not: then nothing changes but the cells that the program goes to, its bytes
come back as a slice, and its words are read high byte first; otherwise the
machine is the one that it was. -/
theorem load_whole_or_nothing :
    (∀ (m : Memory) (addr : UInt16) (block : List UInt8),
      let start := addr.toNat % 4096
      if start + block.length ≤ 4096 then
        ∃ (stop : UInt16) (n : Memory), m.load addr block = .ok (stop, n) ∧
          Guarded.load? m.cells addr block = some (.ok stop, n.cells) ∧
          stop.toNat = start + block.length ∧ m.Copied start block n
      else
        m.load addr block = .error (.load block.length (4096 - start)) ∧
          Guarded.load? m.cells addr block =
            some (.error (.load block.length (4096 - start)), m.cells)) ∧
    ∀ (m : Machine) (program : List UInt8),
      if program.length ≤ 0xE00 then
        ∃ memory : Memory,
          m.perform (.load program) = (.ok .done, { m with memory := memory }) ∧
          m.memory.Copied 0x200 program memory ∧
          memory.slice? 0x200 (UInt64.ofNat program.length) = some program ∧
          ∀ k (hk : 2 * k + 1 < program.length),
            (memory.readWord (0x200 + UInt16.ofNat (2 * k))).toNat =
              256 * program[2 * k].toNat + program[2 * k + 1].toNat
      else m.perform (.load program) = (.error (.load program.length 0xE00), m) := by
  constructor
  · intro m addr block start
    have hchecked := m.load?_checked addr block
    split
    case isTrue h =>
      have hload := m.load_of_le h
      rw [hload] at hchecked
      refine ⟨_, _, hload, hchecked, ?_, ?_⟩
      · rw [UInt16.toNat_ofNat']
        exact Nat.mod_eq_of_lt (by omega)
      · have hstart : (Address.toWord (Address.ofWord addr)).toNat = start :=
          Address.toNat_toWord (Address.ofWord addr)
        rw [← hstart] at h ⊢
        exact m.copied_writeBlock h
    case isFalse h =>
      have hload := m.load_of_lt (Nat.not_le.1 h)
      rw [hload] at hchecked
      exact ⟨hload, hchecked⟩
  · intro m program
    have hstart : Registers.programStart.toNat = 0x200 := rfl
    split
    case isTrue h =>
      have hfits : Registers.programStart.toNat + program.length ≤ 4096 := by omega
      have hcopied := m.memory.copied_writeBlock hfits
      refine ⟨_, m.perform_load_of_le h, hcopied, m.memory.slice?_writeBlock hfits (by decide),
        fun k hk => ?_⟩
      have haddr : (0x200 + UInt16.ofNat (2 * k)).toNat = 0x200 + 2 * k := by
        rw [UInt16.toNat_add, UInt16.toNat_ofNat', show UInt16.toNat 0x200 = 0x200 from rfl]
        omega
      exact hcopied.toNat_readWord hk haddr (by omega)
    case isFalse h => exact m.perform_load_of_lt (Nat.not_le.1 h)

/-- Two bytes fill memory up to its end, and three are one too many; of a
program of three bytes the first two are a word. -/
theorem load_whole_or_nothing_toTheEnd :
    (∃ (stop : UInt16) (n : Memory), Memory.blank.load 0xFFFE [0xAB, 0xCD] = .ok (stop, n) ∧
      stop.toNat = 0x1000 ∧ n.cells.get (Address.ofWord 0x0FFF) = 0xCD) ∧
    Memory.blank.load 0xFFFE [0xAB, 0xCD, 0xEF] = .error (.load 3 2) ∧
    ∃ memory : Memory, (powerOn 0 Profile.standard).perform (.load [0x12, 0x34, 0x56]) =
        (.ok .done, { powerOn 0 Profile.standard with memory := memory }) ∧
      (memory.readWord 0x200).toNat = 0x1234 := by
  obtain ⟨hblock, hprogram⟩ := load_whole_or_nothing
  refine ⟨?_, ?_, ?_⟩
  · have hfits := hblock Memory.blank 0xFFFE [0xAB, 0xCD]
    rw [if_pos (by decide)] at hfits
    obtain ⟨stop, n, hload, -, hstop, hcopied⟩ := hfits
    exact ⟨stop, n, hload, hstop, hcopied.inside (Address.ofWord 0x0FFF) 1 (by decide) rfl⟩
  · have hlong := hblock Memory.blank 0xFFFE [0xAB, 0xCD, 0xEF]
    rw [if_neg (by decide)] at hlong
    exact hlong.1
  · have hfits := hprogram (powerOn 0 Profile.standard) [0x12, 0x34, 0x56]
    rw [if_pos (by decide)] at hfits
    obtain ⟨memory, hload, -, -, hword⟩ := hfits
    exact ⟨memory, hload, hword 0 (by decide)⟩

end Machine

end Chip8
