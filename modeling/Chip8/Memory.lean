import Chip8.Buffer
import Chip8.Fault
import Chip8.Word
/-!
# Memory

The machine has 4096 bytes. A cell is named by a word of which only the
lower twelve bits count, so that every word names a cell and a run of
cells goes on at the start when it passes the end. A block that is loaded
must fit below the end and is written whole or not at all.
-/

namespace Chip8

/-- The bytes of memory, by address. -/
structure Memory where
  /-- The byte in each cell. -/
  cells : Buffer UInt8 4096
deriving DecidableEq

namespace Memory

/-- The number of cells. -/
def size : Nat := 4096

/-- The bits of a word that name a cell. -/
def mask : UInt16 := 0x0FFF

/-- Memory with zero in every cell. -/
def blank : Memory := ⟨Buffer.blank⟩

/-- Memory with every cell put back to zero. -/
def clear (m : Memory) : Memory := ⟨m.cells.fill 0⟩

/-- The byte in the cell that a word names. -/
def read (m : Memory) (addr : UInt16) : UInt8 :=
  m.cells.get (Address.ofWord addr)

/-- Memory with a byte put into the cell that a word names. -/
def write (m : Memory) (addr : UInt16) (b : UInt8) : Memory :=
  ⟨m.cells.put (Address.ofWord addr) b⟩

/-- The word in two cells, high byte first. -/
def readWord (m : Memory) (addr : UInt16) : UInt16 :=
  Word.ofBytes (m.read addr) (m.read (addr + 1))

/-- The bytes in a run of cells. -/
def readBlock (m : Memory) (addr : UInt16) (count : Nat) : List UInt8 :=
  (List.range count).map fun k => m.read (addr + UInt16.ofNat k)

/-- Memory with the bytes of a block put into a run of cells. -/
def writeBlock (m : Memory) (addr : UInt16) : List UInt8 → Memory
  | [] => m
  | b :: bs => (m.write addr b).writeBlock (addr + 1) bs

/-- The number of cells from the one that a word names to the last. -/
def room (addr : UInt16) : Nat :=
  size - (Address.ofWord addr).val

/-- Memory with a block loaded, and the address past its last byte; a block
that passes the end is refused. -/
def load (m : Memory) (addr : UInt16) (block : List UInt8) : Except Fault (UInt16 × Memory) :=
  let start := Address.ofWord addr
  if block.length ≤ room addr then
    .ok (UInt16.ofNat (start.val + block.length), m.writeBlock start.toWord block)
  else .error (.load block.length (room addr))

/-- At most `count` bytes from a cell on, cut short at the end of memory.
The end of the request is computed in a 64-bit word, and a request whose
end lies beyond that is refused. -/
def slice? (m : Memory) (addr : UInt16) (count : UInt64) : Option (List UInt8) :=
  let start := Address.ofWord addr
  if start.val + count.toNat < UInt64.size then
    some (m.readBlock start.toWord (min count.toNat (room addr)))
  else none

/-! ## Reading back what was written -/

/-- A write shows in the cell that it names and in no other. -/
theorem read_write (m : Memory) (a addr : UInt16) (b : UInt8) :
    (m.write a b).read addr =
      if Address.ofWord a = Address.ofWord addr then b else m.read addr := by
  simp only [read, write, Buffer.get_put]

@[simp] theorem read_blank (addr : UInt16) : blank.read addr = 0 := by
  simp only [read, blank, Buffer.get_blank]
  rfl

/-- Words that agree in their lower twelve bits name the same cell. -/
theorem read_congr (m : Memory) {a b : UInt16} (h : Address.ofWord a = Address.ofWord b) :
    m.read a = m.read b := by
  simp only [read, h]

/-- A word is two bytes, high byte first. -/
theorem toNat_readWord (m : Memory) (addr : UInt16) :
    (m.readWord addr).toNat = 256 * (m.read addr).toNat + (m.read (addr + 1)).toNat :=
  Word.toNat_ofBytes _ _

/-- A block in two parts, the second right after the first. -/
theorem writeBlock_append (m : Memory) (addr : UInt16) (block rest : List UInt8) :
    m.writeBlock addr (block ++ rest) =
      (m.writeBlock addr block).writeBlock (addr + UInt16.ofNat block.length) rest := by
  induction block generalizing m addr with
  | nil => rw [List.nil_append, List.length_nil, Word.add_ofNat_zero, writeBlock]
  | cons b bs ih =>
    rw [List.cons_append, writeBlock, ih, List.length_cons, Word.add_ofNat_succ_left, writeBlock]

@[simp] theorem clear_eq (m : Memory) : m.clear = blank := rfl

@[simp] theorem length_readBlock (m : Memory) (addr : UInt16) (count : Nat) :
    (m.readBlock addr count).length = count := by
  simp [readBlock]

theorem getElem_readBlock (m : Memory) (addr : UInt16) (count k : Nat)
    (hk : k < (m.readBlock addr count).length) :
    (m.readBlock addr count)[k] = m.read (addr + UInt16.ofNat k) := by
  simp only [readBlock, List.getElem_map, List.getElem_range]

theorem room_eq (addr : UInt16) : room addr = 4096 - addr.toNat % 4096 := rfl

end Memory

end Chip8
