import Mathlib.Data.List.DropRight
import Chip8.Proofs.Blocks
import Chip8.Proofs.CellsRead
import Chip8.Proofs.Reset
/-!
# Memory is its write history

Bytes get into memory in three ways: by a program that is loaded, by the
digits of a register, and by a block of registers. The bytes that an action
puts into cells are written out here (`Machine.writesOf`), and a cell holds
the byte most recently put into it: after one action (`get_act`), and so
after a history without a reset (`get_run`). What was done before the
latest reset is no part of the history (`run_sinceReset`).
-/

namespace Chip8

/-- A byte put into a memory cell. -/
structure Write where
  /-- The cell. -/
  cell : Address
  /-- The byte. -/
  byte : UInt8
deriving DecidableEq

namespace Write

variable {cell : Address} {start : UInt16} {block : List UInt8} {writes : List Write}

/-- The bytes of a block put into a row of cells, one after the other. -/
def ofBlock (start : UInt16) (block : List UInt8) : List Write :=
  block.mapIdx fun k b => ⟨Address.ofWord (start + UInt16.ofNat k), b⟩

/-- The byte most recently put into a cell, if any was. -/
def last? (writes : List Write) (cell : Address) : Option UInt8 :=
  (writes.reverse.find? fun w => w.cell = cell).map Write.byte

/-! ## The last write -/

@[simp] theorem last?_nil (cell : Address) : last? [] cell = none := rfl

/-- What was written later counts, and what was written before only if
nothing was. -/
theorem last?_append (before after : List Write) (cell : Address) :
    last? (before ++ after) cell = (last? after cell).or (last? before cell) := by
  rw [last?, List.reverse_append, List.find?_append, Option.map_or]
  rfl

theorem last?_singleton (w : Write) (cell : Address) :
    last? [w] cell = if w.cell = cell then some w.byte else none := by
  rw [last?, List.reverse_singleton, List.find?_singleton]
  by_cases h : w.cell = cell <;> simp [h]

theorem last?_eq_none (h : ∀ w ∈ writes, w.cell ≠ cell) : last? writes cell = none := by
  rw [last?, Option.map_eq_none_iff, List.find?_eq_none]
  intro w hw
  simpa using h w (List.mem_reverse.1 hw)

/-! ## Blocks -/

theorem ofBlock_cons (start : UInt16) (b : UInt8) (block : List UInt8) :
    ofBlock start (b :: block) = ⟨Address.ofWord start, b⟩ :: ofBlock (start + 1) block := by
  simp only [ofBlock, List.mapIdx_cons, Word.add_ofNat_zero, Word.add_ofNat_succ_left]

/-- A block is written into the row of cells that it takes up. -/
theorem inRow_of_mem_ofBlock {w : Write} (h : w ∈ ofBlock start block) :
    Address.InRow start block.length w.cell := by
  obtain ⟨k, hk, rfl⟩ := List.mem_mapIdx.1 h
  exact ⟨k, hk, rfl⟩

theorem last?_ofBlock_eq_none (h : ¬Address.InRow start block.length cell) :
    last? (ofBlock start block) cell = none :=
  last?_eq_none fun _ hw e => h (e ▸ inRow_of_mem_ofBlock hw)

end Write

/-- **After a block a cell holds the byte last put into it.** -/
theorem Memory.get_writeBlock_eq_last (m : Memory) (start : UInt16) (block : List UInt8)
    (cell : Address) :
    (m.writeBlock start block).cells.get cell =
      (Write.last? (Write.ofBlock start block) cell).getD (m.cells.get cell) := by
  induction block generalizing m start with
  | nil => rfl
  | cons b block ih =>
    have hfirst : (m.write start b).cells.get cell =
        (if Address.ofWord start = cell then some b else none).getD (m.cells.get cell) := by
      rw [write, Buffer.get_put]
      split <;> rfl
    rw [writeBlock, ih, hfirst, Write.ofBlock_cons, ← List.singleton_append,
      Write.last?_append, Option.getD_or, Write.last?_singleton]

namespace Machine

variable {m n : Machine} {a : Action} {i : Instruction} {cell : Address}
  {actions : List Action}

/-! ## What an action writes -/

/-- The bytes that an instruction puts into cells. -/
def writesOfInstruction (m : Machine) : Instruction → List Write
  | .storeDecimal x => Write.ofBlock m.index (decimalDigits (m.v x))
  | .storeBlock x => Write.ofBlock m.index (m.registers.upTo x)
  | _ => []

/-- The bytes that an action puts into cells: those of a program that is
loaded, and those of an instruction that is executed. -/
def writesOf (m : Machine) : Action → List Write
  | .load program =>
    match m.loadProgram program with
    | .ok _ => Write.ofBlock Registers.programStart program
    | .error _ => []
  | .cycle => (m.executed? .cycle).elim [] m.writesOfInstruction
  | _ => []

/-- The bytes that a list of actions puts into cells, in their order. -/
def writes (m : Machine) : List Action → List Write
  | [] => []
  | a :: actions => m.writesOf a ++ (m.act a).writes actions

theorem memory_advanceIndex (m : Machine) (x : Digit) (advances : Bool) :
    (m.advanceIndex x advances).memory = m.memory := by
  unfold advanceIndex
  split <;> rfl

/-- An instruction that writes no cell leaves memory alone. -/
theorem memory_execute_of_not_writes (h : m.execute i = .ok n)
    (hd : ∀ x, i ≠ .storeDecimal x) (hb : ∀ x, i ≠ .storeBlock x) (cell : Address) :
    n.memory.cells.get cell = m.memory.cells.get cell := by
  refine ((framed_of_execute h).memory cell).resolve_right ?_
  cases i with
  | storeDecimal x => exact absurd rfl (hd x)
  | storeBlock x => exact absurd rfl (hb x)
  | _ => exact id

/-- **An instruction writes what is said of it.** -/
theorem get_execute (h : m.execute i = .ok n) (cell : Address) :
    n.memory.cells.get cell =
      (Write.last? (m.writesOfInstruction i) cell).getD (m.memory.cells.get cell) := by
  cases i with
  | storeDecimal x =>
    obtain rfl := Except.ok.inj h
    exact m.memory.get_writeBlock_eq_last m.index (decimalDigits (m.v x)) cell
  | storeBlock x =>
    have hmemory : n.memory = m.memory.writeBlock m.index (m.registers.upTo x) := by
      obtain rfl := Except.ok.inj h
      exact memory_advanceIndex _ x _
    rw [hmemory]
    exact m.memory.get_writeBlock_eq_last m.index (m.registers.upTo x) cell
  | _ => exact memory_execute_of_not_writes h nofun nofun cell

/-- And so does a load. -/
theorem get_act_load (m : Machine) (program : List UInt8) (cell : Address) :
    (m.act (.load program)).memory.cells.get cell =
      (Write.last? (m.writesOf (.load program)) cell).getD (m.memory.cells.get cell) := by
  cases hl : m.loadProgram program with
  | error f => simp only [act, perform, writesOf, hl, Write.last?_nil, Option.getD_none]
  | ok loaded =>
    obtain ⟨-, hcopied⟩ := of_loadProgram_eq_ok hl
    simp only [act, perform, writesOf, hl, hcopied]
    exact m.memory.get_writeBlock_eq_last Registers.programStart program cell

/-- **After an action a cell holds the byte last put into it.** -/
theorem get_act (ha : a ≠ .reset) (cell : Address) :
    (m.act a).memory.cells.get cell =
      (Write.last? (m.writesOf a) cell).getD (m.memory.cells.get cell) := by
  cases a with
  | reset => exact absurd rfl ha
  | load program => exact get_act_load m program cell
  | cycle =>
    cases hx : m.executed? .cycle with
    | none =>
      obtain ⟨f, hf⟩ := act_cycle_of_executed?_eq_none hx
      rw [act_cycle, hf, writesOf, hx, Option.elim_none, Write.last?_nil, Option.getD_none]
    | some i =>
      obtain ⟨-, -, -, hexecute⟩ := executed?_eq_some_iff.1 hx
      rw [writesOf, hx, Option.elim_some]
      exact get_execute hexecute cell
  | _ => rfl

/-- **Memory is its write history**: along a history without a reset a cell
holds the byte last put into it, or what it held before. -/
theorem get_run (h : Action.reset ∉ actions) (m : Machine) (cell : Address) :
    (m.run actions).memory.cells.get cell =
      (Write.last? (m.writes actions) cell).getD (m.memory.cells.get cell) := by
  induction actions generalizing m with
  | nil => rfl
  | cons a actions ih =>
    rw [List.mem_cons, not_or] at h
    rw [run_cons, ih h.2, get_act (fun e => h.1 e.symm), writes, Write.last?_append,
      Option.getD_or]

/-! ## Since the latest reset -/

/-- The actions after the latest reset, or all of them if there is none. -/
def sinceReset (actions : List Action) : List Action :=
  actions.rtakeWhile (· ≠ .reset)

theorem reset_not_mem_sinceReset (actions : List Action) :
    Action.reset ∉ sinceReset actions := by
  intro h
  have hne := List.mem_rtakeWhile_imp h
  simp at hne

/-- A machine just switched on is where the actions since the latest reset
have led it. -/
theorem run_sinceReset (seed : UInt64) (profile : Profile) (actions : List Action) :
    (powerOn seed profile).run (sinceReset actions) = (powerOn seed profile).run actions := by
  induction actions using List.reverseRecOn with
  | nil => rfl
  | append_singleton actions a ih =>
    by_cases ha : a = .reset
    · have hnone : sinceReset (actions ++ [a]) = [] :=
        List.rtakeWhile_concat_neg _ _ _ (by simp [ha])
      rw [hnone, run_nil, run_append, run_cons, run_nil, ha]
      exact (reset_run seed profile actions).symm
    · have hmore : sinceReset (actions ++ [a]) = sinceReset actions ++ [a] :=
        List.rtakeWhile_concat_pos _ _ _ (by simp [ha])
      rw [hmore, run_append, run_append, ih]

end Machine

end Chip8
