import Chip8.Proofs.BlockMoves
import Chip8.Proofs.History
import Chip8.Proofs.Listings
import Chip8.Proofs.Similarity
/-!
# Listed as executed

The listing cuts an image into words from its beginning, and the machine
reads words of its memory wherever the program counter points. On a program
at the start of program memory both see the same words (`fetch_of_holds`),
and both have one decoder. So what the listing says of a word is what the
machine reports when it executes it, and the mark of a word that is no
instruction is the fault that it ends in (`listed_as_executed`).
-/

namespace Chip8

/-- The words of a notice before an instruction. -/
theorem Notice.text_executing (pc : UInt16) (i : Instruction) :
    (Notice.executing pc i).text =
      "TRACE [PC:" ++ Hex.literal 4 pc.toNat ++ "] " ++ i.mnemonic := by
  have htext : (Notice.executing pc i).text = "TRACE" ++ " " ++ atPc pc i.mnemonic := rfl
  have hlead : "TRACE [PC:" = "TRACE" ++ " " ++ "[PC:" := by decide
  rw [htext, atPc, hlead]
  simp only [String.append_assoc]

namespace Machine

variable {m : Machine} {program : List UInt8} {k : Nat}

/-- Memory has a program at the start of program memory. -/
def Holds (m : Machine) (program : List UInt8) : Prop :=
  m.memory.readBlock Registers.programStart program.length = program

/-- A program that fits is in memory once it is loaded. -/
theorem holds_act_load (m : Machine) (h : program.length ≤ 0xE00) :
    (m.act (.load program)).Holds program := by
  obtain ⟨stop, hload⟩ := m.exists_loadProgram_eq_ok h
  obtain ⟨-, hcopied⟩ := of_loadProgram_eq_ok hload
  rw [Holds, hcopied, Memory.readBlock_writeBlock m.memory _ (by omega)]

/-- The byte at a place of the program, from whichever word names its cell. -/
theorem read_of_holds (h : m.Holds program) {b : UInt8} {addr : UInt16}
    (hb : program[k]? = some b) (ha : addr.toNat % 4096 = (0x200 + k) % 4096) :
    m.memory.read addr = b := by
  have hk : k < program.length := (List.getElem?_eq_some_iff.mp hb).1
  have hsame : Address.ofWord addr = Address.ofWord (Registers.programStart + UInt16.ofNat k) := by
    apply Fin.ext
    simp only [Address.val_ofWord, UInt16.toNat_add, UInt16.toNat_ofNat', ha,
      Registers.programStart]
    simp
  rw [← h, Memory.readBlock, List.getElem?_map, List.getElem?_range hk] at hb
  exact (m.memory.read_congr hsame).trans (Option.some.inj hb)

/-- The word at the program counter is the one at that place of the program. -/
theorem fetch_of_holds (h : m.Holds program) {high low : UInt8}
    (hhigh : program[2 * k]? = some high) (hlow : program[2 * k + 1]? = some low)
    (hpc : m.pc.toNat % 4096 = (0x200 + 2 * k) % 4096) : m.fetch = Word.ofBytes high low := by
  have hnext : (m.pc + 1).toNat % 4096 = (0x200 + (2 * k + 1)) % 4096 := by
    rw [UInt16.toNat_add, UInt16.toNat_one]
    omega
  rw [fetch, Memory.readWord, read_of_holds h hhigh hpc, read_of_holds h hlow hnext]

/-- A cycle fails on the word that it fetches exactly when that is no
instruction. -/
theorem cycle_decode_iff (hf : m.fault = none) :
    (∃ pc, m.cycle.1 = .error (.decode pc m.fetch)) ↔ Instruction.decode? m.fetch = none := by
  simp only [cycle_fst_eq_error_iff hf]
  constructor
  · rintro ⟨pc, hfaulting⟩
    cases hfaulting with
    | undecodable h => exact h
  · exact fun h => ⟨m.pc, .undecodable h⟩

/-- An instruction is reported before anything that comes of it. -/
theorem cycleNotices_of_decode? (hf : m.fault = none) {i : Instruction}
    (hi : Instruction.decode? m.fetch = some i) :
    ∃ rest, m.cycleNotices = .executing m.pc i :: rest := by
  simp only [cycleNotices, hf, hi, Option.elim_some, executionNotices, List.cons_append]
  exact ⟨_, rfl⟩

/-- **A program is listed as it is executed.** Let the program be in memory
and the program counter name the cell of one of its words, in whatever way.
The line for that word shows where it is loaded and the word that the machine
fetches. It is marked as no instruction exactly when the next cycle fails to
decode that word, and otherwise it says what the machine reports before it
executes it. -/
theorem listed_as_executed (hf : m.fault = none) (hm : m.Holds program)
    (hk : 2 * k + 1 < program.length) (hpc : m.pc.toNat % 4096 = (0x200 + 2 * k) % 4096) :
    ∃ meaning : String,
      Listing.lineAt? (Listing.text Registers.programStart program) k =
        some (Hex.upper 4 (0x200 + 2 * k) ++ ": " ++ Hex.upper 4 m.fetch.toNat ++ "  " ++
          meaning) ∧
      (meaning = "???" ↔ ∃ pc, m.cycle.1 = .error (.decode pc m.fetch)) ∧
      (meaning ≠ "???" → ∃ i rest, m.cycleNotices = .executing m.pc i :: rest ∧
        (Notice.executing m.pc i).text =
          "TRACE [PC:" ++ Hex.literal 4 m.pc.toNat ++ "] " ++ meaning) := by
  have hhigh : program[2 * k]? = some program[2 * k] := List.getElem?_eq_getElem _
  have hlow : program[2 * k + 1]? = some program[2 * k + 1] := List.getElem?_eq_getElem hk
  have hfetch := fetch_of_holds hm hhigh hlow hpc
  refine ⟨Listing.Line.meaning m.fetch, ?_, ?_, fun hmark => ?_⟩
  · rw [Listing.text, Listing.lineAt?_textOf, Listing.getElem?_lines_word hhigh hlow, hfetch]
    rfl
  · rw [Listing.Line.meaning_eq_mark_iff, cycle_decode_iff hf]
  · rw [Ne, Listing.Line.meaning_eq_mark_iff, ← Ne, Option.ne_none_iff_exists'] at hmark
    obtain ⟨i, hi⟩ := hmark
    obtain ⟨rest, hrest⟩ := cycleNotices_of_decode? hf hi
    refine ⟨i, rest, hrest, ?_⟩
    rw [Notice.text_executing, Listing.Line.meaning, hi, Option.elim_some]

/-- A program of an instruction, a word that is none, and half a word. -/
def shortProgram : List UInt8 :=
  [0x00, 0xE0, 0xFF, 0xFF, 0x12]

/-- A machine with that program, at its first word. -/
def shortLoaded : Machine :=
  (powerOn 0 Profile.standard).act (.load shortProgram)

/-- The same at the second word, by an address past the end of memory. -/
def pastInstruction : Machine :=
  { shortLoaded with registers := { shortLoaded.registers with pc := 0x1202 } }

/-- The first word is listed as the machine reports it, and the second as no
instruction. -/
theorem listed_as_executed_pastInstruction :
    (shortLoaded.fault = none ∧ shortLoaded.Holds shortProgram ∧
      2 * 0 + 1 < shortProgram.length ∧
      shortLoaded.pc.toNat % 4096 = (0x200 + 2 * 0) % 4096 ∧
      ∃ meaning : String,
        Listing.lineAt? (Listing.text Registers.programStart shortProgram) 0 =
          some ("0200: 00E0  " ++ meaning) ∧
        meaning ≠ "???" ∧
        ∃ i rest, shortLoaded.cycleNotices = .executing 0x200 i :: rest ∧
          (Notice.executing 0x200 i).text = "TRACE [PC:0x0200] " ++ meaning) ∧
    pastInstruction.fault = none ∧ pastInstruction.Holds shortProgram ∧
      2 * 1 + 1 < shortProgram.length ∧
      pastInstruction.pc.toNat % 4096 = (0x200 + 2 * 1) % 4096 ∧
      ∃ meaning : String,
        Listing.lineAt? (Listing.text Registers.programStart shortProgram) 1 =
          some ("0202: FFFF  " ++ meaning) ∧
        meaning = "???" ∧
        pastInstruction.cycle.1 = .error (.decode 0x1202 0xFFFF) := by
  have hm : shortLoaded.Holds shortProgram :=
    (powerOn 0 Profile.standard).holds_act_load (by decide)
  have hfirst : 2 * 0 + 1 < shortProgram.length := by decide
  have hsecond : 2 * 1 + 1 < shortProgram.length := by decide
  have hpc : shortLoaded.pc.toNat % 4096 = (0x200 + 2 * 0) % 4096 := rfl
  have hpast : pastInstruction.pc.toNat % 4096 = (0x200 + 2 * 1) % 4096 := rfl
  have hgoes : shortLoaded.cycle.1 = .ok () := by decide +kernel
  have hfails : pastInstruction.cycle.1 = .error (.decode 0x1202 0xFFFF) := by decide +kernel
  have hfetch : pastInstruction.fetch = 0xFFFF := by decide +kernel
  have hlabel : Hex.upper 4 (0x200 + 2 * 0) ++ ": " ++ Hex.upper 4 shortLoaded.fetch.toNat ++
      "  " = "0200: 00E0  " := by decide +kernel
  have hlabel' : Hex.upper 4 (0x200 + 2 * 1) ++ ": " ++ Hex.upper 4 (0xFFFF : UInt16).toNat ++
      "  " = "0202: FFFF  " := by decide +kernel
  have hlead : "TRACE [PC:" ++ Hex.literal 4 (0x200 : UInt16).toNat ++ "] " =
      "TRACE [PC:0x0200] " := by decide +kernel
  obtain ⟨meaning, hline, hmark, htraced⟩ := listed_as_executed rfl hm hfirst hpc
  obtain ⟨meaning', hline', hmark', -⟩ :=
    listed_as_executed (m := pastInstruction) rfl hm hsecond hpast
  have hne : meaning ≠ "???" := fun h => by
    obtain ⟨pc, hpc⟩ := hmark.mp h
    rw [hgoes] at hpc
    cases hpc
  obtain ⟨i, rest, hnotices, htext⟩ := htraced hne
  rw [hlabel] at hline
  rw [hfetch, hlabel'] at hline'
  rw [hfetch] at hmark'
  exact ⟨⟨rfl, hm, hfirst, hpc, meaning, hline, hne, i, rest, hnotices, hlead ▸ htext⟩,
    rfl, hm, hsecond, hpast, meaning', hline', hmark'.mpr ⟨_, hfails⟩, hfails⟩

end Machine

end Chip8
