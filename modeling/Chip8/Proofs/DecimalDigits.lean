import Chip8.Proofs.BlockMoves
import Chip8.Proofs.Glyphs
/-!
# From a byte to its decimal digits on the screen

Three instructions show a byte in decimal: one stores its digits in three
cells, one loads the cells into the first three registers, and one points at
the glyph of a register. The cells are all different wherever the index
register points (`past_inj`), so each digit arrives in its own register, and
a digit below ten is the one whose glyph it finds (`exists_atGlyph`).
-/

namespace Chip8

/-- Cells that are fewer steps apart than memory is long are different. -/
theorem Address.past_inj {start : UInt16} {j k : Nat} (hj : j < 4096) (hk : k < 4096)
    (h : past start j = past start k) : j = k := by
  rw [Fin.ext_iff, val_past, val_past] at h
  omega

namespace Machine

variable {m n : Machine} {x : Digit}

/-! ## The digits of a byte -/

/-- **Three digits that make up a byte**, none of them above nine. -/
structure MakeUp (hundreds tens ones b : UInt8) : Prop where
  hundreds_le : hundreds.toNat ≤ 9
  tens_le : tens.toNat ≤ 9
  ones_le : ones.toNat ≤ 9
  sum : 100 * hundreds.toNat + 10 * tens.toNat + ones.toNat = b.toNat

theorem makeUp_divisions (b : UInt8) : MakeUp (b / 100) (b / 10 % 10) (b % 10) b := by
  have hb := b.toNat_lt
  have hhundreds : (b / 100).toNat = b.toNat / 100 := UInt8.toNat_div b 100
  have htens : (b / 10 % 10).toNat = b.toNat / 10 % 10 := by
    rw [UInt8.toNat_mod, UInt8.toNat_div]
    rfl
  have hones : (b % 10).toNat = b.toNat % 10 := UInt8.toNat_mod b 10
  constructor <;> omega

/-- **A machine whose decimal digits of a register have been stored**: they
are in three cells, and nothing else has changed but the program counter,
which is at the next word. -/
structure DigitsStored (m : Machine) (x : Digit) (n : Machine) : Prop where
  rest : n = { m with memory := n.memory }.next
  digits : MakeUp (n.memory.cells.get (Address.past m.index 0))
    (n.memory.cells.get (Address.past m.index 1)) (n.memory.cells.get (Address.past m.index 2))
    (m.v x)
  others : ∀ cell, (∀ k < 3, cell ≠ Address.past m.index k) →
    n.memory.cells.get cell = m.memory.cells.get cell

/-- **Storing the digits** goes through wherever the index register
points. -/
theorem exists_digitsStored (m : Machine) (x : Digit) :
    ∃ n, m.Executes (.storeDecimal x) n ∧ m.DigitsStored x n := by
  let digits := decimalDigits (m.v x)
  have hlength : digits.length = 3 := rfl
  have hfits : digits.length ≤ 4096 := by omega
  refine ⟨{ m with memory := m.memory.writeBlock m.index digits }.next,
    executes_of_execute rfl, ?_⟩
  constructor
  case rest => rfl
  case digits =>
    have hhundreds : (m.memory.writeBlock m.index digits).cells.get (Address.past m.index 0) =
        m.v x / 100 := m.memory.get_writeBlock_past hfits 0 (by omega)
    have htens : (m.memory.writeBlock m.index digits).cells.get (Address.past m.index 1) =
        m.v x / 10 % 10 := m.memory.get_writeBlock_past hfits 1 (by omega)
    have hones : (m.memory.writeBlock m.index digits).cells.get (Address.past m.index 2) =
        m.v x % 10 := m.memory.get_writeBlock_past hfits 2 (by omega)
    have hmake := makeUp_divisions (m.v x)
    rw [← hhundreds, ← htens, ← hones] at hmake
    exact hmake
  case others =>
    intro cell hcell
    exact m.memory.get_writeBlock_of_ne_past hcell

/-- Digits that are stored outside the font leave it alone. -/
theorem DigitsStored.fontIntact (h : m.DigitsStored x n) (hm : m.FontIntact)
    (hspared : ∀ k < 3, ¬Font.Holds (Address.past m.index k)) : n.FontIntact := by
  intro cell hcell
  rw [h.others cell fun k hk e => hspared k hk (e ▸ hcell)]
  exact hm cell hcell

/-! ## The glyph of a digit -/

/-- **The index register is at the glyph of a digit**: the five bytes from
there on are its rows. -/
structure AtGlyph (m : Machine) (d : Digit) : Prop where
  index : m.index.toNat = 0x050 + 5 * d.val
  rows : m.memory.readBlock m.index 5 = Font.glyph d

/-- With the font in memory, the instruction finds the glyph of the digit
that a register holds. -/
theorem exists_atGlyph (h : m.FontIntact) (x : Digit) {d : Digit} (hd : (m.v x).toNat = d.val) :
    ∃ n, m.Executes (.pointGlyph x) n ∧ n.AtGlyph d := by
  have hdigit : Digit.ofByte (m.v x) = d := by
    apply Fin.ext
    rw [Digit.val_ofByte, hd]
    exact Nat.mod_eq_of_lt d.isLt
  have hindex : (Font.glyphAddress (m.v x)).toNat = 0x050 + 5 * d.val := by
    rw [Font.toNat_glyphAddress, hdigit, Font.height]
  refine ⟨(m.setIndex (Font.glyphAddress (m.v x))).next, executes_of_execute rfl, hindex, ?_⟩
  rw [memory_next_setIndex, index_next_setIndex]
  refine List.ext_getElem ((Memory.length_readBlock ..).trans (Font.length_glyph d).symm) ?_
  intro row hrow hrow'
  rw [Memory.length_readBlock] at hrow
  have hcell : (Address.past (Font.glyphAddress (m.v x)) row).val = 0x050 + 5 * d.val + row := by
    have hlt := d.isLt
    rw [Address.val_past, hindex]
    omega
  obtain ⟨hholds, hbyte⟩ := Font.rowAt_glyph d hrow hcell
  rw [Memory.getElem_readBlock, Memory.read, Address.ofWord_add_ofNat, h _ hholds, hbyte]
  exact List.getD_eq_getElem _ _ hrow'

/-! ## From the byte to the glyphs -/

/-- A reachable machine has the font in memory if no instruction since the
latest reset has written there. -/
theorem fontIntact_of_sparesFont {seed : UInt64} {profile : Profile} {actions : List Action}
    (h : (powerOn seed profile).SparesFont (sinceReset actions)) :
    ((powerOn seed profile).run actions).FontIntact := by
  rw [← run_sinceReset]
  exact (fontIntact_powerOn seed profile).run h

/-- Loading three registers takes the digits out of their cells. -/
theorem exists_makeUp_loaded (h : m.DigitsStored x n) {l : Machine} (hindex : l.index = m.index)
    (hcells : ∀ k < 3, l.memory.cells.get (Address.past m.index k) =
      n.memory.cells.get (Address.past m.index k)) :
    ∃ k, l.Executes (.loadBlock 0x2) k ∧ k.memory = l.memory ∧
      MakeUp (k.v 0x0) (k.v 0x1) (k.v 0x2) (m.v x) := by
  obtain ⟨k, hexecute, hloaded⟩ := l.exists_loaded 0x2
  have hv (r : Digit) (hr : r ≤ 0x2) :
      k.v r = n.memory.cells.get (Address.past m.index r.val) := by
    rw [hloaded.v r hr, hindex]
    exact hcells r.val (Nat.lt_succ_of_le hr)
  refine ⟨k, executes_of_execute hexecute, hloaded.memory, ?_⟩
  rw [hv 0x0 (by decide), hv 0x1 (by decide), hv 0x2 (by decide)]
  exact h.digits

/-- A digit that a register was loaded with is below ten. -/
theorem MakeUp.le_nine {k : Machine} {b : UInt8} (h : MakeUp (k.v 0x0) (k.v 0x1) (k.v 0x2) b)
    {r : Digit} (hr : r ≤ 0x2) : (k.v r).toNat ≤ 9 := by
  have hcases : r = 0x0 ∨ r = 0x1 ∨ r = 0x2 := by
    revert r
    decide
  rcases hcases with rfl | rfl | rfl
  · exact h.hundreds_le
  · exact h.tens_le
  · exact h.ones_le

/-- **A byte reaches the screen as its decimal digits.** Whatever the state
and wherever the index register points, the digits of a register go into
three different cells, which may go on at the start of memory, and no other
cell and not the index register changes. If three registers are loaded with
the index register and those cells as they were left, they hold three digits
of at most nine that make up the byte, also if the register itself is one of
them. And if the font is in memory, which it is as long as no instruction
since the latest reset has written there, and these cells are none of its
own, then from any machine that still has it and one of the digits in its
register, the index register is put at the five rows of that digit's
glyph. -/
theorem decimal_digits_exact (m : Machine) (x : Digit) :
    (∀ j < 3, ∀ k < 3, Address.past m.index j = Address.past m.index k → j = k) ∧
    (∀ seed profile actions, m = (powerOn seed profile).run actions →
      (powerOn seed profile).SparesFont (sinceReset actions) → m.FontIntact) ∧
    ∃ n, m.Executes (.storeDecimal x) n ∧ m.DigitsStored x n ∧ n.index = m.index ∧
      (m.FontIntact → (∀ k < 3, ¬Font.Holds (Address.past m.index k)) → n.FontIntact) ∧
      ∀ l : Machine, l.index = m.index →
        (∀ k < 3, l.memory.cells.get (Address.past m.index k) =
          n.memory.cells.get (Address.past m.index k)) →
        ∃ k, l.Executes (.loadBlock 0x2) k ∧ k.memory = l.memory ∧
          MakeUp (k.v 0x0) (k.v 0x1) (k.v 0x2) (m.v x) ∧
          ∀ r ≤ 0x2, ∀ e : Machine, e.FontIntact → e.v r = k.v r →
            ∃ (d : Digit) (g : Machine), d.val = (k.v r).toNat ∧
              e.Executes (.pointGlyph r) g ∧ g.AtGlyph d := by
  refine ⟨fun j hj k hk h => Address.past_inj (by omega) (by omega) h, ?_, ?_⟩
  · rintro seed profile actions rfl h
    exact fontIntact_of_sparesFont h
  · obtain ⟨n, hexecutes, hstored⟩ := m.exists_digitsStored x
    have hindex : n.index = m.index := by
      rw [hstored.rest]
      rfl
    refine ⟨n, hexecutes, hstored, hindex, hstored.fontIntact, fun l hl hcells => ?_⟩
    obtain ⟨k, hload, hmemory, hmake⟩ := exists_makeUp_loaded hstored hl hcells
    refine ⟨k, hload, hmemory, hmake, fun r hr e hfont he => ?_⟩
    have hnine := hmake.le_nine hr
    let d : Digit := ⟨(k.v r).toNat, by omega⟩
    obtain ⟨g, hpoint, hglyph⟩ := exists_atGlyph hfont r (d := d) (by rw [he])
    exact ⟨d, g, rfl, hpoint, hglyph⟩

/-- A machine with its index register at the last words, so that three cells
begin before the end of memory and end after it, and two hundred and
fifty-four in the second register. -/
def counterAtTheEnd : Machine :=
  { powerOn 0 Profile.vip with
    registers := {
      v := #v[0, 254, 0, 0, 0, 0, 0, 0, 0, 0, 0, 0, 0, 0, 0, 0]
      index := 0xFFFE
      pc := 0x0200
      delay := 0
      sound := 0 } }

/-- The second register holds the byte and then one of its digits, a five,
whose glyph is found last. -/
theorem decimal_digits_exact_counterAtTheEnd :
    ∃ n k g : Machine, counterAtTheEnd.execute (.storeDecimal 0x1) = .ok n ∧
      n.execute (.loadBlock 0x2) = .ok k ∧ (k.v 0x0).toNat = 2 ∧ (k.v 0x1).toNat = 5 ∧
      (k.v 0x2).toNat = 4 ∧ k.execute (.pointGlyph 0x1) = .ok g ∧ g.index.toNat = 0x069 := by
  have hspared : ∀ k < 3, ¬Font.Holds (Address.past counterAtTheEnd.index k) := by decide
  have hfont : counterAtTheEnd.FontIntact := fontIntact_powerOn 0 Profile.vip
  have hbyte : (counterAtTheEnd.v 0x1).toNat = 254 := by decide
  obtain ⟨-, -, n, hstore, -, hindex, hkept, hload⟩ := decimal_digits_exact counterAtTheEnd 0x1
  obtain ⟨k, hk, hmemory, hmake, hglyph⟩ := hload n hindex fun _ _ => rfl
  have hstill : k.FontIntact := by
    rw [FontIntact, hmemory]
    exact hkept hfont hspared
  obtain ⟨hhundreds, htens, hones, hsum⟩ := hmake
  rw [hbyte] at hsum
  obtain ⟨d, g, hd, hg, hat⟩ := hglyph 0x1 (by decide) k hstill rfl
  have hplace := hat.index
  exact ⟨n, k, g, hstore.1, hk.1, by omega, by omega, by omega, hg.1, by omega⟩

end Machine

end Chip8
