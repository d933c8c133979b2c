import Chip8.Proofs.Footprint
import Chip8.Proofs.Schedule
/-!
# Random bytes and the draws so far

The numbers of a seed are told in plain arithmetic (`Pcg`), apart from the
words in which the generator computes. The generator moves when a random
instruction is executed, and a reset seeds it again; nothing else touches
it. So its state is told by the seed and the number of draws since the last
seeding (`Machine.HasDrawn`), which every action keeps right
(`HasDrawn.act`). The byte of a draw is therefore a function of the seed and
of the draws before it, along every history of a console
(`random_bytes_of_seed`).
-/

namespace Chip8

/-! ## The numbers of a seed -/

namespace Pcg

/-- The state after one movement. -/
def next (state : Nat) : Nat :=
  (state * 6364136223846793005 + (2 * 1442695040888963407 + 1)) % 18446744073709551616

/-- The state that a number of outputs of a seed leave. Before the first of
them the state was moved from zero, raised by the seed, and moved again. -/
def state (seed : Nat) : Nat → Nat
  | 0 => next (next 0 + seed)
  | k + 1 => next (state seed k)

/-- A number of 32 bits rotated to the right. -/
def rotated (w count : Nat) : Nat :=
  w >>> count + w <<< (32 - count) % 4294967296

/-- The output that a state stands for. -/
def output (state : Nat) : Nat :=
  rotated ((state >>> 18 ^^^ state) >>> 27 % 4294967296) (state >>> 59)

/-- The top byte of the output of a seed that comes after a number of
others. -/
def topByte (seed k : Nat) : Nat :=
  output (state seed k) / 16777216

theorem next_mod (state : Nat) : next (state % 18446744073709551616) = next state := by
  unfold next
  omega

end Pcg

namespace Random

/-! The words of the generator hold these numbers. -/

theorem toNat_advance (r : Random) : r.advance.state.toNat = Pcg.next r.state.toNat := by
  have hincrement : increment.toNat = 2 * 1442695040888963407 + 1 := by decide
  have hmultiplier : multiplier.toNat = 6364136223846793005 := by decide
  rw [advance, UInt64.toNat_add, UInt64.toNat_mul, hincrement, hmultiplier, Pcg.next]
  omega

theorem toNat_ofSeed (seed : UInt64) : (ofSeed seed).state.toNat = Pcg.state seed.toNat 0 := by
  have hzero : (advance ⟨0⟩).state.toNat = Pcg.next 0 := toNat_advance ⟨0⟩
  rw [ofSeed, toNat_advance, UInt64.toNat_add, hzero, Pcg.state]
  exact Pcg.next_mod _

/-- The two parts of a rotated word have no bit in common, so they may be
added. -/
theorem toNat_rotateRight {w count : UInt32} (h : count.toNat < 32) :
    (rotateRight w count).toNat = Pcg.rotated w.toNat count.toNat := by
  have hw : w.toNat < 2 ^ 32 := w.toNat_lt
  have hback : (32 - count).toNat = 32 - count.toNat := by
    rw [UInt32.toNat_sub_of_le]
    · rfl
    · rw [UInt32.le_iff_toNat_le]
      exact Nat.le_of_lt h
  rw [rotateRight, UInt32.toNat_or, UInt32.toNat_shiftRight, UInt32.toNat_shiftLeft, hback,
    Nat.mod_eq_of_lt h, Pcg.rotated]
  rcases Nat.eq_zero_or_pos count.toNat with hzero | hpos
  · -- a shift by 32 is one by zero in words, and leaves nothing in numbers
    rw [hzero]
    simp [Nat.shiftLeft_eq]
  · rw [Nat.mod_eq_of_lt (show 32 - count.toNat < 32 by omega)]
    have hsplit : 2 ^ 32 = 2 ^ count.toNat * 2 ^ (32 - count.toNat) := by
      rw [← Nat.pow_add]
      congr 1
      omega
    have hlow : w.toNat >>> count.toNat < 2 ^ (32 - count.toNat) := by
      rw [Nat.shiftRight_eq_div_pow]
      apply Nat.div_lt_of_lt_mul
      rwa [← hsplit]
    have hhigh : w.toNat <<< (32 - count.toNat) % 2 ^ 32 =
        (w.toNat % 2 ^ count.toNat) <<< (32 - count.toNat) := by
      rw [Nat.shiftLeft_eq, Nat.shiftLeft_eq, hsplit, Nat.mul_mod_mul_right]
    show _ ||| w.toNat <<< (32 - count.toNat) % 2 ^ 32 =
      _ + w.toNat <<< (32 - count.toNat) % 2 ^ 32
    rw [hhigh, Nat.or_comm, Nat.add_comm, Nat.shiftLeft_add_eq_or_of_lt hlow]

theorem toNat_output (r : Random) : r.output.toNat = Pcg.output r.state.toNat := by
  have hlt : r.state.toNat < 18446744073709551616 := r.state.toNat_lt
  have hcount : (r.state >>> 59).toUInt32.toNat = r.state.toNat >>> 59 := by
    simp [Nat.shiftRight_eq_div_pow]
    omega
  have hw : ((r.state >>> 18 ^^^ r.state) >>> 27).toUInt32.toNat =
      (r.state.toNat >>> 18 ^^^ r.state.toNat) >>> 27 % 4294967296 := by
    simp
  have hsmall : (r.state >>> 59).toUInt32.toNat < 32 := by
    rw [hcount, Nat.shiftRight_eq_div_pow]
    omega
  rw [output, toNat_rotateRight hsmall, hcount, hw, Pcg.output]

end Random

/-- Whether an instruction draws a random byte. -/
def Instruction.isRandom : Instruction → Bool
  | .random _ _ => true
  | _ => false

namespace Machine

variable {m n : Machine} {k : Nat} {a : Action} {i : Instruction} {before actions : List Action}

/-! ## Counting draws -/

/-- The number of draws since the last seeding, after an action: a reset
seeds again, and an executed random instruction draws once. -/
def drawsAfter (m : Machine) (draws : Nat) (a : Action) : Nat :=
  if a = .reset then 0 else draws + (m.executed? a).toList.countP Instruction.isRandom

/-- The number of draws since the last seeding, after a list of actions. -/
def draws (m : Machine) (sofar : Nat) : List Action → Nat
  | [] => sofar
  | a :: actions => (m.act a).draws (m.drawsAfter sofar a) actions

/-- Without a reset the draws are the random instructions that were
executed. -/
theorem draws_of_reset_not_mem (hr : Action.reset ∉ actions) (m : Machine) (sofar : Nat) :
    m.draws sofar actions = sofar + (m.executed actions).countP Instruction.isRandom := by
  induction actions generalizing m sofar with
  | nil => rfl
  | cons a actions ih =>
    rw [List.mem_cons, not_or] at hr
    rw [draws, ih hr.2, drawsAfter, if_neg fun e => hr.1 e.symm, executed_cons,
      List.countP_append, Nat.add_assoc]

/-- What was drawn before a reset does not count. -/
theorem draws_append_reset (m : Machine) (sofar : Nat) (before actions : List Action) :
    m.draws sofar (before ++ .reset :: actions) =
      ((m.run before).act .reset).draws 0 actions := by
  induction before generalizing m sofar with
  | nil => rw [List.nil_append, run_nil, draws, drawsAfter, if_pos rfl]
  | cons a before ih => exact ih (m.act a) (m.drawsAfter sofar a)

/-! ## What moves the generator -/

/-- **The generator stands where its draws have taken it**: it has moved once
for each since it was seeded. -/
def HasDrawn (m : Machine) (draws : Nat) : Prop :=
  m.random.state.toNat = Pcg.state m.seed.toNat draws

theorem hasDrawn_powerOn (seed : UInt64) (profile : Profile) :
    (powerOn seed profile).HasDrawn 0 :=
  Random.toNat_ofSeed seed

/-- A draw takes one output and is its top byte under the mask. -/
theorem drawRandom_eq (m : Machine) (x : Digit) (mask : UInt8) :
    m.drawRandom x mask =
      { m with random := m.random.advance }.setV x ((m.random.output >>> 24).toUInt8 &&& mask) := by
  unfold drawRandom
  rw [Random.inRange_byte]

/-- A random instruction moves the generator once. -/
theorem random_act_of_random {x : Digit} {mask : UInt8}
    (hx : m.executed? a = some (.random x mask)) :
    (m.act a).random = m.random.advance ∧
      (m.act a).v x = (m.random.output >>> 24).toUInt8 &&& mask := by
  obtain ⟨-, -, -, he⟩ := executed?_eq_some_iff.1 hx
  rw [execute, drawRandom_eq] at he
  rw [← Except.ok.inj he]
  exact ⟨rfl, (Buffer.get_put ..).trans (if_pos rfl)⟩

/-- No other instruction moves it. -/
theorem random_act_of_not_isRandom (hx : m.executed? a = some i) (hi : i.isRandom = false) :
    (m.act a).random = m.random := by
  obtain ⟨-, -, -, he⟩ := executed?_eq_some_iff.1 hx
  rcases (framed_of_execute he).random with h | ⟨x, mask, rfl⟩
  · exact h
  · cases hi

/-- **Every action keeps the count of the draws right.** -/
theorem HasDrawn.act (h : m.HasDrawn k) (a : Action) :
    (m.act a).HasDrawn (m.drawsAfter k a) := by
  by_cases ha : a = .reset
  · rw [drawsAfter, if_pos ha, ha, act_reset]
    exact hasDrawn_powerOn m.seed m.profile
  · rw [drawsAfter, if_neg ha, HasDrawn, (m.seed_profile_act a).1]
    cases hx : m.executed? a with
    | none =>
      rw [(sameCourse_act ha hx).random]
      exact h
    | some i =>
      rw [Option.toList_some, List.countP_singleton]
      cases hi : i.isRandom with
      | false =>
        rw [random_act_of_not_isRandom hx hi]
        exact h
      | true =>
        cases i with
        | random x mask =>
          rw [(random_act_of_random hx).1, Random.toNat_advance, h]
          rfl
        | _ => cases hi

/-- And so does every history. -/
theorem HasDrawn.run (h : m.HasDrawn k) (actions : List Action) :
    (m.run actions).HasDrawn (m.draws k actions) := by
  induction actions generalizing m k with
  | nil => exact h
  | cons a actions ih => exact ih (h.act a)

/-- The byte of a draw is told by the seed and the draws before it. -/
theorem HasDrawn.v_act_of_random (h : m.HasDrawn k) {x : Digit} {mask : UInt8}
    (hx : m.executed? a = some (.random x mask)) :
    ((m.act a).v x).toNat = Pcg.topByte m.seed.toNat k &&& mask.toNat := by
  have hlt : m.random.output.toNat < 4294967296 := m.random.output.toNat_lt
  have hbyte : (m.random.output >>> 24).toUInt8.toNat = m.random.output.toNat / 16777216 := by
    simp [Nat.shiftRight_eq_div_pow]
    omega
  rw [(random_act_of_random hx).2, UInt8.toNat_and, hbyte, Random.toNat_output, h, Pcg.topByte]

end Machine

namespace Console

/-- **The random bytes are told by the seed and the number of draws.** Switch
a machine on with any seed and profile, under any clock, and give it any
commands. After them its generator stands where the seeded one stands after
as many movements as random instructions were executed since the last
seeding, by the switch or by a reset. Wherever among the actions that the
commands come down to such an instruction is executed, the byte it puts into
its register is, but for its mask, the top byte of the output that the seed
gives after as many outputs as there were draws before it. And the draws are
those of the instructions executed since the last reset. -/
theorem random_bytes_of_seed (s : Console) (seed : UInt64) (profile : Profile)
    (hs : s.machine = Machine.powerOn seed profile) (commands : List Command) :
    (s.run commands).machine.random.state.toNat =
        Pcg.state seed.toNat (s.machine.draws 0 (s.runActions commands)) ∧
      (∀ before x mask, before ++ [.cycle] <+: s.runActions commands →
        (s.machine.run before).executed? .cycle = some (.random x mask) →
        ((s.machine.run (before ++ [.cycle])).v x).toNat =
          Pcg.topByte seed.toNat (s.machine.draws 0 before) &&& mask.toNat) ∧
      ∀ actions, Machine.Action.reset ∉ actions →
        s.machine.draws 0 actions =
            (s.machine.executed actions).countP Instruction.isRandom ∧
          ∀ earlier, s.machine.draws 0 (earlier ++ .reset :: actions) =
            (((s.machine.run earlier).act .reset).executed actions).countP
              Instruction.isRandom := by
  have hdrawn (actions : List Machine.Action) :
      (s.machine.run actions).HasDrawn (s.machine.draws 0 actions) :=
    (hs ▸ Machine.hasDrawn_powerOn seed profile).run actions
  have hseed (actions : List Machine.Action) : (s.machine.run actions).seed = seed := by
    rw [(s.machine.seed_profile_run actions).1, hs]
    rfl
  refine ⟨?_, ?_, ?_⟩
  · have hall := hdrawn (s.runActions commands)
    rw [Machine.HasDrawn, hseed] at hall
    rw [machine_run]
    exact hall
  · intro before x mask _ hx
    rw [Machine.run_append, Machine.run_cons, Machine.run_nil, ← hseed before]
    exact (hdrawn before).v_act_of_random hx
  · intro actions hr
    refine ⟨?_, fun earlier => ?_⟩
    · rw [Machine.draws_of_reset_not_mem hr, Nat.zero_add]
    · rw [Machine.draws_append_reset, Machine.draws_of_reset_not_mem hr, Nat.zero_add]

/-- A program that draws two bytes, the second of them under a mask, and then
comes to a word that is no instruction. -/
def drawer : List UInt8 :=
  [0xC0, 0xFF, 0x71, 0x01, 0xC2, 0x0F, 0x00, 0x00]

/-- After a reset the program draws the bytes of the seed again from the
first on, whatever it drew before, and its second draw is the second of
them. -/
theorem random_bytes_of_seed_drawer :
    let s : Console := ⟨Machine.powerOn 42 Profile.vip, Clock.withRates 500 250⟩
    let commands := [Command.machine (.load drawer), .runSteps 5, .machine .cycle,
      .machine .reset, .machine (.load drawer), .tick, .machine (.press 0x3),
      .runFor (Elapsed.ofParts 0 4000000)]
    let before := (s.runActions commands).take 13
    let actions := [Machine.Action.load drawer, .cycle]
    (s.machine = Machine.powerOn 42 Profile.vip ∧
      before ++ [.cycle] <+: s.runActions commands ∧
      (s.machine.run before).executed? .cycle = some (.random 0x2 0x0F)) ∧
    s.machine.draws 0 before = 1 ∧
    ((s.machine.run (before ++ [.cycle])).v 0x2).toNat = Pcg.topByte 42 1 &&& 0x0F ∧
    (s.run commands).machine.random.state.toNat = Pcg.state 42 2 ∧
    Machine.Action.reset ∉ actions ∧
    s.machine.draws 0 actions = (s.machine.executed actions).countP Instruction.isRandom := by
  intro s commands before actions
  have hs : s.machine = Machine.powerOn 42 Profile.vip := rfl
  obtain ⟨hpart, hx, hbefore, hall⟩ :
      before ++ [.cycle] <+: s.runActions commands ∧
        (s.machine.run before).executed? .cycle = some (.random 0x2 0x0F) ∧
        s.machine.draws 0 before = 1 ∧ s.machine.draws 0 (s.runActions commands) = 2 := by
    decide +kernel
  have hr : Machine.Action.reset ∉ actions := by simp [actions]
  obtain ⟨hrandom, hbytes, hcounts⟩ := random_bytes_of_seed s 42 Profile.vip hs commands
  have hbyte := hbytes before 0x2 0x0F hpart hx
  rw [hbefore] at hbyte
  rw [hall] at hrandom
  exact ⟨⟨hs, hpart, hx⟩, hbefore, hbyte, hrandom, hr, (hcounts actions hr).1⟩

end Console

end Chip8
