import Mathlib.Order.Bounds.Defs
import Chip8.Proofs.Invariant

/-!
When a tick is refused, with which fault, and what it leaves: a fetch outside memory leaves
no trace, a word that is no instruction is still passed, and an instruction that cannot be
executed is passed and counted, and that is all.
-/

namespace Chip8

/-- The instruction of a word needs a number of bytes, not zero, at the index register. -/
inductive NeedsBlock (word : UInt16) : Nat → Prop
  | sprite (named : word.toNat / 4096 = 0xd) (shown : 0 < word.toNat % 16) :
      NeedsBlock word (word.toNat % 16)
  | decimal (named : word.toNat / 4096 = 0xf ∧ word.toNat % 256 = 0x33) : NeedsBlock word 3
  | store (named : word.toNat / 4096 = 0xf ∧ word.toNat % 256 = 0x55) :
      NeedsBlock word (word.toNat / 256 % 16 + 1)
  | load (named : word.toNat / 4096 = 0xf ∧ word.toNat % 256 = 0x65) :
      NeedsBlock word (word.toNat / 256 % 16 + 1)

namespace Instruction

variable {word : UInt16} {instruction : Instruction}

private theorem ofWord?_eq_decimal_iff {x : UInt64} :
    ofWord? word = some (.register .decimal x) ↔
      word.toNat / 4096 = 0xf ∧ word.toNat % 256 = 0x33 ∧ x.toNat = word.toNat / 256 % 16 :=
  ofWord?_eq_register_iff 0xf 0x3 0x3 (by decide) (by decide) rfl

private theorem ofWord?_eq_store_iff {x : UInt64} :
    ofWord? word = some (.register .store x) ↔
      word.toNat / 4096 = 0xf ∧ word.toNat % 256 = 0x55 ∧ x.toNat = word.toNat / 256 % 16 :=
  ofWord?_eq_register_iff 0xf 0x5 0x5 (by decide) (by decide) rfl

private theorem ofWord?_eq_load_iff {x : UInt64} :
    ofWord? word = some (.register .load x) ↔
      word.toNat / 4096 = 0xf ∧ word.toNat % 256 = 0x65 ∧ x.toNat = word.toNat / 256 % 16 :=
  ofWord?_eq_register_iff 0xf 0x6 0x5 (by decide) (by decide) rfl

private theorem needsBlock_of_decoded (decoded : ofWord? word = some instruction)
    (filled : instruction.blockLength ≠ 0) : NeedsBlock word instruction.blockLength := by
  cases instruction with
  | sprite x y rows =>
      obtain ⟨named, -, -, rowsAt⟩ := ofWord?_eq_sprite_iff.mp decoded
      have shown : 0 < word.toNat % 16 := rowsAt ▸ Nat.pos_of_ne_zero filled
      rw [blockLength, rowsAt]
      exact .sprite named shown
  | register op x =>
      cases op with
      | decimal =>
          obtain ⟨named, low, -⟩ := ofWord?_eq_decimal_iff.mp decoded
          exact .decimal ⟨named, low⟩
      | store =>
          obtain ⟨named, low, place⟩ := ofWord?_eq_store_iff.mp decoded
          rw [blockLength, place]
          exact .store ⟨named, low⟩
      | load =>
          obtain ⟨named, low, place⟩ := ofWord?_eq_load_iff.mp decoded
          rw [blockLength, place]
          exact .load ⟨named, low⟩
      | _ => exact absurd rfl filled
  | _ => exact absurd rfl filled

private theorem decoded_of_needsBlock {length : Nat} (needs : NeedsBlock word length) :
    ∃ instruction, ofWord? word = some instruction ∧ instruction.blockLength = length ∧
      length ≠ 0 := by
  have x := toNat_registerNumber (Nat.mod_lt (word.toNat / 256) (Nat.succ_pos 15))
  cases needs with
  | sprite named shown =>
      obtain ⟨left, top, rows, decoded⟩ := exists_sprite_of_named named
      obtain ⟨-, -, -, rowsAt⟩ := ofWord?_eq_sprite_iff.mp decoded
      exact ⟨_, decoded, rowsAt, Nat.ne_of_gt shown⟩
  | decimal named =>
      exact ⟨_, ofWord?_eq_decimal_iff.mpr ⟨named.1, named.2, x⟩, rfl, by decide⟩
  | store named =>
      exact ⟨_, ofWord?_eq_store_iff.mpr ⟨named.1, named.2, x⟩, congrArg (· + 1) x,
        Nat.succ_ne_zero _⟩
  | load named =>
      exact ⟨_, ofWord?_eq_load_iff.mpr ⟨named.1, named.2, x⟩, congrArg (· + 1) x,
        Nat.succ_ne_zero _⟩

end Instruction

namespace Machine

/-- A refused tick: why it is refused, its fault, and the machine that is left. -/
inductive Refusal (machine : Machine) : Fault → Machine → Prop
  | astray (outside : 0xffe < machine.pc.toNat) :
      Refusal machine (.outOfBounds machine.pc.toNat machine.pc) machine
  | unknown (word : UInt16) (fetched : machine.Fetches word)
      (unmatched : ∀ opcode : Opcode, ¬ opcode.matchesWord word) :
      Refusal machine (.unknownOpcode word machine.pc)
        { machine with
          pc := machine.pc + 2
          drawn := false
          fetched := { address := machine.pc, word := word } }
  | underflow (word : UInt16) (fetched : machine.Fetches word) (named : word.toNat = 0x00ee)
      (empty : machine.stack = []) :
      Refusal machine (.stackUnderflow word machine.pc)
        { machine with
          pc := machine.pc + 2
          drawn := false
          fetched := { address := machine.pc, word := word }
          cycle := machine.cycle + 1 }
  | overflow (word : UInt16) (fetched : machine.Fetches word)
      (named : word.toNat / 4096 = 0x2) (full : machine.stack.length = 16) :
      Refusal machine (.stackOverflow word machine.pc)
        { machine with
          pc := machine.pc + 2
          drawn := false
          fetched := { address := machine.pc, word := word }
          cycle := machine.cycle + 1 }
  | reach (word : UInt16) (length address : Nat) (fetched : machine.Fetches word)
      (needs : NeedsBlock word length) (beyond : 0x1000 < machine.index.toNat + length)
      (first : IsLeast { other | machine.index.toNat ≤ other ∧ 0x1000 ≤ other } address) :
      Refusal machine (.outOfBounds address machine.pc)
        { machine with
          pc := machine.pc + 2
          drawn := false
          fetched := { address := machine.pc, word := word }
          cycle := machine.cycle + 1 }

theorem isLeast_outOfReach (machine : Machine) :
    IsLeast { other | machine.index.toNat ≤ other ∧ 0x1000 ≤ other }
      (max machine.index.toNat Memory.size) := by
  constructor
  · exact ⟨Nat.le_max_left _ _, Nat.le_max_right _ _⟩
  · rintro other ⟨behind, outside⟩
    exact Nat.max_le.mpr ⟨behind, outside⟩

variable {machine : Machine} {dice : Dice} {fault : Fault} {after : Machine}

private theorem refusal_of_obstacle (sound : machine.Sound) {word : UInt16}
    {instruction : Instruction} (fetched : machine.Fetches word)
    (decoded : Instruction.ofWord? word = some instruction)
    (obstacle : Obstacle (machine.poised word) instruction fault) :
    Refusal machine fault (machine.poised word) := by
  cases obstacle with
  | underflow empty =>
      exact .underflow word fetched (Instruction.ofWord?_eq_ret_iff.mp decoded) empty
  | overflow target full =>
      exact .overflow word fetched (Instruction.ofWord?_eq_call_iff.mp decoded).1
        (Nat.le_antisymm sound.depth full)
  | reach instruction outside =>
      obtain ⟨filled, beyond⟩ := not_or.mp outside
      exact .reach word instruction.blockLength _ fetched
        (Instruction.needsBlock_of_decoded decoded filled) (Nat.lt_of_not_le beyond)
        (isLeast_outOfReach machine)

private theorem refusal_of_tick (sound : machine.Sound) (busy : machine.isIdle = false)
    (refused : (machine.tick dice).result = .error fault) :
    Refusal machine fault (machine.tick dice).machine := by
  have ticks := ticks_tick machine dice
  generalize machine.tick dice = outcome at ticks refused ⊢
  cases ticks with
  | idle still =>
      rw [busy] at still
      cases still
  | astray outside busy =>
      cases refused
      exact .astray outside
  | unknown word busy fetched undecoded =>
      cases refused
      exact .unknown word fetched (Instruction.ofWord?_eq_none_iff.mp undecoded)
  | refused word instruction fault busy fetched decoded obstructed =>
      cases refused
      exact refusal_of_obstacle sound fetched decoded (execute_eq_error_iff.mp obstructed)
  | executed word instruction after busy fetched decoded ran => cases refused

private theorem tick_of_refusal (busy : machine.isIdle = false)
    (refusal : Refusal machine fault after) :
    (machine.tick dice).result = .error fault ∧ (machine.tick dice).machine = after := by
  cases refusal with
  | astray outside =>
      rw [tick_of_astray busy outside]
      exact ⟨rfl, rfl⟩
  | unknown word fetched unmatched =>
      rw [tick_of_undecoded busy fetched (Instruction.ofWord?_eq_none_iff.mpr unmatched)]
      exact ⟨rfl, rfl⟩
  | underflow word fetched named empty =>
      exact tick_of_obstacle busy fetched (Instruction.ofWord?_eq_ret_iff.mpr named)
        (.underflow empty) dice
  | overflow word fetched named full =>
      obtain ⟨target, decoded⟩ := Instruction.exists_call_of_named named
      exact tick_of_obstacle busy fetched decoded
        (.overflow target (Nat.le_of_eq full.symm)) dice
  | reach word length address fetched needs beyond first =>
      obtain ⟨instruction, decoded, rfl, filled⟩ := Instruction.decoded_of_needsBlock needs
      have least := isLeast_outOfReach machine
      have same : address = max machine.index.toNat Memory.size :=
        Nat.le_antisymm (first.2 least.1) (least.2 first.1)
      have outside : ¬ (machine.poised word).Reaches instruction.blockLength :=
        not_or.mpr ⟨filled, Nat.not_le_of_lt beyond⟩
      rw [same]
      exact tick_of_obstacle busy fetched decoded (.reach instruction outside) dice

/-- A tick of a reachable machine that runs fails exactly in the cases of `Refusal`, with
their faults, and leaves what they say. -/
theorem tick_refused_iff (reachable : machine.Reachable) (running : machine.state = .running)
    (unpaused : machine.settings.paused = false) (dice : Dice) (fault : Fault)
    (after : Machine) :
    ((machine.tick dice).result = .error fault ∧ (machine.tick dice).machine = after) ↔
      Refusal machine fault after := by
  have busy : machine.isIdle = false := by
    simp only [isIdle, isAwaitingKey, running, unpaused, Bool.or_self]
  constructor
  · intro ticked
    rcases ticked with ⟨refused, rfl⟩
    exact refusal_of_tick reachable.sound busy refused
  · intro refusal
    exact tick_of_refusal busy refusal

/-- A machine whose program has moved the index register up to the end of memory and is
about to draw a sprite of three rows from there. -/
def overreaching : Machine :=
  (standard.run { source := fun _ => 0, taken := 0 }
    [.load [0xaf, 0xfe, 0xd0, 0x03], .tick]).machine

theorem overreaching_refused :
    overreaching.Reachable ∧ overreaching.state = .running ∧
      overreaching.settings.paused = false ∧ ∀ dice,
        (overreaching.tick dice).result = .error (.outOfBounds 0x1000 0x202) := by
  have reachable : overreaching.Reachable := (Reachable.fresh .standard).run _ _
  obtain ⟨running, unpaused, fetched, pc, index⟩ : overreaching.state = .running ∧
      overreaching.settings.paused = false ∧ overreaching.Fetches 0xd003 ∧
      overreaching.pc = 0x202 ∧ overreaching.index = 0xffe := by
    decide +kernel
  have first : IsLeast { other | overreaching.index.toNat ≤ other ∧ 0x1000 ≤ other } 0x1000 := by
    rw [index]
    exact ⟨⟨by decide, by decide⟩, fun other outside => outside.2⟩
  refine ⟨reachable, running, unpaused, fun dice => ?_⟩
  rw [← pc]
  exact ((tick_refused_iff reachable running unpaused dice _ _).mpr
    (.reach 0xd003 3 0x1000 fetched (.sprite (by decide) (by decide))
      (by rw [index]; decide) first)).1

end Machine

end Chip8
