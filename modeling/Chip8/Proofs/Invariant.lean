import Chip8.Proofs.Decoding
import Chip8.Proofs.Histories
import Chip8.Proofs.Ticking

/-!
An invariant of reachable machines. The glyphs lie below the program, the stack holds at
most sixteen addresses, and no address on it or in the program counter is far beyond the
end of memory: a return address follows a word that was fetched, and a jump adds at most
one byte to twelve bits. A wait for a key names a register that exists.
-/

namespace Chip8.Machine

structure Sound (machine : Machine) : Prop where
  font : machine.font.toNat + 80 ≤ 0x200
  depth : machine.stack.length ≤ 16
  returns : ∀ address ∈ machine.stack, 2 ≤ address.toNat ∧ address.toNat ≤ 0x1000
  pc : machine.pc.toNat ≤ 0x10fe
  awaited : ∀ register, machine.state = .awaitingKey register → register.toNat < 16

/-! ### Requests of a host -/

theorem load_of_long {machine : Machine} {program : List UInt8} (long : 3584 < program.length) :
    machine.load program =
      { result := .error (.programTooLong program.length), machine := machine } :=
  if_pos long

def loaded (machine : Machine) (program : List UInt8) : Machine :=
  { machine.reset with
    memory := (Memory.zeroed.store machine.font.toNat Glyphs.bytes).store 0x200 program }

theorem load_of_fitting {machine : Machine} {program : List UInt8}
    (below : machine.font.toNat + 80 ≤ 0x200) (fits : program.length ≤ 3584) :
    machine.load program = { result := .ok (), machine := machine.loaded program } := by
  have short : ¬ Region.program.capacity < program.length := Nat.not_lt_of_le fits
  have within : program.length ≤ Region.program.capacity := fits
  have inside : Memory.Inside machine.font.toNat
      (machine.font.toNat + Glyphs.bytes.length) := by
    rw [Glyphs.length_bytes]
    simp only [Memory.Inside, Memory.size]
    omega
  simp only [load, if_neg short, Memory.loadGlyphs?, Memory.write?, if_pos inside,
    Memory.loadRegion?, if_pos within]
  rfl

theorem create_eq_ok_iff {font : UInt16} {disassembler : Disassembler} {settings : Settings}
    {machine : Machine} :
    create font disassembler settings = .ok machine ↔
      font.toNat + 80 ≤ 0x200 ∧ machine = (empty font disassembler settings).loaded [] := by
  have start : Region.program.start = 0x200 := rfl
  by_cases below : font.toNat + 80 ≤ 0x200
  · have room : ¬ Region.program.start < font.toNat + Glyphs.bytes.length := by
      rw [Glyphs.length_bytes, start]
      omega
    have emptyFont : (empty font disassembler settings).font.toNat + 80 ≤ 0x200 := below
    have nothing : ([] : List UInt8).length ≤ 3584 := Nat.zero_le 3584
    simp only [create, if_neg room, load_of_fitting emptyFont nothing, Except.map,
      Except.ok.injEq, below, true_and]
    exact eq_comm
  · have overlap : Region.program.start < font.toNat + Glyphs.bytes.length := by
      rw [Glyphs.length_bytes, start]
      omega
    simp [create, overlap, below]

theorem changeKey_of_missing {machine : Machine} {key : Nat} (missing : 16 ≤ key)
    (pressed : Bool) :
    machine.changeKey key pressed = { result := .error (.noSuchKey key), machine := machine } :=
  if_neg (Nat.not_lt_of_le missing)

def keyed (machine : Machine) (key : Nat) (pressed : Bool) : Machine :=
  { machine with
    keypad := machine.keypad.set key pressed
    registers :=
      match machine.state, pressed with
      | .awaitingKey register, true =>
          machine.registers.write register.toNat (UInt8.ofNat key)
      | _, _ => machine.registers
    state := if pressed then .running else machine.state }

theorem changeKey_of_present {machine : Machine} {key : Nat} (present : key < 16)
    (awaited : ∀ register, machine.state = .awaitingKey register → register.toNat < 16)
    (pressed : Bool) :
    machine.changeKey key pressed =
      { result := .ok (machine.keypad.isHeld key != pressed)
        machine := machine.keyed key pressed } := by
  have counted : key < Keypad.count := present
  rw [changeKey, if_pos counted]
  cases stateAt : machine.state with
  | running => cases pressed <;> simp [keyed, stateAt]
  | awaitingKey register =>
      have existing : register.toNat < Registers.count := awaited register stateAt
      cases pressed <;> simp [keyed, stateAt, setRegister, existing]

theorem awaited_of_awaiting {machine : Machine} {register : UInt64}
    (awaiting : machine.state = .awaitingKey register) (existing : register.toNat < 16) :
    ∀ other, machine.state = .awaitingKey other → other.toNat < 16 := by
  intro other waits
  rw [awaiting] at waits
  cases waits
  exact existing

theorem awaited_of_running {machine : Machine} (running : machine.state = .running) :
    ∀ register, machine.state = .awaitingKey register → register.toNat < 16 := by
  intro register waits
  rw [running] at waits
  cases waits

/-! ### Ticks keep the invariant -/

private theorem Sound.poised {machine : Machine} (sound : machine.Sound) {word : UInt16}
    (fetched : machine.Fetches word) : (machine.poised word).Sound := by
  refine ⟨sound.font, sound.depth, sound.returns, ?_, sound.awaited⟩
  have moved := toNat_pc_poised fetched
  have inside := fetched.1
  omega

section Flow

variable {machine after : Machine} {instruction : Instruction}

private theorem depth_after (sound : machine.Sound) (flow : Flow machine instruction after) :
    after.stack.length ≤ 16 := by
  have depth := sound.depth
  rcases flow.stack_cases with same | ⟨target, named, room, pushed⟩ | ⟨named, popped⟩
  · rw [same]
    exact depth
  · rw [pushed, List.length_cons]
    exact room
  · rw [popped, List.length_cons] at depth
    exact Nat.le_of_succ_le depth

private theorem returns_after (sound : machine.Sound) (flow : Flow machine instruction after)
    (inside : 2 ≤ machine.pc.toNat ∧ machine.pc.toNat ≤ 0x1000) :
    ∀ address ∈ after.stack, 2 ≤ address.toNat ∧ address.toNat ≤ 0x1000 := by
  have returns := sound.returns
  rcases flow.stack_cases with same | ⟨target, named, room, pushed⟩ | ⟨named, popped⟩
  · rw [same]
    exact returns
  · rw [pushed]
    exact List.forall_mem_cons.mpr ⟨inside, returns⟩
  · rw [popped] at returns
    exact (List.forall_mem_cons.mp returns).2

private theorem pc_after (sound : machine.Sound) (flow : Flow machine instruction after)
    (inside : machine.pc.toNat ≤ 0x1000) (fits : instruction.Fits) :
    after.pc.toNat ≤ 0x10fe := by
  cases flow with
  | next stack pc =>
      rw [pc]
      omega
  | skip stack pc =>
      rw [pc, UInt16.toNat_add]
      simp only [UInt16.reduceToNat]
      omega
  | jump target named stack pc =>
      subst named
      have low := fits.target_lt
      rw [pc]
      omega
  | jumpIndexed target offset named stack pc =>
      subst named
      have low := fits.target_lt
      have byte := offset.toNat_lt
      rw [pc, UInt16.toNat_add, UInt8.toNat_toUInt16]
      omega
  | call target named room stack pc =>
      subst named
      have low := fits.target_lt
      rw [pc]
      omega
  | ret named stack =>
      have returned := sound.returns after.pc (stack ▸ List.mem_cons_self)
      omega

private theorem Sound.of_effect (sound : machine.Sound)
    (inside : 2 ≤ machine.pc.toNat ∧ machine.pc.toNat ≤ 0x1000) (fits : instruction.Fits)
    (effect : Effect machine instruction after) : after.Sound := by
  have sameFont : after.font = machine.font := congrArg Setting.font effect.setting
  refine ⟨sameFont ▸ sound.font, depth_after sound effect.flow,
    returns_after sound effect.flow inside, pc_after sound effect.flow inside.2 fits, ?_⟩
  intro register waits
  rcases effect.state with same | ⟨x, named, waiting⟩
  · exact sound.awaited register (same ▸ waits)
  · subst named
    rw [waiting] at waits
    cases waits
    exact fits.register_x_lt

end Flow

theorem Sound.tick {machine : Machine} (sound : machine.Sound) (dice : Dice) :
    (machine.tick dice).machine.Sound := by
  have ticks := ticks_tick machine dice
  generalize machine.tick dice = outcome at ticks ⊢
  cases ticks with
  | idle still => exact sound
  | astray outside busy => exact sound
  | unknown word busy fetched undecoded =>
      have moved := sound.poised fetched
      exact ⟨moved.font, moved.depth, moved.returns, moved.pc, moved.awaited⟩
  | refused word instruction fault busy fetched decoded refused => exact sound.poised fetched
  | executed word instruction after busy fetched decoded ran =>
      have moved := toNat_pc_poised fetched
      have inside := fetched.1
      exact (sound.poised fetched).of_effect (by omega)
        (Instruction.fits_of_decoded decoded) (effect_of_execute ran)

/-! ### Every reachable machine is sound -/

theorem sound_of_restart {machine : Machine} (font : machine.font.toNat + 80 ≤ 0x200)
    (stack : machine.stack = []) (pc : machine.pc = entry) (state : machine.state = .running) :
    machine.Sound := by
  refine ⟨font, ?_, ?_, ?_, ?_⟩
  · rw [stack]
    exact Nat.zero_le 16
  · rw [stack]
    exact fun address member => absurd member List.not_mem_nil
  · rw [pc]
    decide
  · intro register waits
    rw [state] at waits
    cases waits

theorem sound_of_fresh {machine : Machine} (made : machine.Fresh) : machine.Sound := by
  cases made with
  | standard => exact sound_of_restart (by decide) rfl rfl rfl
  | created font disassembler settings made =>
      obtain ⟨below, rfl⟩ := create_eq_ok_iff.mp made
      exact sound_of_restart below rfl rfl rfl

theorem Sound.apply {machine : Machine} (sound : machine.Sound) (operation : Operation)
    (dice : Dice) : (operation.apply machine dice).machine.Sound := by
  cases operation with
  | load program =>
      change (machine.load program).machine.Sound
      by_cases fits : program.length ≤ 3584
      · rw [load_of_fitting sound.font fits]
        exact sound_of_restart sound.font rfl rfl rfl
      · rw [load_of_long (Nat.lt_of_not_le fits)]
        exact sound
  | reset => exact sound_of_restart sound.font rfl rfl rfl
  | tick => exact sound.tick dice
  | multistep count =>
      have keeps (machine : Machine) (dice : Dice) (before : machine.Sound) :
          (machine.tick dice).machine.Sound := before.tick dice
      exact multistep_preserves keeps sound dice count
  | changeKey key pressed =>
      change (machine.changeKey key pressed).machine.Sound
      by_cases present : key < 16
      · rw [changeKey_of_present present sound.awaited]
        refine ⟨sound.font, sound.depth, sound.returns, sound.pc, ?_⟩
        intro register waits
        cases pressed with
        | true => cases waits
        | false => exact sound.awaited register waits
      · rw [changeKey_of_missing (Nat.le_of_not_lt present)]
        exact sound
  | decrementTimers => exact ⟨sound.font, sound.depth, sound.returns, sound.pc, sound.awaited⟩
  | setRegister register value =>
      change (machine.setRegister register value).machine.Sound
      rw [setRegister]
      split
      · exact ⟨sound.font, sound.depth, sound.returns, sound.pc, sound.awaited⟩
      · exact sound
  | choose settings =>
      exact ⟨sound.font, sound.depth, sound.returns, sound.pc, sound.awaited⟩

theorem Reachable.sound {machine : Machine} (reachable : machine.Reachable) :
    machine.Sound := by
  induction reachable with
  | fresh made => exact sound_of_fresh made
  | apply before operation dice ih => exact ih.apply operation dice

end Chip8.Machine
