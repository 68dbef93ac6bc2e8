import Chip8.Proofs.Invariant

/-!
Loading a program leaves nothing of what was there before. Of a machine only its font's
place, its settings and its disassembler survive; all else is as if it had just been made,
and memory holds the glyphs, the program and zeros. A program that is too long is refused
and changes nothing.
-/

namespace Chip8

/-- What memory holds after a program has been loaded. -/
def Memory.image (font : Nat) (program : List UInt8) (address : Nat) : UInt8 :=
  if 0x200 ≤ address ∧ address < 0x200 + program.length then
    program.getD (address - 0x200) 0
  else if font ≤ address ∧ address < font + 80 then Glyphs.bytes.getD (address - font) 0
  else 0

private theorem Memory.image_of_behind {font : Nat} (below : font + 80 ≤ 0x200)
    {program : List UInt8} {address : Nat} (behind : 0x200 + program.length ≤ address) :
    Memory.image font program address = 0 := by
  have outside : ¬ (0x200 ≤ address ∧ address < 0x200 + program.length) := by omega
  have above : ¬ (font ≤ address ∧ address < font + 80) := by omega
  rw [image, if_neg outside, if_neg above]

namespace Machine

variable {machine : Machine} {program : List UInt8}

theorem byte_loaded (below : machine.font.toNat + 80 ≤ 0x200) (fits : program.length ≤ 3584)
    (address : Nat) :
    (machine.loaded program).memory.byte address =
      Memory.image machine.font.toNat program address := by
  have size : Memory.size = 0x1000 := rfl
  have programInside : (0x200 ≤ address ∧ address < 0x200 + program.length ∧
      address < Memory.size) ↔ 0x200 ≤ address ∧ address < 0x200 + program.length := by
    omega
  have glyphsInside : (machine.font.toNat ≤ address ∧
      address < machine.font.toNat + Glyphs.bytes.length ∧ address < Memory.size) ↔
        machine.font.toNat ≤ address ∧ address < machine.font.toNat + 80 := by
    rw [Glyphs.length_bytes]
    omega
  simp only [loaded, Memory.image, Memory.byte_store, Memory.byte_zeroed, programInside,
    glyphsInside]

theorem loaded_congr {other : Machine} (font : other.font = machine.font)
    (settings : other.settings = machine.settings)
    (disassembler : other.disassembler = machine.disassembler) :
    other.loaded program = machine.loaded program := by
  unfold loaded reset
  rw [font, settings, disassembler]

theorem font_loaded (machine : Machine) (program : List UInt8) :
    (machine.loaded program).font = machine.font := by
  simp only [loaded, reset, empty]

theorem loaded_loaded (machine : Machine) (earlier program : List UInt8) :
    (machine.loaded earlier).loaded program = machine.loaded program :=
  loaded_congr (font_loaded machine earlier) (by simp only [loaded, reset, empty])
    (by simp only [loaded, reset, empty])

theorem load_load (below : machine.font.toNat + 80 ≤ 0x200) (fits : program.length ≤ 3584)
    (earlier : List UInt8) :
    (machine.load earlier).machine.load program = machine.load program := by
  by_cases short : earlier.length ≤ 3584
  · have sameFont : (machine.loaded earlier).font.toNat + 80 ≤ 0x200 := by
      rw [font_loaded]
      exact below
    rw [load_of_fitting below short, load_of_fitting sameFont fits, load_of_fitting below fits,
      loaded_loaded]
  · rw [load_of_long (Nat.lt_of_not_le short)]

private theorem load_into_created (below : machine.font.toNat + 80 ≤ 0x200)
    (fits : program.length ≤ 3584) :
    ∃ fresh, create machine.font machine.disassembler machine.settings = .ok fresh ∧
      machine.load program = fresh.load program := by
  let bare := empty machine.font machine.disassembler machine.settings
  have sameFont : (bare.loaded []).font.toNat + 80 ≤ 0x200 := by
    rw [font_loaded]
    exact below
  have same : bare.loaded program = machine.loaded program := loaded_congr rfl rfl rfl
  refine ⟨bare.loaded [], create_eq_ok_iff.mpr ⟨below, rfl⟩, ?_⟩
  rw [load_of_fitting below fits, load_of_fitting sameFont fits, loaded_loaded, same]

/-- A program that fits is loaded, whatever the machine has been through, as it would be into
a new machine, and an earlier one leaves no byte behind. One that does not fit is refused. -/
theorem load_erases_history (reachable : machine.Reachable) (program : List UInt8) :
    (program.length ≤ 3584 →
      (machine.load program).result = .ok () ∧
      (∃ fresh, create machine.font machine.disassembler machine.settings = .ok fresh ∧
        machine.load program = fresh.load program) ∧
      (∀ address, (machine.load program).machine.memory.byte address =
        Memory.image machine.font.toNat program address) ∧
      ∀ earlier, (machine.load earlier).machine.load program = machine.load program ∧
        ∀ address, 0x200 + program.length ≤ address →
          ((machine.load earlier).machine.load program).machine.memory.byte address = 0) ∧
    (3584 < program.length →
      machine.load program =
        { result := .error (.programTooLong program.length), machine := machine }) := by
  have below := reachable.sound.font
  refine ⟨?_, load_of_long⟩
  intro fits
  have loads := load_of_fitting below fits
  have contents (address : Nat) : (machine.load program).machine.memory.byte address =
      Memory.image machine.font.toNat program address := by
    rw [loads]
    exact byte_loaded below fits address
  refine ⟨by rw [loads], load_into_created below fits, contents, ?_⟩
  intro earlier
  have again := load_load below fits earlier
  refine ⟨again, ?_⟩
  intro address behind
  rw [again, contents, Memory.image_of_behind below behind]

/-- A tone is on, a key is held and the program waits for another one; after a load nothing of
this is left. -/
theorem waiting_reloads_as_new :
    let machine := (standard.run ⟨fun _ => 0, 0⟩
      [.load [0x60, 0x2a, 0xf0, 0x18, 0xf1, 0x0a], .changeKey 3 true, .multistep 9]).machine
    machine.Reachable ∧ machine.isAwaitingKey = true ∧ machine.sound = 42 ∧
      machine.keypad.held = [3] ∧
      ∃ fresh, create machine.font machine.disassembler machine.settings = .ok fresh ∧
        machine.load [0x00, 0xe0] = fresh.load [0x00, 0xe0] := by
  intro machine
  have reachable : machine.Reachable := (Reachable.fresh .standard).run _ _
  have seen : machine.isAwaitingKey = true ∧ machine.sound = 42 ∧ machine.keypad.held = [3] := by
    decide +kernel
  obtain ⟨-, asNew, -⟩ := (load_erases_history reachable [0x00, 0xe0]).1 (by decide)
  exact ⟨reachable, seen.1, seen.2.1, seen.2.2, asNew⟩

end Machine

end Chip8
