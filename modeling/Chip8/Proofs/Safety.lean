import Chip8.Proofs.StrictAccess

/-!
On a reachable machine every operation does the same with partial accesses as with total
ones. So none reaches for a register, a point or a byte that does not exist, and no
addition to the program counter wraps.
-/

namespace Chip8.Strict

/-! ### Accesses that are inside -/

theorem readRegister_eq (registers : Registers) {register : Nat} (existing : register < 16) :
    readRegister registers register = some (registers.read register) := by
  have present : registers.cells[register]? = some registers.cells[register] :=
    Vector.getElem?_eq_getElem existing
  rw [readRegister, Registers.read, present, Option.getD_some]

theorem writeRegister_eq (registers : Registers) {register : Nat} (existing : register < 16)
    (value : UInt8) :
    writeRegister registers register value = some (registers.write register value) := by
  have same : registers.cells.setIfInBounds register value =
      registers.cells.set register value existing := by
    apply Vector.ext
    intro other inside
    simp [Vector.getElem_setIfInBounds, Vector.getElem_set]
  rw [writeRegister, dif_pos existing, Registers.write, same]

theorem writeRegister_flag (registers : Registers) (value : UInt8) :
    writeRegister registers Registers.flag value =
      some (registers.write Registers.flag value) :=
  writeRegister_eq registers (by decide) value

theorem advance_eq {pc : UInt16} {offset : Nat} (room : pc.toNat + offset < 65536) :
    advance pc offset = some (pc + UInt16.ofNat offset) := by
  rw [advance, if_pos room]
  refine congrArg some (UInt16.toNat.inj ?_)
  rw [UInt16.toNat_add, UInt16.toNat_ofNat', UInt16.toNat_ofNat']
  omega

private theorem toggle_eq (screen : Screen) {point : Point} (inside : point.x < 64 ∧ point.y < 32) :
    toggle screen point = some (screen.toggle point, screen.get point.x point.y) := by
  have present : screen.row point.y = screen.rows.get ⟨point.y, inside.2⟩ := by
    have found : screen.rows[point.y]? = some screen.rows[point.y] :=
      Vector.getElem?_eq_getElem inside.2
    rw [Screen.row, found, Option.getD_some]
    rfl
  have same : screen.rows.setIfInBounds point.y
        (screen.row point.y ^^^ Screen.column point.x) =
      screen.rows.set point.y (screen.row point.y ^^^ Screen.column point.x) inside.2 := by
    apply Vector.ext
    intro other within
    simp [Vector.getElem_setIfInBounds, Vector.getElem_set]
  rw [toggle, dif_pos inside, Screen.toggle, same, Screen.get, present]

private theorem toggleEach_eq (screen : Screen) {points : List Point}
    (inside : ∀ point ∈ points, point.x < 64 ∧ point.y < 32) :
    toggleEach screen points = some (screen.toggleEach points) := by
  induction points generalizing screen with
  | nil => rfl
  | cons point points ih =>
      obtain ⟨first, rest⟩ := List.forall_mem_cons.mp inside
      simp only [toggleEach, toggle_eq screen first, ih _ rest, Screen.toggleEach,
        Option.bind_eq_bind, Option.bind_some, Option.pure_def]

private theorem landed_inside (wrap : Bool) (corner : Point) (sprite : List UInt8) :
    ∀ point ∈ Screen.landed wrap corner sprite, point.x < 64 ∧ point.y < 32 := by
  intro point member
  obtain ⟨pixel, -, lands⟩ := List.mem_filterMap.mp member
  unfold Screen.land at lands
  split at lands
  · cases lands
    exact ⟨Nat.mod_lt _ (by decide), Nat.mod_lt _ (by decide)⟩
  · split at lands
    · rename_i onScreen
      cases lands
      exact onScreen
    · cases lands

variable {machine : Machine}

theorem block_eq {length : Nat} (reaches : machine.Reaches length) :
    block machine length = some (machine.block length) := by
  unfold block Memory.range?
  by_cases empty : length = 0
  · subst empty
    rfl
  · have inside := reaches.resolve_left empty
    have within : Memory.Inside machine.index.toNat (machine.index.toNat + length) :=
      ⟨Nat.le_add_right _ _, inside⟩
    rw [if_neg empty, if_pos within, Nat.add_sub_cancel_left]
    rfl

theorem write?_eq_store (values : List UInt8) (filled : values.length ≠ 0)
    (reaches : machine.Reaches values.length) :
    machine.memory.write? machine.index.toNat values =
      some (machine.memory.store machine.index.toNat values) := by
  have inside : Memory.Inside machine.index.toNat (machine.index.toNat + values.length) :=
    ⟨Nat.le_add_right _ _, reaches.resolve_left filled⟩
  rw [Memory.write?, if_pos inside]

/-! ### Instructions whose operands fit -/

theorem read_eq {x : UInt64} (existing : x.toNat < 16) :
    read machine x = some (machine.read x) :=
  readRegister_eq machine.registers existing

theorem write_eq {x : UInt64} (existing : x.toNat < 16) (value : UInt8) :
    write machine x value = some (machine.write x value) := by
  rw [write, writeRegister_eq machine.registers existing]
  rfl

theorem skipIf_eq (room : machine.pc.toNat + 2 < 65536) (condition : Bool) :
    skipIf machine condition = some (machine.skipIf condition) := by
  cases condition with
  | false => rfl
  | true =>
      simp only [skipIf, advance_eq room]
      rfl

theorem writeFlagged_eq (registers : Registers) (flagLast : Bool) {x : Nat}
    (existing : x < 16) (raised : Bool) {result : Registers → Option UInt8}
    {total : Registers → UInt8} (agrees : ∀ current, result current = some (total current)) :
    writeFlagged registers flagLast x raised result =
      some (registers.writeFlagged flagLast x raised total) := by
  cases flagLast with
  | true =>
      simp only [writeFlagged, agrees, writeRegister_eq _ existing, writeRegister_flag]
      rfl
  | false =>
      simp only [writeFlagged, agrees, writeRegister_eq _ existing, writeRegister_flag]
      rfl

theorem writeBitwise_eq (registers : Registers) (clearsFlag : Bool) {x : Nat}
    (existing : x < 16) (result : UInt8) :
    writeBitwise registers clearsFlag x result =
      some (registers.writeBitwise clearsFlag x result) := by
  cases clearsFlag with
  | true =>
      simp only [writeBitwise, writeRegister_eq _ existing, writeRegister_flag]
      rfl
  | false =>
      simp only [writeBitwise, writeRegister_eq _ existing]
      rfl

private theorem combine_eq (registers : Registers) (dialect : Dialect) (op : PairOp) {x y : Nat}
    (first : x < 16) (second : y < 16) :
    combine registers dialect op x y = some (registers.combine dialect op x y) := by
  have source : Registers.shiftSource dialect x y < 16 := by
    unfold Registers.shiftSource
    split
    · exact second
    · exact first
  have fromFirst (current : Registers) := readRegister_eq current first
  have fromSecond (current : Registers) := readRegister_eq current second
  have fromSource (current : Registers) := readRegister_eq current source
  cases op with
  | skipEqual => rfl
  | skipUnequal => rfl
  | load =>
      simp only [combine, fromSecond]
      exact writeRegister_eq registers first _
  | or =>
      simp only [combine, fromFirst, fromSecond]
      exact writeBitwise_eq registers dialect.clearsFlag first _
  | and =>
      simp only [combine, fromFirst, fromSecond]
      exact writeBitwise_eq registers dialect.clearsFlag first _
  | xor =>
      simp only [combine, fromFirst, fromSecond]
      exact writeBitwise_eq registers dialect.clearsFlag first _
  | add =>
      simp only [combine, fromFirst, fromSecond, Option.bind_eq_bind, Option.bind_some,
        writeRegister_eq _ first, writeRegister_flag]
      rfl
  | subtract =>
      simp only [combine, fromFirst, fromSecond]
      exact writeFlagged_eq registers dialect.flagLast first _ fun current => rfl
  | shiftRight =>
      simp only [combine, fromSource]
      exact writeFlagged_eq registers dialect.flagLast first _ fun current => rfl
  | subtractFrom =>
      simp only [combine, fromFirst, fromSecond]
      exact writeFlagged_eq registers dialect.flagLast first _ fun current => rfl
  | shiftLeft =>
      simp only [combine, fromSource]
      exact writeFlagged_eq registers dialect.flagLast first _ fun current => rfl

private theorem skips_eq (registers : Registers) (op : PairOp) {x y : Nat} (first : x < 16)
    (second : y < 16) : skips registers op x y = some (registers.skips op x y) := by
  cases op with
  | skipEqual => simp only [skips, readRegister_eq _ first, readRegister_eq _ second]; rfl
  | skipUnequal => simp only [skips, readRegister_eq _ first, readRegister_eq _ second]; rfl
  | _ => rfl

private theorem executeAddress_eq {target : UInt16} (low : target.toNat < 4096) (op : AddressOp) :
    executeAddress machine target op = some (machine.executeAddress target op) := by
  cases op with
  | jumpIndexed =>
      have existing :
          (if machine.settings.dialect.jumpsByAddress then target.toNat / 256 else 0) < 16 := by
        split <;> omega
      have offset := (machine.registers.read
        (if machine.settings.dialect.jumpsByAddress then target.toNat / 256 else 0)).toNat_lt
      simp only [executeAddress, readRegister_eq _ existing, Option.bind_eq_bind,
        Option.bind_some]
      rw [advance_eq (by omega), UInt16.ofNat_uInt8ToNat]
      rfl
  | jump => rfl
  | call => rfl
  | loadIndex => rfl

private theorem executeByte_eq (room : machine.pc.toNat + 2 < 65536) (roll : UInt8) {x : UInt64}
    (existing : x.toNat < 16) (value : UInt8) (op : ByteOp) :
    executeByte machine roll x value op = some (machine.executeByte roll x value op) := by
  cases op with
  | skipEqual => simp only [executeByte, read_eq existing]; exact skipIf_eq room _
  | skipUnequal => simp only [executeByte, read_eq existing]; exact skipIf_eq room _
  | load => exact write_eq existing value
  | add => simp only [executeByte, read_eq existing]; exact write_eq existing _
  | random => exact write_eq existing _

private theorem executePair_eq (room : machine.pc.toNat + 2 < 65536) (op : PairOp) {x y : UInt64}
    (first : x.toNat < 16) (second : y.toNat < 16) :
    executePair machine op x y = some (machine.executePair op x y) := by
  simp only [executePair, combine_eq _ _ op first second, skips_eq _ op first second,
    Option.bind_eq_bind, Option.bind_some]
  refine skipIf_eq ?_ _
  exact room

theorem executeSprite_eq {x y : UInt64} (first : x.toNat < 16) (second : y.toNat < 16)
    (rows : UInt8) : executeSprite machine x y rows = some (machine.executeSprite x y rows) := by
  have inside := landed_inside machine.settings.dialect.wrapsSprites
    ⟨(machine.read x).toNat, (machine.read y).toNat⟩ (machine.block rows.toNat)
  rw [Machine.executeSprite_eq, Machine.withBlock]
  simp only [executeSprite, read_eq first, read_eq second, Option.bind_eq_bind,
    Option.bind_some]
  split
  · rename_i reaches
    simp only [block_eq reaches, toggleEach_eq _ inside, writeRegister_flag, Option.bind_some]
    rfl
  · rfl

private theorem executeDecimal_eq {x : UInt64} (existing : x.toNat < 16) :
    executeRegister machine x .decimal = some (machine.executeRegister x .decimal) := by
  simp only [executeRegister, read_eq existing, Option.bind_eq_bind, Option.bind_some,
    Machine.executeRegister, Machine.withBlock]
  split
  · rename_i reaches
    have stored := write?_eq_store (Machine.decimalDigits (machine.read x))
      (by simp [Machine.decimalDigits]) reaches
    rw [stored]
    rfl
  · rfl

private theorem executeStore_eq {x : UInt64} (existing : x.toNat < 16) :
    executeRegister machine x .store = some (machine.executeRegister x .store) := by
  simp only [executeRegister, Machine.executeRegister, Machine.withBlock]
  split
  · rename_i reaches
    have length := machine.registers.length_take (x.toNat + 1)
    have few : x.toNat + 1 ≤ 16 := existing
    have stored := write?_eq_store (machine.registers.take (x.toNat + 1))
      (by omega) (length.symm ▸ reaches)
    simp only [takeRegisters, if_pos few, stored, Option.bind_eq_bind, Option.bind_some]
    rfl
  · rfl

private theorem executeLoad_eq {x : UInt64} (existing : x.toNat < 16) :
    executeRegister machine x .load = some (machine.executeRegister x .load) := by
  simp only [executeRegister, Machine.executeRegister, Machine.withBlock]
  split
  · rename_i reaches
    have few : x.toNat + 1 ≤ 16 := existing
    have length := machine.length_block (x.toNat + 1)
    simp only [block_eq reaches, fillRegisters, if_pos (And.intro few length),
      Option.bind_eq_bind, Option.bind_some]
    rfl
  · rfl

private theorem executeRegister_eq (room : machine.pc.toNat + 2 < 65536) {x : UInt64}
    (existing : x.toNat < 16) (op : RegisterOp) :
    executeRegister machine x op = some (machine.executeRegister x op) := by
  cases op with
  | skipHeld =>
      simp only [executeRegister, read_eq existing, Option.bind_eq_bind, Option.bind_some,
        skipIf_eq room]
      rfl
  | skipReleased =>
      simp only [executeRegister, read_eq existing, Option.bind_eq_bind, Option.bind_some,
        skipIf_eq room]
      rfl
  | readDelay =>
      simp only [executeRegister, write_eq existing]
      rfl
  | awaitKey => rfl
  | setDelay =>
      simp only [executeRegister, read_eq existing]
      rfl
  | setSound =>
      simp only [executeRegister, read_eq existing]
      rfl
  | addIndex =>
      simp only [executeRegister, read_eq existing, Option.bind_eq_bind, Option.bind_some,
        writeRegister_flag]
      rfl
  | glyph =>
      simp only [executeRegister, read_eq existing]
      rfl
  | decimal => exact executeDecimal_eq existing
  | store => exact executeStore_eq existing
  | load => exact executeLoad_eq existing

private theorem execute_eq (room : machine.pc.toNat + 2 < 65536) (roll : UInt8)
    {instruction : Instruction} (fits : instruction.Fits) :
    execute machine roll instruction = some (machine.execute roll instruction) := by
  cases instruction with
  | bare op => rfl
  | address op target => exact executeAddress_eq fits.target_lt op
  | byte op x value =>
      rw [execute, executeByte_eq room roll fits.byte_x_lt value op]
      rfl
  | pair op x y =>
      rw [execute, executePair_eq room op fits.pair_lt.1 fits.pair_lt.2]
      rfl
  | sprite x y rows => exact executeSprite_eq fits.sprite_lt.1 fits.sprite_lt.2.1 rows
  | register op x => exact executeRegister_eq room fits.register_x_lt op

/-! ### Operations -/

private theorem perform_eq (room : machine.pc.toNat + 2 < 65536) (dice : Dice)
    {instruction : Instruction} (fits : instruction.Fits) :
    perform machine dice instruction = some (machine.perform dice instruction) := by
  have counted : machine.countCycle.pc.toNat + 2 < 65536 := room
  have agrees := execute_eq counted dice.roll fits
  rw [perform, agrees, Machine.perform]
  cases machine.countCycle.execute dice.roll instruction with
  | error fault => rfl
  | ok after => rfl

theorem tick_eq (machine : Machine) (dice : Dice) :
    tick machine dice = some (machine.tick dice) := by
  rw [tick, Machine.tick]
  split
  · rfl
  · cases found : machine.memory.word? machine.pc.toNat with
    | none => rfl
    | some word =>
        have inside := (Machine.fetches_iff.mpr found).1
        have room : machine.pc.toNat + Instruction.size < 65536 := by
          simp only [Instruction.size]
          omega
        have moved : { machine.afterFetch word with
            pc := machine.pc + UInt16.ofNat Instruction.size } = machine.afterFetch word := rfl
        simp only [advance_eq room, Option.bind_eq_bind, Option.bind_some, moved]
        cases decoded : Instruction.ofWord? word with
        | none => rfl
        | some instruction =>
            have skipRoom : (machine.afterFetch word).pc.toNat + 2 < 65536 := by
              have advanced := Machine.toNat_pc_afterFetch (Machine.fetches_iff.mpr found)
              omega
            exact perform_eq skipRoom dice (Instruction.fits_of_decoded decoded)

private theorem multistep_eq (machine : Machine) (dice : Dice) (count : Nat) :
    multistep machine dice count = some (machine.multistep dice count) := by
  induction count generalizing machine dice with
  | zero => rfl
  | succ count ih =>
      cases active : machine.isAwaitingKey with
      | true =>
          rw [multistep, Machine.multistep_of_awaiting active, active]
          rfl
      | false =>
          rw [Machine.multistep_succ active, multistep, active, tick_eq]
          simp only [Bool.false_eq_true, if_false, Option.bind_eq_bind, Option.bind_some, ih]
          split
          · rfl
          · rfl

private theorem load_eq (below : machine.font.toNat + 80 ≤ 0x200) (program : List UInt8) :
    load machine program = some (machine.load program) := by
  by_cases fits : program.length ≤ 3584
  · have short : ¬ Region.program.capacity < program.length := Nat.not_lt_of_le fits
    have glyphsInside : Memory.Inside machine.font.toNat
        (machine.font.toNat + Glyphs.bytes.length) := by
      rw [Glyphs.length_bytes]
      simp only [Memory.Inside, Memory.size]
      omega
    have programInside : Memory.Inside Region.program.start
        (Region.program.start + program.length) := by
      have start : Region.program.start = 0x200 := rfl
      simp only [Memory.Inside, Memory.size, start]
      omega
    rw [Machine.load_of_fitting below fits, load, if_neg short]
    simp only [Memory.loadGlyphs?, Memory.write?, if_pos glyphsInside, if_pos programInside]
    rfl
  · have long : 3584 < program.length := Nat.lt_of_not_le fits
    have tooLong : Region.program.capacity < program.length := long
    rw [Machine.load_of_long long, load, if_pos tooLong]
    rfl

private theorem apply_eq (below : machine.font.toNat + 80 ≤ 0x200) (operation : Operation)
    (dice : Dice) : apply operation machine dice = some (operation.apply machine dice) := by
  cases operation with
  | load program => rw [apply, load_eq below]; rfl
  | tick => rw [apply, tick_eq]; rfl
  | multistep count => rw [apply, multistep_eq]; rfl
  | _ => rfl

end Chip8.Strict

namespace Chip8.Machine

/-! ### Reachable machines -/

private theorem changeKey_eq_error_iff {machine : Machine}
    (awaited : ∀ register, machine.state = .awaitingKey register → register.toNat < 16)
    {key : Nat} {pressed : Bool} {fault : Fault} :
    (machine.changeKey key pressed).result = .error fault ↔
      16 ≤ key ∧ fault = .noSuchKey key := by
  by_cases present : key < 16
  · simp [changeKey_of_present present awaited, Nat.not_le_of_lt present]
  · have missing : 16 ≤ key := Nat.le_of_not_lt present
    simp only [changeKey_of_missing missing, Except.error.injEq, missing, true_and]
    exact eq_comm

private theorem load_eq_error_iff {machine : Machine} (below : machine.font.toNat + 80 ≤ 0x200)
    {program : List UInt8} {fault : Fault} :
    (machine.load program).result = .error fault ↔
      3584 < program.length ∧ fault = .programTooLong program.length := by
  by_cases fits : program.length ≤ 3584
  · simp [load_of_fitting below fits, Nat.not_lt_of_le fits]
  · have long : 3584 < program.length := Nat.lt_of_not_le fits
    simp only [load_of_long long, Except.error.injEq, long, true_and]
    exact eq_comm

/-- A reachable machine is sound; every operation on it stays inside the registers, the
screen and memory; and only a missing key or a program that is too long is refused. -/
theorem reachable_confined {machine : Machine} (reachable : machine.Reachable) :
    (machine.font.toNat + 80 ≤ 0x200 ∧
      machine.stack.length ≤ 16 ∧
      (∀ address ∈ machine.stack, 2 ≤ address.toNat ∧ address.toNat ≤ 0x1000) ∧
      machine.pc.toNat ≤ 0x10fe ∧
      ∀ register, machine.state = .awaitingKey register → register.toNat < 16) ∧
    (∀ operation dice,
      Strict.apply operation machine dice = some (operation.apply machine dice)) ∧
    (∀ key pressed fault,
      (machine.changeKey key pressed).result = .error fault ↔
        16 ≤ key ∧ fault = .noSuchKey key) ∧
    ∀ program fault,
      (machine.load program).result = .error fault ↔
        3584 < program.length ∧ fault = .programTooLong program.length := by
  have sound := reachable.sound
  refine ⟨⟨sound.font, sound.depth, sound.returns, sound.pc, sound.awaited⟩, ?_, ?_, ?_⟩
  · intro operation dice
    exact Strict.apply_eq sound.font operation dice
  · intro key pressed fault
    exact changeKey_eq_error_iff sound.awaited
  · intro program fault
    exact load_eq_error_iff sound.font

/-- A program that calls itself for ever fills the stack and no more. -/
theorem endless_call_confined :
    let machine := (standard.run ⟨fun _ => 0, 0⟩
      [.load [0x22, 0x00], .multistep 20, .changeKey 16 true]).machine
    machine.Reachable ∧ machine.stack.length ≤ 16 ∧
      (machine.changeKey 16 true).result = .error (.noSuchKey 16) := by
  intro machine
  have reachable : machine.Reachable := (Reachable.fresh .standard).run _ _
  obtain ⟨⟨-, depth, -⟩, -, refusedKey, -⟩ := reachable_confined reachable
  exact ⟨reachable, depth, (refusedKey 16 true _).mpr ⟨Nat.le_refl 16, rfl⟩⟩

end Chip8.Machine
