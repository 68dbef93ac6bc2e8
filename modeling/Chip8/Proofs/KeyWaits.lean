import Chip8.Proofs.Batches
import Chip8.Proofs.Invariant

/-!
A wait for a key, from the instruction that begins it to the press that ends it. Meanwhile
ticks do nothing, and releases, timers and keys that do not exist change nothing but the timers
and the keypad. A press ends the wait, whether or not its key was held before, and the program
goes on behind the instruction that waited.
-/

namespace Chip8

namespace Operation

/-- Whether an operation leaves a wait for a key as it finds it. -/
def leavesWait : Operation → Bool
  | .tick => true
  | .multistep _ => true
  | .decrementTimers => true
  | .changeKey key pressed => !pressed || Keypad.count ≤ key
  | _ => false

/-- An operation that neither runs the program of a machine nor replaces it: ticks do nothing
while the machine is paused. -/
def RestsOn (machine : Machine) : Operation → Prop
  | .load _ => False
  | .reset => False
  | .tick => machine.settings.paused = true
  | .multistep _ => machine.settings.paused = true
  | _ => True

end Operation

namespace Machine

variable {machine : Machine} {dice : Dice} {register : UInt64}

/-! ### The instruction that began a wait -/

/-- A machine that waits has just passed the word that made it wait, and that word still stands
in memory where it was fetched. -/
def WaitsBehindFetch (machine : Machine) : Prop :=
  ∀ register, machine.state = .awaitingKey register →
    machine.fetched.word.toNat = 0xf00a + 256 * register.toNat ∧
      machine.memory.word? machine.fetched.address.toNat = some machine.fetched.word ∧
      machine.pc.toNat = machine.fetched.address.toNat + 2

theorem waitsBehindFetch_of_running (running : machine.state = .running) :
    machine.WaitsBehindFetch := by
  intro register awaiting
  rw [running] at awaiting
  cases awaiting

theorem running_of_busy (busy : machine.isIdle = false) : machine.state = .running := by
  obtain ⟨-, active⟩ := isIdle_eq_false_iff.mp busy
  cases stateAt : machine.state with
  | running => rfl
  | awaitingKey register => simp [isAwaitingKey, stateAt] at active

theorem WaitsBehindFetch.tick (before : machine.WaitsBehindFetch) (dice : Dice) :
    (machine.tick dice).machine.WaitsBehindFetch := by
  have ticks := ticks_tick machine dice
  generalize machine.tick dice = outcome at ticks ⊢
  cases ticks with
  | idle still => exact before
  | astray outside busy => exact before
  | unknown word busy fetched undecoded =>
      exact waitsBehindFetch_of_running (running_of_busy busy)
  | refused word instruction fault busy fetched decoded refused =>
      exact waitsBehindFetch_of_running (running_of_busy busy)
  | executed word instruction after busy fetched decoded ran =>
      rcases (effect_of_execute ran).state with same | ⟨x, rfl, waiting⟩
      · exact waitsBehindFetch_of_running (same.trans (running_of_busy busy))
      · cases ran
        intro register awaiting
        cases awaiting
        obtain ⟨first, last, place⟩ := (Instruction.ofWord?_eq_register_iff 0xf 0x0 0xa
          (by decide) (by decide) rfl).mp decoded
        refine ⟨?_, fetches_iff.mp fetched, toNat_pc_poised fetched⟩
        change word.toNat = 0xf00a + 256 * x.toNat
        have bound := word.toNat_lt
        omega

theorem WaitsBehindFetch.changeKey (before : machine.WaitsBehindFetch) (sound : machine.Sound)
    (key : Nat) (pressed : Bool) :
    (machine.changeKey key pressed).machine.WaitsBehindFetch := by
  by_cases present : key < 16
  · rw [changeKey_of_present present sound.awaited]
    cases pressed with
    | true => exact waitsBehindFetch_of_running rfl
    | false => exact before
  · rw [changeKey_of_missing (Nat.le_of_not_lt present)]
    exact before

theorem WaitsBehindFetch.apply (before : machine.WaitsBehindFetch) (sound : machine.Sound)
    (operation : Operation) (dice : Dice) :
    (operation.apply machine dice).machine.WaitsBehindFetch := by
  cases operation with
  | load program =>
      change (machine.load program).machine.WaitsBehindFetch
      by_cases fits : program.length ≤ 3584
      · rw [load_of_fitting sound.font fits]
        exact waitsBehindFetch_of_running rfl
      · rw [load_of_long (Nat.lt_of_not_le fits)]
        exact before
  | reset => exact waitsBehindFetch_of_running rfl
  | tick => exact before.tick dice
  | multistep count =>
      have keeps (machine : Machine) (dice : Dice) (before : machine.WaitsBehindFetch) :
          (machine.tick dice).machine.WaitsBehindFetch := before.tick dice
      exact multistep_preserves keeps before dice count
  | changeKey key pressed => exact before.changeKey sound key pressed
  | decrementTimers => exact before
  | setRegister register value =>
      change (machine.setRegister register value).machine.WaitsBehindFetch
      rw [setRegister]
      split
      · exact before
      · exact before
  | choose settings => exact before

theorem Reachable.waitsBehindFetch (reachable : machine.Reachable) :
    machine.WaitsBehindFetch := by
  induction reachable with
  | fresh made =>
      cases made with
      | standard => exact waitsBehindFetch_of_running rfl
      | created font disassembler settings made =>
          obtain ⟨-, rfl⟩ := create_eq_ok_iff.mp made
          exact waitsBehindFetch_of_running rfl
  | apply before operation dice ih => exact ih.apply before.sound operation dice

/-! ### During a wait -/

theorem isAwaitingKey_of_awaiting (awaiting : machine.state = .awaitingKey register) :
    machine.isAwaitingKey = true := by
  rw [isAwaitingKey, awaiting]

theorem apply_tick_of_awaiting (awaiting : machine.state = .awaitingKey register)
    (dice : Dice) :
    Operation.apply .tick machine dice =
      { result := .ok .done, machine, dice, trace := [] } := by
  have still := isIdle_of_awaiting (isAwaitingKey_of_awaiting awaiting)
  rw [Operation.apply, tick_of_idle still]
  rfl

theorem apply_multistep_of_awaiting (awaiting : machine.state = .awaitingKey register)
    (dice : Dice) (count : Nat) :
    Operation.apply (.multistep count) machine dice =
      { result := .ok .done, machine, dice, trace := [] } := by
  rw [Operation.apply, multistep_of_awaiting (isAwaitingKey_of_awaiting awaiting)]
  rfl

theorem apply_changeKey_of_missing {key : Nat} (missing : 16 ≤ key) (pressed : Bool)
    (machine : Machine) (dice : Dice) :
    Operation.apply (.changeKey key pressed) machine dice =
      { result := .error (.noSuchKey key), machine, dice, trace := [] } := by
  rw [Operation.apply, changeKey_of_missing missing]
  rfl

private theorem changeKey_released (machine : Machine) (key : Nat) :
    ∃ keypad, (machine.changeKey key false).machine = { machine with keypad } := by
  unfold Machine.changeKey
  split
  · exact ⟨machine.keypad.set key false, rfl⟩
  · exact ⟨machine.keypad, rfl⟩

theorem wait_step (awaiting : machine.state = .awaitingKey register) {operation : Operation}
    (leaves : operation.leavesWait = true) (dice : Dice) :
    ∃ delay sound keypad,
      (operation.apply machine dice).machine = { machine with delay, sound, keypad } := by
  cases operation with
  | tick =>
      rw [apply_tick_of_awaiting awaiting]
      exact ⟨machine.delay, machine.sound, machine.keypad, rfl⟩
  | multistep count =>
      rw [apply_multistep_of_awaiting awaiting]
      exact ⟨machine.delay, machine.sound, machine.keypad, rfl⟩
  | decrementTimers => exact ⟨_, _, machine.keypad, rfl⟩
  | changeKey key pressed =>
      cases pressed with
      | false =>
          obtain ⟨keypad, released⟩ := machine.changeKey_released key
          exact ⟨machine.delay, machine.sound, keypad, released⟩
      | true =>
          have missing : 16 ≤ key := of_decide_eq_true leaves
          rw [apply_changeKey_of_missing missing]
          exact ⟨machine.delay, machine.sound, machine.keypad, rfl⟩
  | load program => cases leaves
  | reset => cases leaves
  | setRegister register value => cases leaves
  | choose settings => cases leaves

private theorem wait_run (awaiting : machine.state = .awaitingKey register)
    {operations : List Operation}
    (leaves : ∀ operation ∈ operations, operation.leavesWait = true) (dice : Dice) :
    ∃ delay sound keypad,
      (machine.run dice operations).machine = { machine with delay, sound, keypad } := by
  induction operations generalizing machine dice with
  | nil => exact ⟨machine.delay, machine.sound, machine.keypad, rfl⟩
  | cons operation operations ih =>
      obtain ⟨leavesFirst, leavesRest⟩ := List.forall_mem_cons.mp leaves
      obtain ⟨delay, sound, keypad, stepped⟩ := wait_step awaiting leavesFirst dice
      have stillAwaiting :
          (operation.apply machine dice).machine.state = .awaitingKey register := by
        rw [stepped]
        exact awaiting
      obtain ⟨laterDelay, laterSound, laterKeypad, ran⟩ := ih stillAwaiting leavesRest
        (operation.apply machine dice).dice
      refine ⟨laterDelay, laterSound, laterKeypad, ?_⟩
      rw [run]
      dsimp only
      rw [ran, stepped]

/-! ### The press -/

private theorem press_of_awaiting (awaiting : machine.state = .awaitingKey register)
    (existing : register.toNat < 16) {key : Nat} (present : key < 16) :
    machine.changeKey key true =
      { result := .ok (!machine.keypad.isHeld key)
        machine :=
          { machine with
            registers := machine.registers.write register.toNat (UInt8.ofNat key)
            keypad := machine.keypad.set key true
            state := .running } } := by
  rw [changeKey_of_present present (awaited_of_awaiting awaiting existing)]
  simp only [keyed, awaiting, if_true, Bool.bne_true]

/-! ### After the press -/

def Rests (machine : Machine) (dice : Dice) : List Operation → Prop
  | [] => True
  | operation :: operations =>
      let after := operation.apply machine dice
      operation.RestsOn machine ∧ after.machine.Rests after.dice operations

private theorem changeKey_of_running (running : machine.state = .running) (key : Nat)
    (pressed : Bool) :
    (machine.changeKey key pressed).machine.state = .running ∧
      (machine.changeKey key pressed).machine.pc = machine.pc := by
  by_cases present : key < 16
  · rw [changeKey_of_present present (awaited_of_running running)]
    cases pressed with
    | true => exact ⟨rfl, rfl⟩
    | false => exact ⟨running, rfl⟩
  · rw [changeKey_of_missing (Nat.le_of_not_lt present)]
    exact ⟨running, rfl⟩

theorem isIdle_of_paused (paused : machine.settings.paused = true) : machine.isIdle = true := by
  rw [isIdle, paused, Bool.true_or]

private theorem multistep_of_paused (paused : machine.settings.paused = true) (dice : Dice)
    (count : Nat) : (machine.multistep dice count).machine = machine := by
  have stays (other : Machine) (rolls : Dice) (same : other = machine) :
      (other.tick rolls).machine = machine := by
    subst same
    rw [tick_of_idle (isIdle_of_paused paused)]
    rfl
  exact multistep_preserves stays rfl dice count

private theorem rest_step (running : machine.state = .running) {operation : Operation}
    (rests : operation.RestsOn machine) (dice : Dice) :
    (operation.apply machine dice).machine.state = .running ∧
      (operation.apply machine dice).machine.pc = machine.pc := by
  cases operation with
  | load program => cases rests
  | reset => cases rests
  | tick =>
      change (machine.tick dice).machine.state = .running ∧ (machine.tick dice).machine.pc = _
      rw [tick_of_idle (isIdle_of_paused rests)]
      exact ⟨running, rfl⟩
  | multistep count =>
      change (machine.multistep dice count).machine.state = .running ∧
        (machine.multistep dice count).machine.pc = _
      rw [multistep_of_paused rests]
      exact ⟨running, rfl⟩
  | changeKey key pressed => exact changeKey_of_running running key pressed
  | decrementTimers => exact ⟨running, rfl⟩
  | setRegister register value =>
      change (machine.setRegister register value).machine.state = .running ∧
        (machine.setRegister register value).machine.pc = _
      rw [setRegister]
      split
      · exact ⟨running, rfl⟩
      · exact ⟨running, rfl⟩
  | choose settings => exact ⟨running, rfl⟩

private theorem rest_run (running : machine.state = .running) {operations : List Operation}
    (rests : machine.Rests dice operations) :
    (machine.run dice operations).machine.state = .running ∧
      (machine.run dice operations).machine.pc = machine.pc := by
  induction operations generalizing machine dice with
  | nil => exact ⟨running, rfl⟩
  | cons operation operations ih =>
      obtain ⟨here, later⟩ := rests
      obtain ⟨stillRunning, samePc⟩ := rest_step running here dice
      obtain ⟨endsRunning, endsPc⟩ := ih stillRunning later
      exact ⟨endsRunning, endsPc.trans samePc⟩

/-- The next tick looks for a word at an address. It remembers the word it finds there, or fails
where memory has none. -/
def FetchesAt (machine : Machine) (dice : Dice) (address : Nat) : Prop :=
  machine.pc.toNat = address ∧
    match machine.memory.word? address with
    | some word => (machine.tick dice).machine.fetched = { address := machine.pc, word := word }
    | none => (machine.tick dice).result = .error (.outOfBounds address machine.pc)

private theorem fetchesAt_pc (busy : machine.isIdle = false) (dice : Dice) :
    machine.FetchesAt dice machine.pc.toNat := by
  refine ⟨rfl, ?_⟩
  have ticks := ticks_tick machine dice
  generalize machine.tick dice = outcome at ticks ⊢
  cases ticks with
  | idle still =>
      rw [busy] at still
      cases still
  | astray outside busy => rw [word?_pc_eq_none_iff.mpr outside]
  | unknown word busy fetched undecoded =>
      rw [fetches_iff.mp fetched]
      rfl
  | refused word instruction fault busy fetched decoded refused =>
      rw [fetches_iff.mp fetched]
      rfl
  | executed word instruction after busy fetched decoded ran =>
      rw [fetches_iff.mp fetched]
      exact congrArg Setting.fetched (effect_of_execute ran).setting

theorem fetchesAt_of_rests (running : machine.state = .running) {operations : List Operation}
    (rests : machine.Rests dice operations)
    (unpaused : (machine.run dice operations).machine.settings.paused = false) (rolls : Dice) :
    (machine.run dice operations).machine.FetchesAt rolls machine.pc.toNat := by
  obtain ⟨stillRunning, samePc⟩ := rest_run running rests
  have busy : (machine.run dice operations).machine.isIdle = false := by
    rw [isIdle, isAwaitingKey, unpaused, stillRunning]
    rfl
  rw [← samePc]
  exact fetchesAt_pc busy rolls

/-! ### The whole wait -/

/-- However long a machine is kept waiting, it stays at its wait, and ticks and keys that do not
exist leave it as it is. The first press of a key that exists stores the key, ends the wait and
changes nothing else, and when the machine is next let run it goes on behind the instruction
that made it wait. -/
theorem press_ends_wait (reachable : machine.Reachable)
    (awaiting : machine.state = .awaitingKey register) (dice : Dice)
    {operations : List Operation}
    (leaves : ∀ operation ∈ operations, operation.leavesWait = true) :
    let reached (count : Nat) := machine.run dice (operations.take count)
    let waited := (machine.run dice operations).machine
    (∃ delay sound keypad, waited = { machine with delay, sound, keypad }) ∧
      waited.state = .awaitingKey register ∧
      (∀ count, (within : count < operations.length) →
        let begun := reached count
        let outcome := operations[count].apply begun.machine begun.dice
        (operations[count] = .tick ∨ (∃ steps, operations[count] = .multistep steps) →
          outcome =
            { result := .ok .done, machine := begun.machine, dice := begun.dice, trace := [] }) ∧
        ∀ key pressed, operations[count] = .changeKey key pressed → 16 ≤ key →
          outcome =
            { result := .error (.noSuchKey key), machine := begun.machine, dice := begun.dice,
              trace := [] }) ∧
      (machine.fetched.word.toNat = 0xf00a + 256 * register.toNat ∧
        machine.memory.word? machine.fetched.address.toNat = some machine.fetched.word) ∧
      ∀ key < 16,
        let press := waited.changeKey key true
        press.result = .ok (!waited.keypad.isHeld key) ∧
          press.machine =
            { waited with
              registers := waited.registers.write register.toNat (UInt8.ofNat key)
              keypad := waited.keypad.set key true
              state := .running } ∧
          (press.machine.registers.read register.toNat).toNat = key ∧
          press.machine.keypad.isHeld key = true ∧
          ∀ later between, press.machine.Rests later between →
            let ready := press.machine.run later between
            ready.machine.settings.paused = false →
              ready.machine.FetchesAt ready.dice (machine.fetched.address.toNat + 2) := by
  intro reached waited
  have existing : register.toNat < 16 := reachable.sound.awaited register awaiting
  obtain ⟨named, standing, behind⟩ := reachable.waitsBehindFetch register awaiting
  have waits (elapsed : List Operation) (part : elapsed ⊆ operations) :
      (∃ delay sound keypad,
        (machine.run dice elapsed).machine = { machine with delay, sound, keypad }) ∧
        (machine.run dice elapsed).machine.state = .awaitingKey register := by
    obtain ⟨delay, sound, keypad, changed⟩ :=
      wait_run awaiting (fun operation member => leaves operation (part member)) dice
    exact ⟨⟨delay, sound, keypad, changed⟩, by rw [changed]; exact awaiting⟩
  obtain ⟨changed, stillAwaiting⟩ := waits operations (List.Subset.refl operations)
  refine ⟨changed, stillAwaiting, ?_, ⟨named, standing⟩, ?_⟩
  · intro count within begun outcome
    have waiting : begun.machine.state = .awaitingKey register :=
      (waits (operations.take count) (List.take_subset count operations)).2
    constructor
    · rintro (ticks | ⟨steps, batch⟩)
      · simp only [outcome, ticks, apply_tick_of_awaiting waiting]
      · simp only [outcome, batch, apply_multistep_of_awaiting waiting]
    · intro key pressed changes missing
      simp only [outcome, changes, apply_changeKey_of_missing missing]
  · intro key present press
    have stored : register.toNat < Registers.count := existing
    have real : key < Keypad.count := present
    have pressed : press = _ := press_of_awaiting stillAwaiting existing present
    rw [pressed]
    refine ⟨rfl, rfl, ?_, ?_, ?_⟩
    · rw [Registers.read_write, if_pos ⟨rfl, stored⟩, UInt8.toNat_ofNat']
      omega
    · rw [Keypad.isHeld_set, if_pos ⟨rfl, real⟩]
    · intro later between rests ready unpaused
      have place : waited.pc.toNat = machine.fetched.address.toNat + 2 := by
        obtain ⟨delay, sound, keypad, same⟩ := changed
        have samePc : waited.pc = machine.pc := by
          change (machine.run dice operations).machine.pc = machine.pc
          rw [same]
        rw [samePc, behind]
      rw [← place]
      exact fetchesAt_of_rests rfl rests unpaused ready.dice

def patient : Machine :=
  (standard.run { source := fun _ => 0, taken := 0 }
    [.load [0xf5, 0x0a, 0x75, 0x01], .changeKey 3 true, .tick]).machine

/-- Nothing but a press ends the wait; a press of the key that is held does, though it changes
no key. Paused meanwhile, the program goes on behind its first instruction. -/
theorem patient_resumes :
    let dice : Dice := { source := fun _ => 0, taken := 0 }
    let operations : List Operation :=
      [.multistep 9, .changeKey 7 false, .decrementTimers, .changeKey 16 true, .tick]
    let waited := (patient.run dice operations).machine
    let between : List Operation :=
      [.choose { Settings.standard with paused := true }, .tick, .choose Settings.standard]
    let press := waited.changeKey 3 true
    let ready := press.machine.run dice between
    patient.Reachable ∧ patient.state = .awaitingKey 5 ∧
      (∀ operation ∈ operations, operation.leavesWait = true) ∧
      waited.state = .awaitingKey 5 ∧ press.result = .ok false ∧
      (press.machine.registers.read (5 : UInt64).toNat).toNat = 3 ∧
      press.machine.Rests dice between ∧
      ready.machine.FetchesAt ready.dice 0x202 := by
  intro dice operations waited between press ready
  have reachable : patient.Reachable := (Reachable.fresh .standard).run _ _
  have awaiting : patient.state = .awaitingKey 5 := by decide +kernel
  have leaves : ∀ operation ∈ operations, operation.leavesWait = true := by decide
  obtain ⟨-, stillAwaiting, -, -, presses⟩ := press_ends_wait reachable awaiting dice leaves
  obtain ⟨answered, -, stored, -, resumes⟩ := presses 3 (by decide)
  have held : waited.keypad.isHeld 3 = true := by decide +kernel
  have origin : patient.fetched.address.toNat + 2 = 0x202 := by decide +kernel
  have unpaused : ready.machine.settings.paused = false := by decide +kernel
  have rests : press.machine.Rests dice between :=
    And.intro trivial (And.intro rfl (And.intro trivial trivial))
  have fetches := resumes dice between rests unpaused
  refine ⟨reachable, awaiting, leaves, stillAwaiting, ?_, ?_, rests, ?_⟩
  · have known : press.result = .ok (!waited.keypad.isHeld 3) := answered
    rw [known, held]
    rfl
  · simpa only [press, waited] using stored
  · exact origin ▸ fetches

end Machine

end Chip8
