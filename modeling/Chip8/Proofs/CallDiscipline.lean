import Chip8.Proofs.Decoding
import Chip8.Proofs.Histories
import Chip8.Proofs.Ticking

/-!
Calls return to where they were made. Whatever a subroutine does, and whatever a host does
meanwhile short of loading and resetting, the return address and the stack of the caller
stay where they are until a return takes them off, and that return goes back to the caller.
-/

namespace Chip8

/-- Whether the program that runs is still the same one after an operation of the host. -/
def Operation.keepsProgram : Operation → Bool
  | .load _ => false
  | .reset => false
  | _ => true

namespace Machine

variable {machine : Machine} {dice : Dice} {address : UInt16} {stack : List UInt16}

/-! ### The stack over one step -/

/-- A tick leaves the stack alone, calls a subroutine or returns from one. -/
inductive StackMove (machine : Machine) (dice : Dice) : Prop
  | same (stack : (machine.tick dice).machine.stack = machine.stack)
  | push (word : UInt16) (called : machine.Executes dice word)
      (named : word.toNat / 4096 = 0x2)
      (stack : (machine.tick dice).machine.stack = (machine.pc + 2) :: machine.stack)
  | pop (returned : machine.Executes dice 0x00ee)
      (stack : machine.stack =
        (machine.tick dice).machine.pc :: (machine.tick dice).machine.stack)

theorem stackMove_tick (machine : Machine) (dice : Dice) : StackMove machine dice := by
  have ticks := ticks_tick machine dice
  generalize ticked : machine.tick dice = outcome at ticks
  cases ticks with
  | idle still => exact .same (by rw [ticked]; rfl)
  | astray outside busy => exact .same (by rw [ticked])
  | unknown word busy fetched undecoded => exact .same (by rw [ticked]; rfl)
  | refused word instruction fault busy fetched decoded refused =>
      exact .same (by rw [ticked]; rfl)
  | executed word instruction after busy fetched decoded ran =>
      have executes : machine.Executes dice word := ⟨busy, fetched, by rw [ticked]⟩
      rcases (effect_of_execute ran).flow.stack_cases with
        same | ⟨target, rfl, room, pushed⟩ | ⟨rfl, popped⟩
      · refine .same ?_
        rw [ticked]
        exact same
      · refine .push word executes (Instruction.ofWord?_eq_call_iff.mp decoded).1 ?_
        rw [ticked]
        exact pushed
      · have returns : word = 0x00ee :=
          UInt16.toNat.inj (Instruction.ofWord?_eq_ret_iff.mp decoded)
        refine .pop (returns ▸ executes) ?_
        rw [ticked]
        exact popped

private theorem stack_of_called {word : UInt16} (called : machine.Executes dice word)
    (named : word.toNat / 4096 = 0x2) :
    (machine.tick dice).machine.stack = (machine.pc + 2) :: machine.stack := by
  obtain ⟨busy, fetched, succeeded⟩ := called
  obtain ⟨target, decoded⟩ := Instruction.exists_call_of_named named
  by_cases room : machine.stack.length < stackDepth
  · have ran : (machine.poised word).execute dice.roll (.address .call target) =
        .ok { machine.poised word with
              stack := (machine.pc + 2) :: machine.stack
              pc := target } := if_pos room
    rw [tick_of_executed busy fetched decoded ran]
  · have full : stackDepth ≤ (machine.poised word).stack.length := Nat.le_of_not_lt room
    have refused := (tick_of_obstacle busy fetched decoded (.overflow target full) dice).1
    rw [refused] at succeeded
    cases succeeded

private theorem tick_depth (machine : Machine) (dice : Dice) :
    (machine.tick dice).machine.stack.length ≤ machine.stack.length + 1 ∧
      machine.stack.length ≤ (machine.tick dice).machine.stack.length + 1 := by
  cases stackMove_tick machine dice with
  | same stack => rw [stack]; omega
  | push word called named stack => rw [stack, List.length_cons]; omega
  | pop returned stack =>
      have length := congrArg List.length stack
      rw [List.length_cons] at length
      omega

private theorem changeKey_stack (machine : Machine) (key : Nat) (pressed : Bool) :
    (machine.changeKey key pressed).machine.stack = machine.stack := by
  unfold changeKey setRegister
  repeat' split
  all_goals rfl

private theorem apply_stack {operation : Operation} (kept : operation.keepsProgram = true)
    (single : ∀ count, operation ≠ .multistep count) (noTick : operation ≠ .tick) :
    (operation.apply machine dice).machine.stack = machine.stack := by
  cases operation with
  | load program => cases kept
  | reset => cases kept
  | tick => exact absurd rfl noTick
  | multistep count => exact absurd rfl (single count)
  | changeKey key pressed => exact changeKey_stack machine key pressed
  | decrementTimers => rfl
  | setRegister register value =>
      change (machine.setRegister register value).machine.stack = machine.stack
      unfold setRegister
      split
      · rfl
      · rfl
  | choose settings => rfl

/-- One step keeps a frame on the stack, or it is the return that takes the frame off. -/
theorem frame_step (dice : Dice) {operation : Operation}
    (kept : operation.keepsProgram = true) (single : ∀ count, operation ≠ .multistep count)
    (framed : (address :: stack) <:+ machine.stack) :
    (address :: stack) <:+ (operation.apply machine dice).machine.stack ∨
      operation = .tick ∧ machine.Executes dice 0x00ee ∧
        (operation.apply machine dice).machine.stack = stack ∧
        (operation.apply machine dice).machine.pc = address := by
  by_cases ticks : operation = .tick
  · subst ticks
    change (address :: stack) <:+ (machine.tick dice).machine.stack ∨
      _ ∧ _ ∧ (machine.tick dice).machine.stack = stack ∧
        (machine.tick dice).machine.pc = address
    cases stackMove_tick machine dice with
    | same same =>
        rw [same]
        exact .inl framed
    | push word called named pushed =>
        rw [pushed]
        exact .inl (framed.trans (List.suffix_cons _ _))
    | pop returned popped =>
        rw [popped] at framed
        rcases List.suffix_cons_iff.mp framed with top | below
        · obtain ⟨sameAddress, sameStack⟩ := List.cons.inj top
          exact .inr ⟨rfl, returned, sameStack.symm, sameAddress.symm⟩
        · exact .inl below
  · rw [apply_stack kept single ticks]
    exact .inl framed

/-! ### The stack over a run -/

private theorem frame_run {steps : List Operation} (framed : (address :: stack) <:+ machine.stack)
    (kept : ∀ step ∈ steps, step.keepsProgram = true)
    (single : ∀ step ∈ steps, ∀ count, step ≠ .multistep count) {count : Nat}
    (within : count ≤ steps.length)
    (deeper : ∀ earlier ≤ count,
      stack.length < (machine.run dice (steps.take earlier)).machine.stack.length) :
    (address :: stack) <:+ (machine.run dice (steps.take count)).machine.stack := by
  induction count with
  | zero => exact framed
  | succ count ih =>
      have before := ih (Nat.le_of_succ_le within)
        fun earlier bound => deeper earlier (Nat.le_succ_of_le bound)
      have member : steps[count] ∈ steps := List.getElem_mem within
      have now := deeper (count + 1) (Nat.le_refl _)
      rw [run_take_succ machine dice within] at now ⊢
      -- the step that takes the frame off leaves only what lies below it
      rcases frame_step _ (kept _ member) (single _ member) before with stays | ⟨-, -, gone, -⟩
      · exact stays
      · rw [gone] at now
        exact absurd now (Nat.lt_irrefl _)

/-- A call puts the address behind it on the stack and is matched by a return. As long as the
stack is deeper than it was at the call, the frame of the caller lies on it unchanged; the first
step to bring it back down is a return, to the address behind the call. -/
theorem call_returns_to_caller {word : UInt16} (called : machine.Executes dice word)
    (named : word.toNat / 4096 = 0x2) (later : Dice) (operations : List Operation)
    (kept : ∀ operation ∈ operations, operation.keepsProgram = true) :
    let inside := (machine.tick dice).machine
    let steps := inside.unroll later operations
    let reached (count : Nat) := inside.run later (steps.take count)
    let deeper (count : Nat) := ∀ earlier ≤ count,
      machine.stack.length < (reached earlier).machine.stack.length
    inside.stack = (machine.pc + 2) :: machine.stack ∧
      (inside.run later steps).remains = (inside.run later operations).remains ∧
      (∀ count ≤ steps.length, deeper count →
        ((machine.pc + 2) :: machine.stack) <:+ (reached count).machine.stack) ∧
      (∀ count, (within : count < steps.length) → deeper count →
        (reached (count + 1)).machine.stack.length ≤ machine.stack.length →
        steps[count] = .tick ∧
          (reached count).machine.Executes (reached count).dice 0x00ee ∧
          (reached (count + 1)).machine.stack = machine.stack ∧
          (reached (count + 1)).machine.pc = machine.pc + 2) ∧
      ∀ state rolls,
        (tick state rolls).machine.stack.length ≤ state.stack.length + 1 ∧
          state.stack.length ≤ (tick state rolls).machine.stack.length + 1 := by
  intro inside steps reached deeper
  have pushed : inside.stack = (machine.pc + 2) :: machine.stack :=
    stack_of_called called named
  have framed : ((machine.pc + 2) :: machine.stack) <:+ inside.stack := ⟨[], pushed.symm⟩
  have keptSteps : ∀ step ∈ steps, step.keepsProgram = true := by
    intro step member
    rcases mem_unroll member with rfl | ⟨present, -⟩
    · rfl
    · exact kept step present
  have singleSteps : ∀ step ∈ steps, ∀ count, step ≠ .multistep count := by
    intro step member
    rcases mem_unroll member with rfl | ⟨-, single⟩
    · exact fun count => nofun
    · exact single
  have stays (count : Nat) (within : count ≤ steps.length) (below : deeper count) :
      ((machine.pc + 2) :: machine.stack) <:+ (reached count).machine.stack :=
    frame_run framed keptSteps singleSteps within below
  refine ⟨pushed, run_unroll inside later operations, stays, ?_, tick_depth⟩
  intro count within below shallow
  have member : steps[count] ∈ steps := List.getElem_mem within
  have stepped : (reached (count + 1)).machine =
      (steps[count].apply (reached count).machine (reached count).dice).machine :=
    run_take_succ inside later within
  rw [stepped] at shallow ⊢
  rcases frame_step (reached count).dice (keptSteps _ member)
      (singleSteps _ member) (stays count (Nat.le_of_lt within) below) with deep | returned
  · have length := deep.length_le
    rw [List.length_cons] at length
    omega
  · exact returned

def calling : Machine :=
  { standard with memory := Memory.zeroed.store 0x200 [0x22, 0x04, 0x00, 0x00, 0x00, 0xee] }

/-- A key pressed inside the subroutine does not disturb the return. The batch goes on after
it and fails at the word behind the call, which is no instruction. -/
theorem calling_returns :
    let dice : Dice := { source := fun _ => 0, taken := 0 }
    let inside := (calling.tick dice).machine
    let steps := inside.unroll dice [.changeKey 3 true, .multistep 4]
    let reached := (inside.run dice (steps.take 2)).machine
    calling.Executes dice 0x2204 ∧ (0x2204 : UInt16).toNat / 4096 = 0x2 ∧
      inside.stack = [0x202] ∧ steps = [.changeKey 3 true, .tick, .tick] ∧
      reached.stack = [] ∧ reached.pc = 0x202 := by
  intro dice
  have called : calling.Executes dice 0x2204 := by decide +kernel
  obtain ⟨pushed, -, -, returns, -⟩ := call_returns_to_caller called rfl dice
    [.changeKey 3 true, .multistep 4] (by decide)
  obtain ⟨-, -, stack, pc⟩ := returns 1 (by decide +kernel) (by decide +kernel) (by decide +kernel)
  exact ⟨called, rfl, pushed, by decide +kernel, stack, pc⟩

end Machine

end Chip8
