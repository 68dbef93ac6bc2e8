import Chip8.Proofs.Comparison
import Chip8.Proofs.Decoding

/-!
When the timers are decremented does not matter to a program that does not read them. Two
histories that differ only in where timer decrements stand between the other operations give the
same results, execute the same words, print the same and leave the same machine but for its
timers, unless an instruction reads the delay timer.
-/

namespace Chip8

open Outcome (Agrees)

/-- The word of an instruction that reads the delay timer. -/
def ReadsDelay (word : UInt16) : Prop :=
  word.toNat / 4096 = 0xf ∧ word.toNat % 256 = 0x07

instance (word : UInt16) : Decidable (ReadsDelay word) :=
  inferInstanceAs (Decidable (_ ∧ _))

private theorem readsDelay_of_decoded {word : UInt16} {x : UInt64}
    (decoded : Instruction.ofWord? word = some (.register .readDelay x)) : ReadsDelay word := by
  obtain ⟨first, last, -⟩ := (Instruction.ofWord?_eq_register_iff 0xf 0x0 0x7
    (by decide) (by decide) rfl).mp decoded
  exact ⟨first, last⟩

namespace Machine

def SameButTimers (first second : Machine) : Prop :=
  ∃ delay sound, second = { first with delay, sound }

theorem sameButTimers_refl (machine : Machine) : machine.SameButTimers machine :=
  ⟨machine.delay, machine.sound, rfl⟩

theorem SameButTimers.symm {first second : Machine} (same : first.SameButTimers second) :
    second.SameButTimers first := by
  obtain ⟨delay, sound, rfl⟩ := same
  exact ⟨first.delay, first.sound, rfl⟩

theorem SameButTimers.trans {first second third : Machine} (left : first.SameButTimers second)
    (right : second.SameButTimers third) : first.SameButTimers third := by
  obtain ⟨_, _, rfl⟩ := left
  obtain ⟨delay, sound, rfl⟩ := right
  exact ⟨delay, sound, rfl⟩

theorem sameButTimers_decrementTimers (machine : Machine) :
    machine.SameButTimers machine.decrementTimers :=
  ⟨countDown machine.delay, countDown machine.sound, rfl⟩

/-! ### One instruction -/

section Execution

variable (machine : Machine) (delay sound : UInt8)

def Retimes (first second : Except Fault Machine) : Prop :=
  ∃ delay sound, second = first.map fun after => { after with delay, sound }

theorem retimes_withBlock {length : Nat} {first second : Machine}
    (same : first.SameButTimers second) :
    Retimes (machine.withBlock length first)
      (({ machine with delay, sound } : Machine).withBlock length second) := by
  obtain ⟨laterDelay, laterSound, rfl⟩ := same
  refine ⟨laterDelay, laterSound, ?_⟩
  by_cases inside : machine.Reaches length
  · have sameInside : ({ machine with delay, sound } : Machine).Reaches length := inside
    rw [withBlock, withBlock, if_pos inside, if_pos sameInside]
    rfl
  · have sameOutside : ¬ ({ machine with delay, sound } : Machine).Reaches length := inside
    rw [withBlock, withBlock, if_neg inside, if_neg sameOutside]
    rfl

theorem sameButTimers_skipIf (condition : Bool) :
    (machine.skipIf condition).SameButTimers
      (({ machine with delay, sound } : Machine).skipIf condition) := by
  rw [skipIf_eq, skipIf_eq]
  exact ⟨delay, sound, rfl⟩

theorem sameButTimers_passBlock (length : Nat) :
    (machine.passBlock length).SameButTimers
      (({ machine with delay, sound } : Machine).passBlock length) := by
  rw [passBlock_eq, passBlock_eq]
  exact ⟨delay, sound, rfl⟩

theorem SameButTimers.retimes {first second : Machine} (same : first.SameButTimers second) :
    Retimes (.ok first) (.ok second) := by
  obtain ⟨delay, sound, rfl⟩ := same
  exact ⟨delay, sound, rfl⟩

private theorem retimes_bare (op : BareOp) :
    Retimes (machine.executeBare op)
      (({ machine with delay, sound } : Machine).executeBare op) := by
  cases op with
  | clearScreen => exact ⟨delay, sound, rfl⟩
  | ret =>
      refine ⟨delay, sound, ?_⟩
      cases stackAt : machine.stack with
      | nil => simp only [executeBare, stackAt, Except.map]
      | cons address rest => simp only [executeBare, stackAt, Except.map]

private theorem retimes_address (target : UInt16) (op : AddressOp) :
    Retimes (machine.executeAddress target op)
      (({ machine with delay, sound } : Machine).executeAddress target op) := by
  refine ⟨delay, sound, ?_⟩
  cases op with
  | call =>
      by_cases room : machine.stack.length < stackDepth
      · simp only [executeAddress, if_pos room, Except.map]
      · simp only [executeAddress, if_neg room, Except.map]
  | jump => rfl
  | loadIndex => rfl
  | jumpIndexed => rfl

private theorem retimes_byte (roll : UInt8) (x : UInt64) (value : UInt8) (op : ByteOp) :
    (machine.executeByte roll x value op).SameButTimers
      (({ machine with delay, sound } : Machine).executeByte roll x value op) := by
  cases op with
  | skipEqual => exact sameButTimers_skipIf machine delay sound _
  | skipUnequal => exact sameButTimers_skipIf machine delay sound _
  | load => exact ⟨delay, sound, rfl⟩
  | add => exact ⟨delay, sound, rfl⟩
  | random => exact ⟨delay, sound, rfl⟩

private theorem retimes_register {x : UInt64} {op : RegisterOp} (unread : op ≠ .readDelay) :
    Retimes (machine.executeRegister x op)
      (({ machine with delay, sound } : Machine).executeRegister x op) := by
  cases op with
  | readDelay => exact absurd rfl unread
  | skipHeld => exact (sameButTimers_skipIf machine delay sound _).retimes
  | skipReleased => exact (sameButTimers_skipIf machine delay sound _).retimes
  | setDelay => exact ⟨machine.read x, sound, rfl⟩
  | setSound => exact ⟨delay, machine.read x, rfl⟩
  | awaitKey => exact ⟨delay, sound, rfl⟩
  | addIndex => exact ⟨delay, sound, rfl⟩
  | glyph => exact ⟨delay, sound, rfl⟩
  | decimal => exact retimes_withBlock machine delay sound ⟨delay, sound, rfl⟩
  | store =>
      exact retimes_withBlock machine delay sound (sameButTimers_passBlock _ delay sound _)
  | load =>
      exact retimes_withBlock machine delay sound (sameButTimers_passBlock _ delay sound _)

private theorem retimes_execute (roll : UInt8) {instruction : Instruction}
    (unread : ∀ x, instruction ≠ .register .readDelay x) :
    Retimes (machine.execute roll instruction)
      (({ machine with delay, sound } : Machine).execute roll instruction) := by
  cases instruction with
  | bare op => exact retimes_bare machine delay sound op
  | address op target => exact retimes_address machine delay sound target op
  | byte op x value => exact (retimes_byte machine delay sound roll x value op).retimes
  | pair op x y => exact (sameButTimers_skipIf _ delay sound _).retimes
  | sprite x y rows =>
      rw [execute, execute, executeSprite_eq, executeSprite_eq]
      exact retimes_withBlock machine delay sound ⟨delay, sound, rfl⟩
  | register op x =>
      exact retimes_register machine delay sound fun same => unread x (same ▸ rfl)

end Execution

/-! ### One tick -/

private theorem executesAlike_timers :
    ExecutesAlike SameButTimers fun word => ¬ ReadsDelay word := by
  intro first second word instruction roll same decoded harmless
  obtain ⟨delay, sound, rfl⟩ := same
  have unread (x : UInt64) : instruction ≠ .register .readDelay x := by
    rintro rfl
    exact harmless _ rfl (readsDelay_of_decoded decoded)
  obtain ⟨laterDelay, laterSound, commutes⟩ := retimes_execute first delay sound roll unread
  cases ran : first.execute roll instruction with
  | error fault =>
      rw [ran] at commutes
      rw [commutes]
      exact .refused fault
  | ok after =>
      rw [ran] at commutes
      rw [commutes]
      exact .executed ⟨laterDelay, laterSound, rfl⟩

private theorem fetchesAlike_timers : FetchesAlike SameButTimers :=
  { isIdle := by
      rintro first second ⟨delay, sound, rfl⟩
      rfl
    pc := by
      rintro first second ⟨delay, sound, rfl⟩
      rfl
    memory := by
      rintro first second ⟨delay, sound, rfl⟩
      rfl
    afterFetch := by
      rintro first second ⟨delay, sound, rfl⟩ word
      exact ⟨delay, sound, rfl⟩
    countCycle := by
      rintro first second ⟨delay, sound, rfl⟩
      exact ⟨delay, sound, rfl⟩ }

theorem tellsAlike_timers : TellsAlike SameButTimers := by
  rintro first second ⟨delay, sound, rfl⟩
  rfl

theorem ticksAlike_timers : TicksAlike SameButTimers fun word => ¬ ReadsDelay word :=
  executesAlike_timers.ticksAlike fetchesAlike_timers

/-! ### One operation -/

section Requests

variable {first second : Machine}

private theorem agrees_load (same : first.SameButTimers second) (dice : Dice)
    (program : List UInt8) :
    Agrees SameButTimers (Outcome.ofReply dice (first.load program))
      (Outcome.ofReply dice (second.load program)) := by
  obtain ⟨delay, sound, rfl⟩ := same
  by_cases long : Region.program.capacity < program.length
  · rw [load, load, if_pos long, if_pos long]
    exact ⟨rfl, rfl, fun _ => rfl, delay, sound, rfl⟩
  · -- a load that is not refused forgets the timers before it does anything else
    have forgotten : ({ first with delay, sound } : Machine).load program =
        first.load program := by
      rw [load, load, if_neg long, if_neg long]
      rfl
    rw [forgotten]
    exact ⟨rfl, rfl, fun _ => rfl, sameButTimers_refl _⟩

private theorem agrees_setRegister (same : first.SameButTimers second) (dice : Dice)
    (register : Nat) (value : UInt8) :
    Agrees SameButTimers (Outcome.ofReply dice (first.setRegister register value))
      (Outcome.ofReply dice (second.setRegister register value)) := by
  obtain ⟨delay, sound, rfl⟩ := same
  unfold setRegister
  split
  · exact ⟨rfl, rfl, fun _ => rfl, delay, sound, rfl⟩
  · exact ⟨rfl, rfl, fun _ => rfl, delay, sound, rfl⟩

private theorem agrees_changeKey (same : first.SameButTimers second) (dice : Dice) (key : Nat)
    (pressed : Bool) :
    Agrees SameButTimers (Outcome.ofReply dice (first.changeKey key pressed))
      (Outcome.ofReply dice (second.changeKey key pressed)) := by
  obtain ⟨delay, sound, rfl⟩ := same
  by_cases present : key < Keypad.count
  · rw [changeKey, changeKey, if_pos present, if_pos present]
    cases pressed with
    | false => exact ⟨rfl, rfl, fun _ => rfl, delay, sound, rfl⟩
    | true =>
        cases stateAt : first.state with
        | running =>
            simp only
            exact ⟨rfl, rfl, fun _ => rfl, delay, sound, rfl⟩
        | awaitingKey register =>
            simp only [setRegister]
            by_cases existing : register.toNat < Registers.count
            · simp only [if_pos existing]
              exact ⟨rfl, rfl, fun _ => rfl, delay, sound, rfl⟩
            · simp only [if_neg existing]
              exact ⟨rfl, rfl, fun _ => rfl, delay, sound, rfl⟩
  · rw [changeKey, changeKey, if_neg present, if_neg present]
    exact ⟨rfl, rfl, fun _ => rfl, delay, sound, rfl⟩

theorem agrees_apply (same : first.SameButTimers second) {operation : Operation}
    (kept : operation ≠ .decrementTimers) {dice : Dice}
    (unread : ∀ word ∈ operation.executed first dice, ¬ ReadsDelay word) :
    Agrees SameButTimers (operation.apply first dice) (operation.apply second dice) ∧
      operation.executed second dice = operation.executed first dice := by
  cases operation with
  | decrementTimers => exact absurd rfl kept
  | load program => exact ⟨(agrees_load same dice program).map _, rfl⟩
  | reset =>
      obtain ⟨delay, sound, rfl⟩ := same
      exact ⟨⟨rfl, rfl, fun _ => rfl, sameButTimers_refl first.reset⟩, rfl⟩
  | tick =>
      obtain ⟨ticked, sameWord⟩ := ticksAlike_timers first second dice same fun word executed =>
        unread word (Option.mem_toList.mpr executed)
      exact ⟨ticked.map _, congrArg Option.toList sameWord⟩
  | multistep count =>
      obtain ⟨batch, sameWords⟩ := ticksAlike_timers.multistep same unread
      exact ⟨batch.map _, sameWords⟩
  | changeKey key pressed => exact ⟨(agrees_changeKey same dice key pressed).map _, rfl⟩
  | setRegister register value =>
      exact ⟨(agrees_setRegister same dice register value).map _, rfl⟩
  | choose settings =>
      obtain ⟨delay, sound, rfl⟩ := same
      exact ⟨⟨rfl, rfl, fun _ => rfl, delay, sound, rfl⟩, rfl⟩

end Requests

end Machine

/-! ### Histories with other decrements -/

/-- A history without its timer decrements. -/
def besidesTimers (operations : List Operation) : List Operation :=
  operations.filter (· ≠ .decrementTimers)

def resultsBesidesTimers (operations : List Operation) (results : List (Except Fault Answer)) :
    List (Except Fault Answer) :=
  ((operations.zip results).filter (·.1 ≠ .decrementTimers)).map Prod.snd

/-- Two histories that differ only in where timer decrements stand. -/
inductive Rescheduled : List Operation → List Operation → Prop
  | nil : Rescheduled [] []
  | both (operation : Operation) (kept : operation ≠ .decrementTimers)
      {left right : List Operation} (rest : Rescheduled left right) :
      Rescheduled (operation :: left) (operation :: right)
  | left {left right : List Operation} (rest : Rescheduled left right) :
      Rescheduled (.decrementTimers :: left) right
  | right {left right : List Operation} (rest : Rescheduled left right) :
      Rescheduled left (.decrementTimers :: right)

theorem besidesTimers_cons {operation : Operation} (kept : operation ≠ .decrementTimers)
    (operations : List Operation) :
    besidesTimers (operation :: operations) = operation :: besidesTimers operations :=
  List.filter_cons_of_pos (decide_eq_true kept)

private theorem resultsBesidesTimers_decrement (operations : List Operation)
    (result : Except Fault Answer) (results : List (Except Fault Answer)) :
    resultsBesidesTimers (.decrementTimers :: operations) (result :: results) =
      resultsBesidesTimers operations results :=
  rfl

theorem resultsBesidesTimers_cons {operation : Operation} (kept : operation ≠ .decrementTimers)
    (operations : List Operation) (result : Except Fault Answer)
    (results : List (Except Fault Answer)) :
    resultsBesidesTimers (operation :: operations) (result :: results) =
      result :: resultsBesidesTimers operations results := by
  have stays : decide (operation ≠ .decrementTimers) = true := decide_eq_true kept
  simp only [resultsBesidesTimers, List.zip_cons_cons, List.filter_cons, stays, if_true,
    List.map_cons]

theorem Rescheduled.symm {left right : List Operation} (woven : Rescheduled left right) :
    Rescheduled right left := by
  induction woven with
  | nil => exact .nil
  | both operation kept rest ih => exact .both operation kept ih
  | left rest ih => exact .right ih
  | right rest ih => exact .left ih

private theorem rescheduled_of_cons {operation : Operation} (kept : operation ≠ .decrementTimers)
    {left right : List Operation}
    (ih : ∀ later, besidesTimers left = besidesTimers later → Rescheduled left later)
    (same : operation :: besidesTimers left = besidesTimers right) :
    Rescheduled (operation :: left) right := by
  induction right with
  | nil => cases same
  | cons head right inner =>
      by_cases decrement : head = .decrementTimers
      · subst decrement
        exact .right (inner same)
      · rw [besidesTimers_cons decrement] at same
        obtain ⟨rfl, sameRest⟩ := List.cons.inj same
        exact .both operation kept (ih right sameRest)

private theorem rescheduled_of_same {left right : List Operation}
    (same : besidesTimers left = besidesTimers right) : Rescheduled left right := by
  induction left generalizing right with
  | nil =>
      induction right with
      | nil => exact .nil
      | cons head right inner =>
          by_cases decrement : head = .decrementTimers
          · subst decrement
            exact .right (inner same)
          · rw [besidesTimers_cons decrement] at same
            cases same
  | cons operation left ih =>
      by_cases decrement : operation = .decrementTimers
      · subst decrement
        exact .left (ih same)
      · rw [besidesTimers_cons decrement] at same
        exact rescheduled_of_cons decrement (fun later => ih) same

namespace Machine

/-- What two rescheduled histories have in common, whatever they do to the timers. -/
structure SameBesidesTimers (first second : Machine) (dice : Dice)
    (left right : List Operation) : Prop where
  executed : second.executed dice right = first.executed dice left
  results : resultsBesidesTimers right (second.run dice right).results =
    resultsBesidesTimers left (first.run dice left).results
  trace : (second.run dice right).trace = (first.run dice left).trace
  rolled : (second.run dice right).dice = (first.run dice left).dice
  machine : (first.run dice left).machine.SameButTimers (second.run dice right).machine

section

variable {first second : Machine} {dice : Dice} {left right : List Operation}

theorem SameBesidesTimers.symm (same : SameBesidesTimers first second dice left right) :
    SameBesidesTimers second first dice right left :=
  ⟨same.executed.symm, same.results.symm, same.trace.symm, same.rolled.symm, same.machine.symm⟩

theorem run_decrementTimers (machine : Machine) (dice : Dice) (operations : List Operation) :
    machine.run dice (.decrementTimers :: operations) =
      let rest := machine.decrementTimers.run dice operations
      { rest with results := .ok (.yesNo machine.toneEnds) :: rest.results } := by
  simp only [run, Operation.apply, Outcome.ofReply, List.append_nil]

theorem SameBesidesTimers.decremented
    (same : SameBesidesTimers first.decrementTimers second dice left right) :
    SameBesidesTimers first second dice (.decrementTimers :: left) right := by
  refine ⟨same.executed, ?_, ?_, ?_, ?_⟩
  · rw [run_decrementTimers, resultsBesidesTimers_decrement]
    exact same.results
  · rw [run_decrementTimers]
    exact same.trace
  · rw [run_decrementTimers]
    exact same.rolled
  · rw [run_decrementTimers]
    exact same.machine

theorem SameBesidesTimers.cons {operation : Operation} (kept : operation ≠ .decrementTimers)
    (agrees : Agrees SameButTimers (operation.apply first dice) (operation.apply second dice))
    (sameWords : operation.executed second dice = operation.executed first dice)
    (same : SameBesidesTimers (operation.apply first dice).machine
      (operation.apply second dice).machine (operation.apply first dice).dice left right) :
    SameBesidesTimers first second dice (operation :: left) (operation :: right) := by
  refine ⟨?_, ?_, ?_, ?_, ?_⟩
  · rw [Machine.executed, Machine.executed, sameWords, agrees.dice, same.executed]
  · rw [run, run, resultsBesidesTimers_cons kept, resultsBesidesTimers_cons kept,
      agrees.result, agrees.dice, same.results]
  · rw [run, run]
    dsimp only
    rw [agrees.dice, agrees.trace tellsAlike_timers, same.trace]
  · rw [run, run]
    dsimp only
    rw [agrees.dice, same.rolled]
  · rw [run, run]
    dsimp only
    rw [agrees.dice]
    exact same.machine

theorem same_of_rescheduled (woven : Rescheduled left right) (same : first.SameButTimers second)
    (unread : ∀ word ∈ first.executed dice left, ¬ ReadsDelay word) :
    SameBesidesTimers first second dice left right := by
  induction woven generalizing first second dice with
  | nil => exact ⟨rfl, rfl, rfl, rfl, same⟩
  | left rest ih =>
      have decremented := first.sameButTimers_decrementTimers.symm.trans same
      exact (ih decremented unread).decremented
  | right rest ih =>
      have decremented := same.trans second.sameButTimers_decrementTimers
      exact (ih decremented unread).symm.decremented.symm
  | both operation kept rest ih =>
      rw [executed] at unread
      obtain ⟨agrees, sameWords⟩ := agrees_apply same kept fun word member =>
        unread word (List.mem_append_left _ member)
      have later := ih agrees.machine fun word member =>
        unread word (List.mem_append_right _ member)
      exact later.cons kept agrees sameWords

end

/-- Where timer decrements stand in a history is not noticed, by its results, its words, its
trace or the machine it leaves, unless the history executes an instruction that reads the delay
timer; and that as well does not depend on where they stand. -/
theorem timer_schedule_unnoticed (machine : Machine) (dice : Dice) {left right : List Operation}
    (rescheduled : besidesTimers left = besidesTimers right)
    (unread : (∀ word ∈ machine.executed dice left, ¬ ReadsDelay word) ∨
      ∀ word ∈ machine.executed dice right, ¬ ReadsDelay word) :
    let first := machine.run dice left
    let second := machine.run dice right
    ((∀ word ∈ machine.executed dice left, ¬ ReadsDelay word) ∧
        ∀ word ∈ machine.executed dice right, ¬ ReadsDelay word) ∧
      machine.executed dice right = machine.executed dice left ∧
      resultsBesidesTimers right second.results = resultsBesidesTimers left first.results ∧
      second.trace = first.trace ∧ second.dice = first.dice ∧
      second.machine =
        { first.machine with delay := second.machine.delay, sound := second.machine.sound } := by
  intro first second
  have woven := rescheduled_of_same rescheduled
  have same : SameBesidesTimers machine machine dice left right := by
    rcases unread with unread | unread
    · exact same_of_rescheduled woven machine.sameButTimers_refl unread
    · exact (same_of_rescheduled woven.symm machine.sameButTimers_refl unread).symm
  have neither : ∀ word ∈ machine.executed dice left, ¬ ReadsDelay word := by
    rcases unread with unread | unread
    · exact unread
    · rw [← same.executed]
      exact unread
  refine ⟨⟨neither, ?_⟩, same.executed, same.results, same.trace, same.rolled, ?_⟩
  · rw [same.executed]
    exact neither
  · obtain ⟨delay, sound, differ⟩ := same.machine
    have known : second.machine = { first.machine with delay, sound } := differ
    rw [known]

def adding : Machine :=
  { standard with
    memory := Memory.zeroed.store 0x200
      [0x60, 0x05, 0xf0, 0x15, 0x71, 0x01, 0x12, 0x04] }

/-- The timer is decremented at other places, and so the timers end apart. -/
theorem adding_alike :
    let dice : Dice := { source := fun _ => 0, taken := 0 }
    let left : List Operation :=
      [.decrementTimers, .multistep 2, .decrementTimers, .changeKey 2 true, .decrementTimers,
        .multistep 2, .decrementTimers]
    let right : List Operation :=
      [.multistep 2, .changeKey 2 true, .multistep 2, .decrementTimers]
    let first := adding.run dice left
    let second := adding.run dice right
    besidesTimers left = besidesTimers right ∧
      (∀ word ∈ adding.executed dice left, ¬ ReadsDelay word) ∧
      adding.executed dice right = adding.executed dice left ∧
      first.machine.delay = 2 ∧ second.machine.delay = 4 ∧
      second.machine =
        { first.machine with delay := second.machine.delay, sound := second.machine.sound } := by
  intro dice left right first second
  have rescheduled : besidesTimers left = besidesTimers right := by decide
  have checked :
      (adding.executed dice left).all (fun word => !decide (ReadsDelay word)) = true := by
    decide +kernel
  have unread : ∀ word ∈ adding.executed dice left, ¬ ReadsDelay word := by
    simpa only [List.all_eq_true, Bool.not_eq_true', decide_eq_false_iff_not] using checked
  obtain ⟨-, sameWords, -, -, -, machine⟩ :=
    timer_schedule_unnoticed adding dice rescheduled (.inl unread)
  exact ⟨rescheduled, unread, sameWords, by decide +kernel, by decide +kernel, machine⟩

end Machine

end Chip8
