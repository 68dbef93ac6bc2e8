import Mathlib.Data.List.Induction
import Mathlib.Logic.Function.Basic
import Chip8.Proofs.TimerDeeds

/-!
Timer threads on one shared machine. Any number of loops take their turns in any order, and
requests through handles come in between. A log tells what each turn did. Read for one loop, it
accounts for the loop's beeps, whatever the other loops and the handles do meanwhile.
-/

namespace Chip8

structure TimerThreads (count : Nat) where
  guarded : Guarded
  loops : Fin count → TimerLoop
  /-- The loops that have been asked to stop. -/
  asked : Fin count → Bool

/-- What happens next: a loop takes a turn, is asked to stop, or a request through a handle is
served. -/
inductive Event (count : Nat)
  | turn (index : Fin count) (beeperCrashes : Bool)
  | ask (index : Fin count)
  | request (request : Request)

inductive LogEntry (count : Nat)
  | turned (index : Fin count) (deed : Deed)
  | asked (index : Fin count)
  | served (request : Request) (response : Response)

def Event.isTurnOf {count : Nat} (index : Fin count) : Event count → Bool
  | .turn other _ => other = index
  | _ => false

theorem Event.eq_turn_of_isTurnOf {count : Nat} {index : Fin count} {event : Event count}
    (own : event.isTurnOf index = true) : ∃ beeperCrashes, event = .turn index beeperCrashes := by
  cases event with
  | turn other beeperCrashes =>
      obtain rfl : other = index := of_decide_eq_true own
      exact ⟨beeperCrashes, rfl⟩
  | ask other => cases own
  | request request => cases own

namespace TimerThreads

variable {count : Nat}

def started (guarded : Guarded) : TimerThreads count :=
  { guarded, loops := fun _ => .start, asked := fun _ => false }

def step (threads : TimerThreads count) : Event count → LogEntry count × TimerThreads count
  | .turn index beeperCrashes =>
      let loop := threads.loops index
      let asked := threads.asked index
      let after := loop.step asked beeperCrashes threads.guarded
      (.turned index (loop.deed asked beeperCrashes threads.guarded),
        { threads with
          loops := Function.update threads.loops index after.1
          guarded := after.2 })
  | .ask index =>
      (.asked index, { threads with asked := Function.update threads.asked index true })
  | .request request =>
      let served := threads.guarded.serve request
      (.served request served.response, { threads with guarded := served.guarded })

def run (threads : TimerThreads count) :
    List (Event count) → List (LogEntry count) × TimerThreads count
  | [] => ([], threads)
  | event :: events =>
      let first := threads.step event
      let rest := first.2.run events
      (first.1 :: rest.1, rest.2)

def deedsOf (index : Fin count) (log : List (LogEntry count)) : List Deed :=
  log.filterMap fun
    | .turned other deed => if other = index then some deed else none
    | _ => none

private theorem run_concat (threads : TimerThreads count) (events : List (Event count))
    (event : Event count) :
    threads.run (events ++ [event]) =
      let before := threads.run events
      let last := before.2.step event
      (before.1 ++ [last.1], last.2) := by
  induction events generalizing threads with
  | nil => rfl
  | cons first events ih =>
      rw [List.cons_append, run, ih]
      rfl

theorem deedsOf_append (index : Fin count) (log further : List (LogEntry count)) :
    deedsOf index (log ++ further) = deedsOf index log ++ deedsOf index further :=
  List.filterMap_append

section OneStep

variable {threads : TimerThreads count} {index : Fin count}

theorem loops_foreign {event : Event count} (foreign : event.isTurnOf index = false) :
    (threads.step event).2.loops index = threads.loops index := by
  cases event with
  | turn other beeperCrashes =>
      exact Function.update_of_ne (Ne.symm (of_decide_eq_false foreign)) _ _
  | ask other => rfl
  | request request => rfl

theorem deedsOf_foreign {event : Event count} (foreign : event.isTurnOf index = false) :
    deedsOf index [(threads.step event).1] = [] := by
  cases event with
  | turn other beeperCrashes =>
      simp only [deedsOf, step, List.filterMap_cons, if_neg (of_decide_eq_false foreign),
        List.filterMap_nil]
  | ask other => rfl
  | request request => rfl

theorem loops_turn (beeperCrashes : Bool) :
    (threads.step (.turn index beeperCrashes)).2.loops index =
      (threads.loops index).follow
        ((threads.loops index).deed (threads.asked index) beeperCrashes threads.guarded) := by
  simp only [step, TimerLoop.step_eq, Function.update_self]

theorem deedsOf_turn (beeperCrashes : Bool) :
    deedsOf index [(threads.step (.turn index beeperCrashes)).1] =
      [(threads.loops index).deed (threads.asked index) beeperCrashes threads.guarded] := by
  simp only [deedsOf, step, List.filterMap_cons, if_true, List.filterMap_nil]

theorem touches_turn (beeperCrashes : Bool) :
    Touches ((threads.loops index).deed (threads.asked index) beeperCrashes threads.guarded)
      threads.guarded (threads.step (.turn index beeperCrashes)).2.guarded := by
  simp only [step, TimerLoop.step_eq]
  exact TimerLoop.touches _ _ _ _

private theorem asked_step (asked : threads.asked index = true) (event : Event count) :
    (threads.step event).2.asked index = true := by
  cases event with
  | turn other beeperCrashes => exact asked
  | ask other =>
      by_cases own : index = other
      · simp only [step, own, Function.update_self]
      · simp only [step, Function.update_of_ne own, asked]
  | request request => exact asked

end OneStep

/-! ### Accounts along a run -/

private theorem accounted_step {threads : TimerThreads count} {log : List (LogEntry count)}
    {index : Fin count} (accounted : Accounted (deedsOf index log) (threads.loops index))
    (event : Event count) :
    Accounted (deedsOf index (log ++ [(threads.step event).1]))
      ((threads.step event).2.loops index) := by
  rw [deedsOf_append]
  cases own : event.isTurnOf index with
  | false =>
      rw [deedsOf_foreign own, loops_foreign own, List.append_nil]
      exact accounted
  | true =>
      obtain ⟨beeperCrashes, rfl⟩ := Event.eq_turn_of_isTurnOf own
      rw [deedsOf_turn, loops_turn]
      exact accounted.turn _ _ _

theorem accounted_run (guarded : Guarded) (events : List (Event count)) (index : Fin count) :
    let after := (started guarded).run events
    Accounted (deedsOf index after.1) (after.2.loops index) := by
  induction events using List.reverseRecOn with
  | nil => exact accounted_start
  | append_singleton events event ih =>
      rw [run_concat]
      exact accounted_step ih event

/-! ### The lock -/

private theorem poisoned_serve_iff {guarded : Guarded} {request : Request} :
    (guarded.serve request).guarded.poisoned = true ↔
      guarded.poisoned = true ∨ (guarded.serve request).response = .crashed := by
  unfold Guarded.serve
  cases healthy : guarded.poisoned with
  | true => simp [healthy]
  | false =>
      cases request with
      | operate operation => simp
      | visit body =>
          cases ended : body guarded.machine with
          | returned machine value => simp [ended]
          | crashed machine => simp [ended]

private theorem poisoned_step_iff {threads : TimerThreads count} {event : Event count} :
    (threads.step event).2.guarded.poisoned = true ↔
      threads.guarded.poisoned = true ∨
        ∃ request, (threads.step event).1 = .served request .crashed := by
  cases event with
  | turn index beeperCrashes =>
      have kept (deed : Deed) :
          (TimerLoop.touch threads.guarded deed).poisoned = threads.guarded.poisoned := by
        cases deed <;> rfl
      simp [step, TimerLoop.step_eq, kept]
  | ask index => simp [step]
  | request request => simp [step, poisoned_serve_iff]

/-- Only code that a request brings can poison the lock; no beeper can. -/
theorem poisoned_run_iff {threads : TimerThreads count} {events : List (Event count)} :
    (threads.run events).2.guarded.poisoned = true ↔
      threads.guarded.poisoned = true ∨
        ∃ request, .served request .crashed ∈ (threads.run events).1 := by
  induction events generalizing threads with
  | nil => simp [run]
  | cons event events ih =>
      rw [run]
      dsimp only
      rw [ih, poisoned_step_iff, or_assoc, ← exists_or]
      simp only [List.mem_cons, eq_comm]

/-! ### Asking a loop to stop -/

private theorem turnsLeft_run {threads : TimerThreads count} {index : Fin count}
    (asked : threads.asked index = true) (events : List (Event count)) :
    ((threads.run events).2.loops index).turnsLeft ≤
      (threads.loops index).turnsLeft - events.countP (Event.isTurnOf index) := by
  induction events generalizing threads with
  | nil => exact Nat.le_refl _
  | cons event events ih =>
      have rest := ih (asked_step asked event)
      have first : ((threads.step event).2.loops index).turnsLeft ≤
          (threads.loops index).turnsLeft - if event.isTurnOf index then 1 else 0 := by
        cases own : event.isTurnOf index with
        | false =>
            rw [loops_foreign own]
            exact Nat.le_refl _
        | true =>
            obtain ⟨beeperCrashes, rfl⟩ := Event.eq_turn_of_isTurnOf own
            rw [loops_turn, asked]
            exact TimerLoop.turnsLeft_follow _ _ _
      rw [List.countP_cons]
      exact Nat.le_trans rest (by omega)

/-- A loop that is asked to stop has done so after three more turns, whatever comes between. -/
theorem stops_run {threads : TimerThreads count} {index : Fin count} {events : List (Event count)}
    (asked : threads.asked index = true)
    (enough : 3 ≤ events.countP (Event.isTurnOf index)) :
    ((threads.run events).2.loops index).result?.isSome = true := by
  have left := turnsLeft_run asked events
  have most := (threads.loops index).turnsLeft_le
  rw [TimerLoop.isSome_result?_iff]
  omega

/-! ### The only loop at the timers -/

/-- No event but the turns of one loop changes a timer. -/
def AloneAtTimers (index : Fin count) (threads : TimerThreads count) : List (Event count) → Prop
  | [] => True
  | event :: events =>
      let next := (threads.step event).2
      (event.isTurnOf index = false →
          next.guarded.machine.delay = threads.guarded.machine.delay ∧
            next.guarded.machine.sound = threads.guarded.machine.sound) ∧
        AloneAtTimers index next events

private theorem countsDown_run {threads : TimerThreads count} {index : Fin count}
    {events : List (Event count)} (alone : AloneAtTimers index threads events) :
    let after := threads.run events
    CountsDown ((deedsOf index after.1).countP Deed.decrements)
      ((deedsOf index after.1).countP Deed.endsTone)
      threads.guarded.machine after.2.guarded.machine := by
  induction events generalizing threads with
  | nil => exact .of_same rfl rfl
  | cons event events ih =>
      obtain ⟨still, rest⟩ := alone
      have first : CountsDown
          ((deedsOf index [(threads.step event).1]).countP Deed.decrements)
          ((deedsOf index [(threads.step event).1]).countP Deed.endsTone)
          threads.guarded.machine (threads.step event).2.guarded.machine := by
        cases own : event.isTurnOf index with
        | false =>
            rw [deedsOf_foreign own]
            exact .of_same (still own).1 (still own).2
        | true =>
            obtain ⟨beeperCrashes, rfl⟩ := Event.eq_turn_of_isTurnOf own
            rw [deedsOf_turn, List.countP_singleton, List.countP_singleton]
            exact (touches_turn beeperCrashes).countsDown
      have both := first.trans (ih rest)
      rw [← List.countP_append, ← List.countP_append, ← deedsOf_append] at both
      exact both

/-! ### The account -/

/-- Loops that share a machine, and requests in between, in any order. Each tone that a loop's
own decrement ended is counted by that loop alone and is followed by one call of its beeper,
outside the lock. What the loop tells when it is stopped is the number of these calls, unless it
was refused or its beeper crashed, which is nothing to the others. -/
theorem beeps_accounted (guarded : Guarded) (events : List (Event count)) :
    let log := ((started guarded).run events).1
    let now := ((started guarded).run events).2
    (∀ index, Accounted (deedsOf index log) (now.loops index)) ∧
      (∀ event index, event.isTurnOf index = false →
        (now.step event).2.loops index = now.loops index) ∧
      (∀ index beeperCrashes,
        let next := now.step (.turn index beeperCrashes)
        ∃ deed, next.1 = .turned index deed ∧ Touches deed now.guarded next.2.guarded) ∧
      (∀ request,
        let served := now.guarded.serve request
        now.step (.request request) =
          (.served request served.response, { now with guarded := served.guarded })) ∧
      (now.guarded.poisoned = true ↔
        guarded.poisoned = true ∨ ∃ request, .served request .crashed ∈ log) ∧
      (now.guarded.poisoned = false → ∀ operation,
        let outcome := operation.apply now.guarded.machine now.guarded.dice
        (now.guarded.serve (.operate operation)).response = .answered outcome.result) ∧
      (∀ index further, now.asked index = true →
        3 ≤ further.countP (Event.isTurnOf index) →
          ((now.run further).2.loops index).result?.isSome = true) ∧
      ∀ index further, AloneAtTimers index now further →
        let after := now.run further
        CountsDown ((deedsOf index after.1).countP Deed.decrements)
          ((deedsOf index after.1).countP Deed.endsTone)
          now.guarded.machine after.2.guarded.machine := by
  intro log now
  refine ⟨accounted_run guarded events, fun event index foreign => loops_foreign foreign, ?_,
    fun request => rfl, poisoned_run_iff, ?_, fun index further => stops_run,
    fun index further => countsDown_run⟩
  · intro index beeperCrashes next
    exact ⟨_, rfl, touches_turn beeperCrashes⟩
  · intro healthy operation outcome
    simp [Guarded.serve, healthy, outcome]

/-- Both loops hear a tone end, and the second one's beeper crashes. A third tone is rung through
a handle and the first loop is asked to stop between its look and its decrement: it still ends
that tone and calls its beeper, for the second time, before it stops. -/
theorem beeps_accounted_two_loops :
    let guarded := Guarded.ofMachine { Machine.standard with delay := 3, sound := 1 }
      { source := fun _ => 0, taken := 0 }
    let ring : Event 2 := .request (.visit fun machine => .returned { machine with sound := 1 } ())
    let events : List (Event 2) :=
      [.turn 0 false, .turn 0 false, .turn 0 false, ring, .turn 1 false, .turn 1 false,
        .turn 1 true, ring, .turn 0 false, .ask 0]
    let further : List (Event 2) :=
      [.request (.operate (.changeKey 3 true)), .turn 0 false, .turn 1 false, .turn 0 false,
        .turn 0 false]
    let log := ((started guarded).run events).1
    let now := ((started guarded).run events).2
    let after := (now.run further).2
    Accounted (deedsOf 1 log) (now.loops 1) ∧
      (now.loops 1).result? = some (.error .poisoned) ∧ now.guarded.poisoned = false ∧
      AloneAtTimers 0 now further ∧ now.asked 0 = true ∧
      (after.loops 0).result?.isSome = true ∧ (after.loops 0).calls = 2 ∧
      CountsDown 1 1 now.guarded.machine after.guarded.machine := by
  intro guarded ring events further log now after
  obtain ⟨accounted, -, -, -, -, -, stops, countsDown⟩ := beeps_accounted guarded events
  have alone : AloneAtTimers 0 now further := by
    refine ⟨fun _ => ⟨?_, ?_⟩, nofun, fun _ => ⟨?_, ?_⟩, nofun, nofun, trivial⟩
    all_goals decide +kernel
  have asked : now.asked 0 = true := by decide +kernel
  have stopped : (after.loops 0).result?.isSome = true := stops 0 further asked (by decide)
  have made : (deedsOf 0 (now.run further).1).countP Deed.decrements = 1 := by decide +kernel
  have tones : (deedsOf 0 (now.run further).1).countP Deed.endsTone = 1 := by decide +kernel
  have counted : CountsDown ((deedsOf 0 (now.run further).1).countP Deed.decrements)
      ((deedsOf 0 (now.run further).1).countP Deed.endsTone)
      now.guarded.machine after.guarded.machine := by
    simpa only [now, after] using countsDown 0 further alone
  rw [made, tones] at counted
  exact ⟨accounted 1, by decide +kernel, by decide +kernel, alone, asked, stopped,
    by decide +kernel, counted⟩

end TimerThreads

end Chip8
