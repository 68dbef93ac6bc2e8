import Chip8.Guarded.TimerLoop

/-!
What the turns of a timer loop do, as it is seen from outside: the deeds of the loop. Its own
deeds account for its beeps, whatever the shared machine is like at each of its turns: each
decrement of its own that ended a tone is counted, and is followed by one call of its beeper
before the loop does anything else.
-/

namespace Chip8

/-! ### One loop -/

/-- What a turn of a timer loop does, as it is seen from outside. A decrement tells whether it
ended a tone, and a call whether the beeper crashed. -/
inductive Deed
  | looked
  | stopped
  | decremented (tone : Bool)
  | refused
  | called (crashed : Bool)
  | rested
  deriving DecidableEq, Repr

namespace Deed

def decrements : Deed → Bool
  | .decremented _ => true
  | _ => false

def endsTone : Deed → Bool
  | .decremented tone => tone
  | _ => false

def calls : Deed → Bool
  | .called _ => true
  | _ => false

def fails : Deed → Bool
  | .refused => true
  | .called crashed => crashed
  | _ => false

end Deed

namespace TimerLoop

def isBeeping (loop : TimerLoop) : Bool :=
  match loop.phase with
  | .beeping => true
  | _ => false

def deed (loop : TimerLoop) (asked crashes : Bool) (guarded : Guarded) : Deed :=
  match loop.phase with
  | .checking => if asked then .stopped else .looked
  | .due =>
      if guarded.poisoned then .refused else .decremented (guarded.machine.sound == 1)
  | .beeping => .called crashes
  | .finished _ => .rested

def follow (loop : TimerLoop) : Deed → TimerLoop
  | .looked => { loop with phase := .due }
  | .stopped => { loop with phase := .finished (.ok loop.beeps) }
  | .decremented true => { loop with phase := .beeping, beeps := loop.beeps + 1 }
  | .decremented false => { loop with phase := .checking }
  | .refused => { loop with phase := .finished (.error .poisoned) }
  | .called true =>
      { loop with phase := .finished (.error .poisoned), calls := loop.calls + 1 }
  | .called false => { loop with phase := .checking, calls := loop.calls + 1 }
  | .rested => loop

/-- What a deed does to the shared machine: only a decrement does anything. -/
def touch (guarded : Guarded) : Deed → Guarded
  | .decremented _ => { guarded with machine := guarded.machine.decrementTimers }
  | _ => guarded

inductive Does (asked crashes : Bool) (guarded : Guarded) : TimerLoop → Deed → Prop
  | looks (beeps calls : Nat) (goOn : asked = false) :
      Does asked crashes guarded ⟨.checking, beeps, calls⟩ .looked
  | stops (beeps calls : Nat) (told : asked = true) :
      Does asked crashes guarded ⟨.checking, beeps, calls⟩ .stopped
  | decrements (beeps calls : Nat) (healthy : guarded.poisoned = false) :
      Does asked crashes guarded ⟨.due, beeps, calls⟩
        (.decremented (guarded.machine.sound == 1))
  | isRefused (beeps calls : Nat) (poisoned : guarded.poisoned = true) :
      Does asked crashes guarded ⟨.due, beeps, calls⟩ .refused
  | callsBeeper (beeps calls : Nat) :
      Does asked crashes guarded ⟨.beeping, beeps, calls⟩ (.called crashes)
  | rests (result : Except Fault Nat) (beeps calls : Nat) :
      Does asked crashes guarded ⟨.finished result, beeps, calls⟩ .rested

theorem does_deed (loop : TimerLoop) (asked crashes : Bool) (guarded : Guarded) :
    Does asked crashes guarded loop (loop.deed asked crashes guarded) := by
  rcases loop with ⟨phase, beeps, calls⟩
  cases phase with
  | checking =>
      cases asked with
      | false => exact .looks beeps calls rfl
      | true => exact .stops beeps calls rfl
  | due =>
      cases lock : guarded.poisoned with
      | true => simpa [deed, lock] using Does.isRefused beeps calls lock
      | false => simpa [deed, lock] using Does.decrements beeps calls lock
  | beeping => exact .callsBeeper beeps calls
  | finished result => exact .rests result beeps calls

theorem step_eq (loop : TimerLoop) (asked crashes : Bool) (guarded : Guarded) :
    loop.step asked crashes guarded =
      (loop.follow (loop.deed asked crashes guarded),
        touch guarded (loop.deed asked crashes guarded)) := by
  have does := loop.does_deed asked crashes guarded
  generalize loop.deed asked crashes guarded = deed at does ⊢
  cases does with
  | looks beeps calls goOn => rw [goOn]; rfl
  | stops beeps calls told => rw [told]; rfl
  | decrements beeps calls healthy =>
      cases tone : guarded.machine.sound == 1 <;>
        simp [step, follow, touch, Guarded.serve, healthy, Operation.apply, Outcome.ofReply,
          Machine.toneEnds, tone]
  | isRefused beeps calls poisoned => simp [step, follow, touch, Guarded.serve, poisoned]
  | callsBeeper beeps calls => cases crashes <;> rfl
  | rests result beeps calls => rfl

end TimerLoop

/-! ### What the lock sees of a turn -/

/-- A deed to the machine behind the lock. Beepers are called outside it. -/
structure Touches (deed : Deed) (before after : Guarded) : Prop where
  outside : deed.decrements = false → after = before
  inside : deed.decrements = true →
    before.poisoned = false ∧
      after = { before with machine := before.machine.decrementTimers }
  tone : deed.endsTone = true ↔
    deed.decrements = true ∧ before.machine.sound = 1 ∧ after.machine.sound = 0
  refused : deed = .refused → before.poisoned = true

private theorem touches_of_idle {deed : Deed} {guarded : Guarded}
    (idle : deed.decrements = false) (silent : deed.endsTone = false)
    (poisoned : deed = .refused → guarded.poisoned = true) : Touches deed guarded guarded := by
  refine ⟨fun _ => rfl, ?_, ?_, poisoned⟩
  · rw [idle]
    nofun
  · rw [idle, silent]
    simp

theorem TimerLoop.touches (loop : TimerLoop) (asked crashes : Bool) (guarded : Guarded) :
    Touches (loop.deed asked crashes guarded) guarded
      (touch guarded (loop.deed asked crashes guarded)) := by
  have does := loop.does_deed asked crashes guarded
  generalize loop.deed asked crashes guarded = deed at does ⊢
  cases does with
  | decrements beeps calls healthy =>
      refine ⟨nofun, fun _ => ⟨healthy, rfl⟩, ?_, nofun⟩
      rw [Deed.endsTone, beq_iff_eq]
      refine ⟨fun one => ⟨rfl, one, ?_⟩, fun ended => ended.2.1⟩
      simp [touch, Machine.decrementTimers, one, Machine.countDown]
  | isRefused beeps calls poisoned => exact touches_of_idle rfl rfl fun _ => poisoned
  | looks beeps calls goOn => exact touches_of_idle rfl rfl nofun
  | stops beeps calls told => exact touches_of_idle rfl rfl nofun
  | callsBeeper beeps calls => exact touches_of_idle rfl rfl nofun
  | rests result beeps calls => exact touches_of_idle rfl rfl nofun

/-- The timers after a number of decrements that ended a number of tones. -/
structure CountsDown (made tones : Nat) (before after : Machine) : Prop where
  delay : after.delay.toNat = before.delay.toNat - made
  sound : after.sound.toNat = before.sound.toNat - made
  tones : tones = if 1 ≤ before.sound.toNat ∧ before.sound.toNat ≤ made then 1 else 0

namespace CountsDown

theorem of_same {before after : Machine} (delay : after.delay = before.delay)
    (sound : after.sound = before.sound) : CountsDown 0 0 before after := by
  refine ⟨by rw [delay, Nat.sub_zero], by rw [sound, Nat.sub_zero], ?_⟩
  rw [if_neg (by omega)]

theorem trans {made tones made' tones' : Nat} {before between after : Machine}
    (first : CountsDown made tones before between)
    (second : CountsDown made' tones' between after) :
    CountsDown (made + made') (tones + tones') before after := by
  refine ⟨?_, ?_, ?_⟩
  · rw [second.delay, first.delay, Nat.sub_sub]
  · rw [second.sound, first.sound, Nat.sub_sub]
  · -- the tone ends among the first decrements, or among the others, or not at all
    rw [first.tones, second.tones, first.sound]
    split <;> split <;> split <;> omega

end CountsDown

theorem Touches.countsDown {deed : Deed} {before after : Guarded}
    (touches : Touches deed before after) :
    CountsDown (if deed.decrements then 1 else 0) (if deed.endsTone then 1 else 0)
      before.machine after.machine := by
  cases made : deed.decrements with
  | false =>
      have silent : deed.endsTone = false := by
        rw [Bool.eq_false_iff]
        intro tone
        have decremented := (touches.tone.mp tone).1
        rw [made] at decremented
        cases decremented
      simp only [silent, Bool.false_eq_true, if_false]
      rw [touches.outside made]
      exact .of_same rfl rfl
  | true =>
      obtain ⟨-, rfl⟩ := touches.inside made
      have ends : deed.endsTone = true ↔ before.machine.sound.toNat = 1 := by
        rw [touches.tone, ← UInt8.toNat_inj]
        refine ⟨fun ended => ended.2.1, fun one => ⟨made, one, ?_⟩⟩
        apply UInt8.toNat_inj.mp
        simp [Machine.decrementTimers, Machine.toNat_countDown, one]
      refine ⟨Machine.toNat_countDown _, Machine.toNat_countDown _, ?_⟩
      simp only [ends, if_true]
      split <;> split <;> omega

/-! ### What the deeds of one loop account for -/

/-- A loop's own deeds, in order, account for it. -/
structure Accounted (own : List Deed) (loop : TimerLoop) : Prop where
  beeps : loop.beeps = own.countP Deed.endsTone
  calls : loop.calls = own.countP Deed.calls
  /-- A deed is a call of the beeper exactly if the deed just before it ended a tone. -/
  order : ∀ earlier deed later, own = earlier ++ deed :: later →
    deed.calls = earlier.getLast?.any Deed.endsTone
  /-- The loop is about to call its beeper exactly if its last deed ended a tone. -/
  pending : loop.isBeeping = own.getLast?.any Deed.endsTone
  balance : loop.beeps = loop.calls + if loop.isBeeping then 1 else 0
  /-- A loop that has ended tells the number of calls, unless it was refused or its beeper
  crashed. -/
  result : ∀ result, loop.result? = some result →
    result = if own.any Deed.fails then .error .poisoned else .ok loop.calls
  goesOn : loop.result? = none → own.any Deed.fails = false

theorem accounted_start : Accounted [] TimerLoop.start := by
  refine ⟨rfl, rfl, ?_, rfl, rfl, nofun, fun _ => rfl⟩
  intro earlier deed later split
  cases earlier with
  | nil => cases split
  | cons head tail => cases split

namespace TimerLoop

theorem beeps_follow (loop : TimerLoop) (deed : Deed) :
    (loop.follow deed).beeps = loop.beeps + if deed.endsTone then 1 else 0 := by
  cases deed with
  | decremented tone => cases tone <;> rfl
  | called crashed => cases crashed <;> rfl
  | _ => rfl

theorem calls_follow (loop : TimerLoop) (deed : Deed) :
    (loop.follow deed).calls = loop.calls + if deed.calls then 1 else 0 := by
  cases deed with
  | decremented tone => cases tone <;> rfl
  | called crashed => cases crashed <;> rfl
  | _ => rfl

section Turn

variable {loop : TimerLoop} {asked crashes : Bool} {guarded : Guarded}

theorem calls_deed : (loop.deed asked crashes guarded).calls = loop.isBeeping := by
  have does := loop.does_deed asked crashes guarded
  generalize loop.deed asked crashes guarded = deed at does ⊢
  cases does <;> rfl

theorem isBeeping_follow :
    (loop.follow (loop.deed asked crashes guarded)).isBeeping =
      (loop.deed asked crashes guarded).endsTone := by
  have does := loop.does_deed asked crashes guarded
  generalize loop.deed asked crashes guarded = deed at does ⊢
  cases does with
  | decrements beeps calls healthy => cases guarded.machine.sound == 1 <;> rfl
  | callsBeeper beeps calls => cases crashes <;> rfl
  | _ => rfl

theorem result?_follow :
    (loop.follow (loop.deed asked crashes guarded)).result? =
      if (loop.deed asked crashes guarded).fails then some (.error .poisoned)
      else if loop.deed asked crashes guarded = .stopped then some (.ok loop.beeps)
      else loop.result? := by
  have does := loop.does_deed asked crashes guarded
  generalize loop.deed asked crashes guarded = deed at does ⊢
  cases does with
  | decrements beeps calls healthy => cases guarded.machine.sound == 1 <;> rfl
  | callsBeeper beeps calls => cases crashes <;> rfl
  | _ => rfl

private theorem checking_of_stopped (stopped : loop.deed asked crashes guarded = .stopped) :
    loop.phase = .checking := by
  have does := loop.does_deed asked crashes guarded
  rw [stopped] at does
  cases does
  rfl

private theorem isBeeping_of_ended {result : Except Fault Nat}
    (ended : loop.result? = some result) :
    loop.isBeeping = false := by
  rcases loop with ⟨phase, beeps, calls⟩
  cases phase with
  | beeping => cases ended
  | _ => rfl

end Turn

end TimerLoop

namespace Accounted

variable {own : List Deed} {loop : TimerLoop} {asked crashes : Bool} {guarded : Guarded}

private theorem order_turn (accounted : Accounted own loop) (earlier : List Deed) (deed : Deed)
    (later : List Deed)
    (split : own ++ [loop.deed asked crashes guarded] = earlier ++ deed :: later) :
    deed.calls = earlier.getLast?.any Deed.endsTone := by
  rcases List.eq_nil_or_concat later with rfl | ⟨before, last, rfl⟩
  · obtain ⟨rfl, same⟩ := List.append_inj' split rfl
    cases same
    rw [TimerLoop.calls_deed, accounted.pending]
  · rw [List.concat_eq_append, ← List.cons_append, ← List.append_assoc] at split
    exact accounted.order earlier deed before (List.append_inj' split rfl).1

private theorem result_turn (accounted : Accounted own loop) (result : Except Fault Nat)
    (ended : (loop.follow (loop.deed asked crashes guarded)).result? = some result) :
    result =
      if (own ++ [loop.deed asked crashes guarded]).any Deed.fails then .error .poisoned
      else .ok (loop.follow (loop.deed asked crashes guarded)).calls := by
  rw [TimerLoop.result?_follow] at ended
  rw [TimerLoop.calls_follow, List.any_append, List.any_cons, List.any_nil, Bool.or_false,
    TimerLoop.calls_deed]
  cases fails : (loop.deed asked crashes guarded).fails with
  | true =>
      simp only [fails, if_true, Option.some.injEq] at ended
      simp only [Bool.or_true, if_true, ended]
  | false =>
      simp only [fails, Bool.false_eq_true, if_false] at ended
      rw [Bool.or_false]
      split at ended
      · rename_i stopped
        -- at the head of the loop every tone that was counted has had its call
        have checking := TimerLoop.checking_of_stopped stopped
        have quiet : loop.isBeeping = false := by rw [TimerLoop.isBeeping, checking]
        have running : loop.result? = none := by rw [TimerLoop.result?, checking]
        have balanced := accounted.balance
        simp only [quiet, Bool.false_eq_true, if_false, Nat.add_zero] at balanced
        simp only [accounted.goesOn running, quiet, Bool.false_eq_true, if_false, Nat.add_zero]
        rw [← balanced]
        exact (Option.some.inj ended).symm
      · have quiet := TimerLoop.isBeeping_of_ended ended
        simp only [quiet, Bool.false_eq_true, if_false, Nat.add_zero]
        exact accounted.result result ended

theorem turn (accounted : Accounted own loop) (asked crashes : Bool) (guarded : Guarded) :
    Accounted (own ++ [loop.deed asked crashes guarded])
      (loop.follow (loop.deed asked crashes guarded)) := by
  refine ⟨?_, ?_, accounted.order_turn, ?_, ?_, accounted.result_turn, ?_⟩
  · rw [TimerLoop.beeps_follow, List.countP_append, List.countP_singleton, accounted.beeps]
  · rw [TimerLoop.calls_follow, List.countP_append, List.countP_singleton, accounted.calls]
  · rw [TimerLoop.isBeeping_follow, List.getLast?_concat]
    rfl
  · have balanced := accounted.balance
    rw [TimerLoop.beeps_follow, TimerLoop.calls_follow, TimerLoop.isBeeping_follow,
      TimerLoop.calls_deed, balanced]
  · intro running
    rw [TimerLoop.result?_follow] at running
    cases fails : (loop.deed asked crashes guarded).fails with
    | true => simp [fails] at running
    | false =>
        simp only [fails, Bool.false_eq_true, if_false] at running
        split at running
        · cases running
        · rw [List.any_append, accounted.goesOn running, List.any_cons, fails]
          rfl

end Accounted

namespace TimerLoop

/-- How many turns a loop still takes, at most, once it is asked to stop. -/
def turnsLeft (loop : TimerLoop) : Nat :=
  match loop.phase with
  | .due => 3
  | .beeping => 2
  | .checking => 1
  | .finished _ => 0

theorem turnsLeft_le (loop : TimerLoop) : loop.turnsLeft ≤ 3 := by
  unfold turnsLeft
  split <;> omega

theorem isSome_result?_iff {loop : TimerLoop} :
    loop.result?.isSome = true ↔ loop.turnsLeft = 0 := by
  rcases loop with ⟨phase, beeps, calls⟩
  cases phase <;> simp [result?, turnsLeft]

theorem turnsLeft_follow (loop : TimerLoop) (crashes : Bool) (guarded : Guarded) :
    (loop.follow (loop.deed true crashes guarded)).turnsLeft ≤ loop.turnsLeft - 1 := by
  have does := loop.does_deed true crashes guarded
  generalize loop.deed true crashes guarded = deed at does ⊢
  cases does with
  | looks beeps calls goOn => cases goOn
  | decrements beeps calls healthy =>
      cases guarded.machine.sound == 1 with
      | false => exact Nat.le_succ 1
      | true => exact Nat.le_refl 2
  | callsBeeper beeps calls => cases crashes <;> simp [follow, turnsLeft]
  | isRefused beeps calls poisoned => exact Nat.zero_le _
  | stops beeps calls told => exact Nat.le_refl _
  | rests result beeps calls => exact Nat.le_refl _

end TimerLoop

end Chip8
