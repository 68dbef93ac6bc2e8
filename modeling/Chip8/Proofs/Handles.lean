import Chip8.Guarded.Bank
import Chip8.Proofs.Histories

/-!
Machines shared through handles. In whatever order requests through the handles of one cell take
its lock, and whatever goes on in other cells meanwhile, they are served as the same requests to
a machine that nobody shares. That ends with the first of them whose code crashes: from then on
the cell stays as that code left it, and every request is refused.
-/

namespace Chip8

/-! ### Requests to a machine that nobody shares -/

structure Effect where
  response : Response
  machine : Machine
  dice : Dice
  trace : List TraceLine

/-- What a request to a machine without a lock does, if its code does not crash: an operation is
answered its result, a visit the value that its code ended with. -/
def Request.alone? (request : Request) (machine : Machine) (dice : Dice) : Option Effect :=
  match request with
  | .operate operation =>
      let outcome := operation.apply machine dice
      some { outcome with response := .answered outcome.result }
  | .visit body =>
      match body machine with
      | .returned after value =>
          some { response := .returned value, machine := after, dice, trace := [] }
      | .crashed _ => none

theorem Request.alone?_look {Value : Type} (read : Machine → Option Value) (machine : Machine)
    (dice : Dice) :
    (look read).alone? machine dice =
      (read machine).map fun value =>
        { response := .returned value, machine, dice, trace := [] } := by
  rw [look, alone?]
  cases read machine with
  | some value => rfl
  | none => rfl

structure Obeyed where
  responses : List Response
  machine : Machine
  dice : Dice
  trace : List TraceLine

/-- Requests to a machine without a lock, if the code of none of them crashes. -/
def Machine.obey? (machine : Machine) (dice : Dice) : List Request → Option Obeyed
  | [] => some { responses := [], machine, dice, trace := [] }
  | request :: requests =>
      (request.alone? machine dice).bind fun first =>
        (first.machine.obey? first.dice requests).map fun rest =>
          { rest with
            responses := first.response :: rest.responses
            trace := rest.trace ++ first.trace }

theorem Machine.obey?_nil (machine : Machine) (dice : Dice) :
    machine.obey? dice [] = some { responses := [], machine, dice, trace := [] } :=
  rfl

private theorem Machine.obey?_operate (machine : Machine) (dice : Dice)
    (operations : List Operation) :
    let history := machine.run dice operations
    machine.obey? dice (operations.map .operate) =
      some { history with responses := history.results.map .answered } := by
  induction operations generalizing machine dice with
  | nil => rfl
  | cons operation operations ih =>
      dsimp only at ih ⊢
      rw [List.map_cons, obey?, Request.alone?, Option.bind_some, ih]
      rfl

/-- How requests to one machine behind a lock go: what they are answered, and what they leave.
Either no code crashes, and each is answered as it would be without a lock, a fault of an
operation and the value of a visit included; or some code crashes, and all requests behind it are
refused, whatever they are, with the machine left as that code left it. -/
inductive Course (machine : Machine) (dice : Dice) :
    List Request → List Response → Guarded → Prop
  | healthy {requests : List Request} {obeyed : Obeyed}
      (alone : machine.obey? dice requests = some obeyed) :
      Course machine dice requests obeyed.responses (.ofMachine obeyed.machine obeyed.dice)
  | poisoned {earlier : List Request} {obeyed : Obeyed}
      (alone : machine.obey? dice earlier = some obeyed) {Value : Type}
      (body : Machine → Visit Value) (left : Machine)
      (crashed : body obeyed.machine = .crashed left) (later : List Request) :
      Course machine dice (earlier ++ .visit body :: later)
        (obeyed.responses ++ .crashed :: later.map fun _ => .answered (.error .poisoned))
        { machine := left, dice := obeyed.dice, poisoned := true }

theorem Course.cons {machine : Machine} {dice : Dice} {request : Request} {effect : Effect}
    (first : request.alone? machine dice = some effect) {requests : List Request}
    {responses : List Response} {guarded : Guarded}
    (rest : Course effect.machine effect.dice requests responses guarded) :
    Course machine dice (request :: requests) (effect.response :: responses) guarded := by
  have prolonged {requests : List Request} {obeyed : Obeyed}
      (alone : effect.machine.obey? effect.dice requests = some obeyed) :
      machine.obey? dice (request :: requests) =
        some { obeyed with
               responses := effect.response :: obeyed.responses
               trace := obeyed.trace ++ effect.trace } := by
    rw [Machine.obey?, first, Option.bind_some, alone, Option.map_some]
  cases rest with
  | healthy alone => exact .healthy (prolonged alone)
  | poisoned alone body left crashed later =>
      exact .poisoned (prolonged alone) body left crashed later

private theorem Course.of_operations {machine : Machine} {dice : Dice} {operations : List Operation}
    {responses : List Response} {guarded : Guarded}
    (course : Course machine dice (operations.map .operate) responses guarded) :
    responses = (machine.run dice operations).results.map .answered ∧
      guarded.machine? = .ok (machine.run dice operations).machine := by
  generalize requestsAt : operations.map Request.operate = requests at course
  cases course with
  | healthy alone =>
      rw [← requestsAt, Machine.obey?_operate, Option.some.injEq] at alone
      subst alone
      exact ⟨rfl, rfl⟩
  | poisoned alone body left crashed later =>
      have member : Request.visit body ∈ operations.map Request.operate := by
        rw [requestsAt]
        exact List.mem_append_right _ List.mem_cons_self
      obtain ⟨operation, -, named⟩ := List.mem_map.mp member
      cases named

/-! ### One cell -/

namespace Guarded

def serveEach (guarded : Guarded) : List Request → List Response × Guarded
  | [] => ([], guarded)
  | request :: requests =>
      let served := guarded.serve request
      let rest := served.guarded.serveEach requests
      (served.response :: rest.1, rest.2)

private theorem serve_of_alone {request : Request} {machine : Machine} {dice : Dice}
    {effect : Effect} (alone : request.alone? machine dice = some effect) :
    ((ofMachine machine dice).serve request).response = effect.response ∧
      ((ofMachine machine dice).serve request).guarded =
        .ofMachine effect.machine effect.dice := by
  cases request with
  | operate operation =>
      cases alone
      exact ⟨rfl, rfl⟩
  | visit body =>
      cases ended : body machine with
      | returned after value =>
          simp only [Request.alone?, ended, Option.some.injEq] at alone
          subst alone
          simp only [serve, ofMachine, ended, Bool.false_eq_true, if_false, and_self]
      | crashed left => simp [Request.alone?, ended] at alone

theorem exists_crash_of_alone {request : Request} {machine : Machine} {dice : Dice}
    (alone : request.alone? machine dice = none) :
    ∃ (Value : Type) (body : Machine → Visit Value) (left : Machine),
      request = .visit body ∧ body machine = .crashed left := by
  cases request with
  | operate operation => cases alone
  | visit body =>
      cases ended : body machine with
      | returned after value => simp [Request.alone?, ended] at alone
      | crashed left => exact ⟨_, body, left, rfl, ended⟩

private theorem serve_of_crash {Value : Type} {body : Machine → Visit Value}
    {machine left : Machine} (crashed : body machine = .crashed left) (dice : Dice) :
    ((ofMachine machine dice).serve (.visit body)).response = .crashed ∧
      ((ofMachine machine dice).serve (.visit body)).guarded =
        { machine := left, dice := dice, poisoned := true } := by
  simp only [serve, ofMachine, crashed, Bool.false_eq_true, if_false, and_self]

private theorem serveEach_of_poisoned {guarded : Guarded} (poisoned : guarded.poisoned = true)
    (requests : List Request) :
    guarded.serveEach requests =
      (requests.map fun _ => .answered (.error .poisoned), guarded) := by
  induction requests with
  | nil => rfl
  | cons request requests ih =>
      have refused : guarded.serve request =
          { response := .answered (.error .poisoned), guarded, trace := [] } := if_pos poisoned
      rw [serveEach, refused]
      dsimp only
      rw [ih]
      rfl

theorem course_serveEach (machine : Machine) (dice : Dice) (requests : List Request) :
    Course machine dice requests ((ofMachine machine dice).serveEach requests).1
      ((ofMachine machine dice).serveEach requests).2 := by
  induction requests generalizing machine dice with
  | nil => exact .healthy (machine.obey?_nil dice)
  | cons request requests ih =>
      rw [serveEach]
      dsimp only
      cases alone : request.alone? machine dice with
      | some effect =>
          obtain ⟨answered, left⟩ := serve_of_alone alone
          rw [answered, left]
          exact .cons alone (ih effect.machine effect.dice)
      | none =>
          obtain ⟨Value, body, left, rfl, crashed⟩ := exists_crash_of_alone alone
          obtain ⟨answered, poisoned⟩ := serve_of_crash crashed dice
          rw [answered, poisoned, serveEach_of_poisoned rfl]
          exact .poisoned (machine.obey?_nil dice) body left crashed requests

end Guarded

/-! ### Many handles of many cells -/

namespace Bank

variable {Handle : Type} {count : Nat} (cellOf : Handle → Fin count)

def ofMachines (machines : Fin count → Machine) (dice : Fin count → Dice) : Bank count :=
  { cells := Vector.ofFn fun cell => .ofMachine (machines cell) (dice cell) }

private theorem cell_ofMachines (machines : Fin count → Machine) (dice : Fin count → Dice)
    (home : Fin count) :
    (ofMachines machines dice).cell home = .ofMachine (machines home) (dice home) := by
  simp [ofMachines, cell]

/-- Serve requests through handles, in the order in which they take the locks. Handles that are
clones of one another have the same cell. -/
def serveThrough (bank : Bank count) (schedule : List (Handle × Request)) :
    List Response × Bank count :=
  bank.serveAll (schedule.map fun entry => (cellOf entry.1, entry.2))

def requestsTo (home : Fin count) (schedule : List (Handle × Request)) : List Request :=
  (schedule.filter fun entry => cellOf entry.1 = home).map Prod.snd

def responsesTo (home : Fin count) (schedule : List (Handle × Request))
    (responses : List Response) : List Response :=
  ((schedule.zip responses).filter fun entry => cellOf entry.1.1 = home).map Prod.snd

theorem serveThrough_cons (bank : Bank count) (handle : Handle) (request : Request)
    (schedule : List (Handle × Request)) :
    bank.serveThrough cellOf ((handle, request) :: schedule) =
      let served := (bank.cell (cellOf handle)).serve request
      let rest := (bank.setCell (cellOf handle) served.guarded).serveThrough cellOf schedule
      (served.response :: rest.1, rest.2) :=
  rfl

private theorem length_serveThrough (bank : Bank count) (schedule : List (Handle × Request)) :
    (bank.serveThrough cellOf schedule).1.length = schedule.length := by
  induction schedule generalizing bank with
  | nil => rfl
  | cons entry schedule ih =>
      rw [serveThrough_cons, List.length_cons, List.length_cons, ih]

/-- What one cell answers and holds depends on its own requests alone. -/
theorem serveThrough_to (bank : Bank count) (schedule : List (Handle × Request))
    (home : Fin count) :
    let served := bank.serveThrough cellOf schedule
    let own := (bank.cell home).serveEach (requestsTo cellOf home schedule)
    responsesTo cellOf home schedule served.1 = own.1 ∧ served.2.cell home = own.2 := by
  induction schedule generalizing bank with
  | nil => exact ⟨rfl, rfl⟩
  | cons entry schedule ih =>
      rcases entry with ⟨handle, request⟩
      let served := (bank.cell (cellOf handle)).serve request
      obtain ⟨responses, last⟩ := ih (bank.setCell (cellOf handle) served.guarded)
      rw [cell_setCell] at responses last
      rw [serveThrough_cons]
      by_cases own : cellOf handle = home
      · subst own
        simp only [if_true] at responses last
        simp only [requestsTo, responsesTo, List.filter_cons, List.zip_cons_cons, decide_true,
          if_true, List.map_cons, Guarded.serveEach]
        exact ⟨congrArg (served.response :: ·) responses, last⟩
      · simp only [if_neg (Ne.symm own)] at responses last
        simp only [requestsTo, responsesTo, List.filter_cons, List.zip_cons_cons, own,
          decide_false, Bool.false_eq_true, if_false]
        exact ⟨responses, last⟩

private theorem requestsTo_without {home other : Fin count} (apart : other ≠ home)
    (schedule : List (Handle × Request)) :
    requestsTo cellOf other (schedule.filter fun entry => cellOf entry.1 ≠ home) =
      requestsTo cellOf other schedule := by
  unfold requestsTo
  rw [List.filter_filter]
  congr 2
  funext entry
  by_cases own : cellOf entry.1 = other
  · have elsewhere : cellOf entry.1 ≠ home := own ▸ apart
    simp [own, apart]
  · simp [own]

/-- At every moment of a schedule each cell has served the requests through its handles as they
would be served one after another to its machine alone, and has been poisoned by the first whose
code crashed, if one has. Taking all requests to another cell out of the schedule changes
neither what it has answered nor what it holds. -/
theorem course_serveThrough (machines : Fin count → Machine) (dice : Fin count → Dice)
    (schedule : List (Handle × Request)) (home : Fin count) (moment : Nat) :
    let bank := ofMachines machines dice
    let elapsed := schedule.take moment
    let served := bank.serveThrough cellOf elapsed
    let requests := requestsTo cellOf home elapsed
    let responses := responsesTo cellOf home elapsed served.1
    served.1.length = elapsed.length ∧
      Course (machines home) (dice home) requests responses (served.2.cell home) ∧
      (∀ operations, requests = operations.map .operate →
        let history := (machines home).run (dice home) operations
        responses = history.results.map .answered ∧
          (served.2.cell home).machine? = .ok history.machine) ∧
      ∀ other, other ≠ home →
        let without := elapsed.filter fun entry => cellOf entry.1 ≠ other
        let apart := bank.serveThrough cellOf without
        responsesTo cellOf home without apart.1 = responses ∧
          apart.2.cell home = served.2.cell home := by
  intro bank elapsed served requests responses
  obtain ⟨answered, left⟩ := serveThrough_to cellOf bank elapsed home
  have begun : bank.cell home = .ofMachine (machines home) (dice home) :=
    cell_ofMachines machines dice home
  have course : Course (machines home) (dice home) requests responses (served.2.cell home) := by
    have followed := Guarded.course_serveEach (machines home) (dice home) requests
    rw [← begun] at followed
    rw [← answered, ← left] at followed
    exact followed
  refine ⟨length_serveThrough cellOf bank elapsed, course, ?_, ?_⟩
  · intro operations alone history
    rw [alone] at course
    exact course.of_operations
  · intro other apart without separate
    obtain ⟨answeredApart, leftApart⟩ := serveThrough_to cellOf bank without home
    have sameRequests : requestsTo cellOf home without = requests :=
      requestsTo_without cellOf (Ne.symm apart) elapsed
    rw [sameRequests] at answeredApart leftApart
    exact ⟨answeredApart.trans answered.symm, leftApart.trans left.symm⟩

/-- Two handles of one cell and one of another. A visit changes a machine and ends with a value,
a look through the other handle reads what it left, and the next request crashes: the third
handle goes on with its own machine, and the code that the first one brings is not run. -/
theorem course_serveThrough_two_cells :
    let rolls : Dice := { source := fun _ => 0, taken := 0 }
    let cellOf : Fin 3 → Fin 2 := fun handle => if handle = 2 then 1 else 0
    let schedule : List (Fin 3 × Request) :=
      [(0, .visit fun machine => .returned { machine with index := 5 } machine.pc),
        (1, .look fun machine => some machine.index),
        (1, .visit fun machine => (.crashed { machine with index := 7 } : Visit Nat)),
        (2, .operate .tick),
        (0, .visit fun machine => .returned { machine with index := 9 } true),
        (2, .operate (.setRegister 16 0))]
    let served :=
      (ofMachines (fun _ => Machine.standard) fun _ => rolls).serveThrough cellOf schedule
    Course Machine.standard rolls (requestsTo cellOf 0 schedule)
        (responsesTo cellOf 0 schedule served.1) (served.2.cell 0) ∧
      responsesTo cellOf 0 schedule served.1 =
        [.returned Machine.standard.pc, .returned (5 : UInt16), .crashed,
          .answered (.error .poisoned)] ∧
      (served.2.cell 0).poisoned = true ∧ (served.2.cell 0).machine.index = 7 ∧
      (served.2.cell 1).machine? =
        .ok (Machine.standard.run rolls [.tick, .setRegister 16 0]).machine := by
  intro rolls cellOf schedule served
  have shared (home : Fin 2) := course_serveThrough cellOf (fun _ => Machine.standard)
    (fun _ => rolls) schedule home 6
  obtain ⟨-, course, -, -⟩ := shared 0
  obtain ⟨-, -, operated, -⟩ := shared 1
  exact ⟨course, rfl, by decide +kernel, by decide +kernel,
    (operated [.tick, .setRegister 16 0] rfl).2⟩

end Bank

end Chip8
