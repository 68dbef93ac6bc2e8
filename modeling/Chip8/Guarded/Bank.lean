import Chip8.Guarded

/-!
Several machines, each behind its own lock. A handle is the number of its cell.
-/

namespace Chip8

structure Bank (count : Nat) where
  cells : Vector Guarded count

namespace Bank

variable {count : Nat}

def cell (bank : Bank count) (handle : Fin count) : Guarded := bank.cells[handle]

def setCell (bank : Bank count) (handle : Fin count) (guarded : Guarded) : Bank count :=
  { cells := bank.cells.set handle guarded }

def serve (bank : Bank count) (handle : Fin count) (request : Request) :
    Response × List TraceLine × Bank count :=
  let served := (bank.cell handle).serve request
  (served.response, served.trace, bank.setCell handle served.guarded)

/-- The responses to requests in the order in which they take the locks. -/
def serveAll (bank : Bank count) : List (Fin count × Request) → List Response × Bank count
  | [] => ([], bank)
  | (handle, request) :: later =>
      let (response, _, after) := bank.serve handle request
      let (responses, last) := after.serveAll later
      (response :: responses, last)

theorem cell_setCell (bank : Bank count) (handle other : Fin count) (guarded : Guarded) :
    (bank.setCell handle guarded).cell other =
      if other = handle then guarded else bank.cell other := by
  by_cases same : other = handle
  · subst same
    simp [cell, setCell]
  · have apart : handle.val ≠ other.val := fun equal => same (Fin.ext equal.symm)
    simp [cell, setCell, same, apart]

end Bank

end Chip8
