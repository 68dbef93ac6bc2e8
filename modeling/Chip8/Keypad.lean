/-!
A pad of sixteen keys. Keys that do not exist are never held.
-/

namespace Chip8

structure Keypad where
  keys : Vector Bool 16
  deriving DecidableEq

namespace Keypad

def count : Nat := 16

def released : Keypad := { keys := Vector.replicate 16 false }

def isHeld (keypad : Keypad) (key : Nat) : Bool := keypad.keys[key]?.getD false

def set (keypad : Keypad) (key : Nat) (held : Bool) : Keypad :=
  { keys := keypad.keys.setIfInBounds key held }

def held (keypad : Keypad) : List Nat := (List.range count).filter keypad.isHeld

theorem ext_isHeld {left right : Keypad}
    (same : ∀ key, key < count → left.isHeld key = right.isHeld key) : left = right := by
  rcases left with ⟨left⟩
  rcases right with ⟨right⟩
  refine congrArg Keypad.mk (Vector.ext (fun key inside => ?_))
  have value := same key inside
  simpa only [isHeld, Vector.getElem?_eq_getElem inside, Option.getD_some] using value

theorem isHeld_set (keypad : Keypad) (key other : Nat) (held : Bool) :
    (keypad.set key held).isHeld other =
      if other = key ∧ key < count then held else keypad.isHeld other := by
  simp only [isHeld, set, Vector.getElem?_setIfInBounds]
  by_cases same : key = other
  · subst same
    by_cases inside : key < count
    · have within : key < 16 := inside
      simp [within, inside]
    · have beyond : ¬ key < 16 := inside
      simp [beyond, inside]
  · simp [same, Ne.symm same]

end Keypad

end Chip8
