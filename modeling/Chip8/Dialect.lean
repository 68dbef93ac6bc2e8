import Chip8.Text.Numeral

/-!
Interpreters of the language differ in six points. A `Dialect` chooses one way
for each; the default is the way in which modern programs expect it. A `Preset`
is a named dialect.
-/

namespace Chip8

structure Dialect where
  /-- Shifts take their source from the second register. -/
  shiftsSecond : Bool
  /-- Block transfers leave the index register where it was. -/
  keepsIndex : Bool
  wrapsSprites : Bool
  /-- Bitwise operations clear the flag register. -/
  clearsFlag : Bool
  /-- Indexed jumps add the register that the address names, not the first. -/
  jumpsByAddress : Bool
  /-- Subtractions and shifts write the flag register after their result. -/
  flagLast : Bool
  deriving DecidableEq, Repr

namespace Dialect

def uniform (choice : Bool) : Dialect :=
  { shiftsSecond := choice
    keepsIndex := choice
    wrapsSprites := choice
    clearsFlag := choice
    jumpsByAddress := choice
    flagLast := choice }

def modern : Dialect := uniform false

def choices (dialect : Dialect) : List Bool :=
  [dialect.shiftsSecond, dialect.keepsIndex, dialect.wrapsSprites, dialect.clearsFlag,
    dialect.jumpsByAddress, dialect.flagLast]

/-- The dialect with the choices taken in `toggles` turned around. -/
def toggle (dialect toggles : Dialect) : Dialect :=
  { shiftsSecond := dialect.shiftsSecond ^^ toggles.shiftsSecond
    keepsIndex := dialect.keepsIndex ^^ toggles.keepsIndex
    wrapsSprites := dialect.wrapsSprites ^^ toggles.wrapsSprites
    clearsFlag := dialect.clearsFlag ^^ toggles.clearsFlag
    jumpsByAddress := dialect.jumpsByAddress ^^ toggles.jumpsByAddress
    flagLast := dialect.flagLast ^^ toggles.flagLast }

end Dialect

inductive Preset
  | chip8
  | vip
  | superChip
  deriving DecidableEq, Repr

namespace Preset

def dialect : Preset → Dialect
  | .chip8 => .modern
  | .vip => { Dialect.modern with shiftsSecond := true, clearsFlag := true }
  | .superChip => { Dialect.modern with keepsIndex := true, jumpsByAddress := true }

def names : Preset → List String
  | .chip8 => ["chip8", "chip-8"]
  | .vip => ["vip", "cosmac"]
  | .superChip => ["schip", "superchip", "chip48", "chip-48"]

def all : List Preset := [.chip8, .vip, .superChip]

def standard : Preset := .chip8

/-- Names are matched without regard to the case of their letters. -/
def ofName? (name : String) : Option Preset :=
  all.find? (fun preset => preset.names.contains name.toLower)

def rank : Preset → Nat
  | .chip8 => 0
  | .vip => 1
  | .superChip => 2

end Preset

/-- What the host chooses about a machine, beyond the program. -/
structure Settings where
  traces : Bool
  paused : Bool
  dialect : Dialect
  deriving DecidableEq, Repr

namespace Settings

def standard : Settings :=
  { traces := false, paused := false, dialect := .modern }

def choices (settings : Settings) : List Bool :=
  settings.traces :: settings.paused :: settings.dialect.choices

end Settings

/-- Lists of choices in lexicographic order, where a choice not taken comes
before one that is taken. -/
def compareChoices : List Bool → List Bool → Ordering
  | [], [] => .eq
  | [], _ :: _ => .lt
  | _ :: _, [] => .gt
  | left :: lefts, right :: rights => (compare left right).then (compareChoices lefts rights)

instance : Ord Dialect where
  compare left right := compareChoices left.choices right.choices

instance : Ord Settings where
  compare left right := compareChoices left.choices right.choices

instance : Ord Preset where
  compare left right := compare left.rank right.rank

end Chip8
