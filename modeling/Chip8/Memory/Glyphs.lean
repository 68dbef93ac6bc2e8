/-!
The built-in hexadecimal font: sixteen glyphs of five rows, each row a byte
whose high half shows four pixels.
-/

namespace Chip8.Glyphs

/-- The rows of the sixteen glyphs, in the order of their digits. -/
def table : List (List UInt8) :=
  [[0xf0, 0x90, 0x90, 0x90, 0xf0],
    [0x20, 0x60, 0x20, 0x20, 0x70],
    [0xf0, 0x10, 0xf0, 0x80, 0xf0],
    [0xf0, 0x10, 0xf0, 0x10, 0xf0],
    [0x90, 0x90, 0xf0, 0x10, 0x10],
    [0xf0, 0x80, 0xf0, 0x10, 0xf0],
    [0xf0, 0x80, 0xf0, 0x90, 0xf0],
    [0xf0, 0x10, 0x20, 0x40, 0x40],
    [0xf0, 0x90, 0xf0, 0x90, 0xf0],
    [0xf0, 0x90, 0xf0, 0x10, 0xf0],
    [0xf0, 0x90, 0xf0, 0x90, 0x90],
    [0xe0, 0x90, 0xe0, 0x90, 0xe0],
    [0xf0, 0x80, 0x80, 0x80, 0xf0],
    [0xe0, 0x90, 0x90, 0x90, 0xe0],
    [0xf0, 0x80, 0xf0, 0x80, 0xf0],
    [0xf0, 0x80, 0xf0, 0x80, 0x80]]

def rows (digit : Nat) : List UInt8 := table.getD digit []

def height : Nat := 5

def bytes : List UInt8 := table.flatten

theorem length_bytes : bytes.length = 80 := by decide

theorem length_rows (digit : Nat) (shown : digit < 16) :
    (rows digit).length = height := by
  have every : ∀ glyph ∈ table, glyph.length = height := by decide
  have inside : digit < table.length := shown
  have same : rows digit = table[digit] := by
    simp only [rows, List.getD_eq_getElem?_getD, List.getElem?_eq_getElem inside,
      Option.getD_some]
  rw [same]
  exact every _ (List.getElem_mem inside)

end Chip8.Glyphs
