import Chip8.Word

/-!
The thirty-four opcodes, grouped by the operands they take, and the pattern of
hexadecimal digits that each occupies in an instruction word. A pattern fixes
some digits and gives the others to operand fields; a field reads its digits
most significant first.
-/

namespace Chip8

inductive BareOp
  | clearScreen
  | ret
  deriving DecidableEq, Repr

inductive AddressOp
  | jump
  | call
  | loadIndex
  | jumpIndexed
  deriving DecidableEq, Repr

inductive ByteOp
  | skipEqual
  | skipUnequal
  | load
  | add
  | random
  deriving DecidableEq, Repr

inductive PairOp
  | skipEqual
  | skipUnequal
  | load
  | or
  | and
  | xor
  | add
  | subtract
  | shiftRight
  | subtractFrom
  | shiftLeft
  deriving DecidableEq, Repr

inductive RegisterOp
  | skipHeld
  | skipReleased
  | readDelay
  | awaitKey
  | setDelay
  | setSound
  | addIndex
  | glyph
  | decimal
  | store
  | load
  deriving DecidableEq, Repr

inductive Opcode
  | bare (op : BareOp)
  | address (op : AddressOp)
  | byte (op : ByteOp)
  | pair (op : PairOp)
  | sprite
  | register (op : RegisterOp)
  deriving DecidableEq, Repr

inductive Field
  | x
  | y
  | n
  | byte
  | address
  deriving DecidableEq, Repr

inductive Cell
  | literal (digit : Nat)
  | field (field : Field)
  deriving DecidableEq, Repr

abbrev Pattern := List Cell

namespace Cell

def accepts : Cell → Nat → Bool
  | .literal expected, digit => expected == digit
  | .field _, _ => true

end Cell

namespace Pattern

def accepts : Pattern → List Nat → Bool
  | [], [] => true
  | cell :: cells, digit :: digits => cell.accepts digit && accepts cells digits
  | _, _ => false

/-- The digits at the cells of one field, most significant first. -/
def read (field : Field) : Pattern → List Nat → Nat → Nat
  | cell :: cells, digit :: digits, value =>
      read field cells digits (if cell = .field field then 16 * value + digit else value)
  | _, _, value => value

def extract (pattern : Pattern) (digits : List Nat) (field : Field) : Nat :=
  read field pattern digits 0

/-- The number of digits that the pattern gives to a field. -/
def width (pattern : Pattern) (field : Field) : Nat :=
  pattern.count (.field field)

/-- Each field is written into its own cells; higher digits of a value that is
too wide for its cells are dropped. -/
def fill (values : Field → Nat) : Pattern → List Nat
  | [] => []
  | .literal digit :: cells => digit :: fill values cells
  | .field field :: cells =>
      values field / 16 ^ width cells field % 16 :: fill values cells

def ofAddress (digit : Nat) : Pattern :=
  [.literal digit, .field .address, .field .address, .field .address]

def ofByte (digit : Nat) : Pattern :=
  [.literal digit, .field .x, .field .byte, .field .byte]

def ofPair (first last : Nat) : Pattern :=
  [.literal first, .field .x, .field .y, .literal last]

def ofRegister (first third fourth : Nat) : Pattern :=
  [.literal first, .field .x, .literal third, .literal fourth]

end Pattern

namespace Opcode

def pattern : Opcode → Pattern
  | .bare .clearScreen => [.literal 0x0, .literal 0x0, .literal 0xe, .literal 0x0]
  | .bare .ret => [.literal 0x0, .literal 0x0, .literal 0xe, .literal 0xe]
  | .address .jump => .ofAddress 0x1
  | .address .call => .ofAddress 0x2
  | .address .loadIndex => .ofAddress 0xa
  | .address .jumpIndexed => .ofAddress 0xb
  | .byte .skipEqual => .ofByte 0x3
  | .byte .skipUnequal => .ofByte 0x4
  | .byte .load => .ofByte 0x6
  | .byte .add => .ofByte 0x7
  | .byte .random => .ofByte 0xc
  | .pair .skipEqual => .ofPair 0x5 0x0
  | .pair .load => .ofPair 0x8 0x0
  | .pair .or => .ofPair 0x8 0x1
  | .pair .and => .ofPair 0x8 0x2
  | .pair .xor => .ofPair 0x8 0x3
  | .pair .add => .ofPair 0x8 0x4
  | .pair .subtract => .ofPair 0x8 0x5
  | .pair .shiftRight => .ofPair 0x8 0x6
  | .pair .subtractFrom => .ofPair 0x8 0x7
  | .pair .shiftLeft => .ofPair 0x8 0xe
  | .pair .skipUnequal => .ofPair 0x9 0x0
  | .sprite => [.literal 0xd, .field .x, .field .y, .field .n]
  | .register .skipHeld => .ofRegister 0xe 0x9 0xe
  | .register .skipReleased => .ofRegister 0xe 0xa 0x1
  | .register .readDelay => .ofRegister 0xf 0x0 0x7
  | .register .awaitKey => .ofRegister 0xf 0x0 0xa
  | .register .setDelay => .ofRegister 0xf 0x1 0x5
  | .register .setSound => .ofRegister 0xf 0x1 0x8
  | .register .addIndex => .ofRegister 0xf 0x1 0xe
  | .register .glyph => .ofRegister 0xf 0x2 0x9
  | .register .decimal => .ofRegister 0xf 0x3 0x3
  | .register .store => .ofRegister 0xf 0x5 0x5
  | .register .load => .ofRegister 0xf 0x6 0x5

def all : List Opcode :=
  [.bare .clearScreen, .bare .ret, .address .jump, .address .call,
    .byte .skipEqual, .byte .skipUnequal, .pair .skipEqual, .byte .load, .byte .add,
    .pair .load, .pair .or, .pair .and, .pair .xor, .pair .add, .pair .subtract,
    .pair .shiftRight, .pair .subtractFrom, .pair .shiftLeft, .pair .skipUnequal,
    .address .loadIndex, .address .jumpIndexed, .byte .random, .sprite,
    .register .skipHeld, .register .skipReleased, .register .readDelay,
    .register .awaitKey, .register .setDelay, .register .setSound,
    .register .addIndex, .register .glyph, .register .decimal, .register .store,
    .register .load]

theorem mem_all (opcode : Opcode) : opcode ∈ all := by
  rcases opcode with op | op | op | op | _ | op <;> (try cases op) <;> decide

def matchesWord (opcode : Opcode) (word : UInt16) : Bool :=
  opcode.pattern.accepts (Word.digits word)

def ofWord? (word : UInt16) : Option Opcode :=
  all.find? (fun opcode => opcode.matchesWord word)

theorem isSome_ofWord?_iff (word : UInt16) :
    (ofWord? word).isSome ↔ ∃ opcode : Opcode, opcode.matchesWord word := by
  simp only [ofWord?, List.find?_isSome]
  exact ⟨fun ⟨opcode, _, accepted⟩ => ⟨opcode, accepted⟩,
    fun ⟨opcode, accepted⟩ => ⟨opcode, mem_all opcode, accepted⟩⟩

end Opcode

end Chip8
