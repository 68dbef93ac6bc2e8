import Chip8.Json.Form
import Chip8.Machine

/-!
The JSON forms of dialects, settings, presets, regions, run states, screens and
instructions.
-/

namespace Chip8

instance : Form Dialect where
  toJson dialect := .record
    [("shift_vy", .boolean dialect.shiftsSecond),
      ("dma_hold_i", .boolean dialect.keepsIndex),
      ("screen_wrap", .boolean dialect.wrapsSprites),
      ("vf_reset", .boolean dialect.clearsFlag),
      ("jump_vx", .boolean dialect.jumpsByAddress),
      ("vf_last", .boolean dialect.flagLast)]
  ofJson? json := do
    let fields ← json.fields?
      ["shift_vy", "dma_hold_i", "screen_wrap", "vf_reset", "jump_vx", "vf_last"]
    match ← fields.mapM Json.boolean? with
    | [shiftsSecond, keepsIndex, wrapsSprites, clearsFlag, jumpsByAddress, flagLast] =>
        some { shiftsSecond, keepsIndex, wrapsSprites, clearsFlag, jumpsByAddress, flagLast }
    | _ => none

instance : Form Settings where
  toJson settings := .record
    [("debug", .boolean settings.traces),
      ("pause", .boolean settings.paused),
      ("quirks", Form.toJson settings.dialect)]
  ofJson? json := do
    match ← json.fields? ["debug", "pause", "quirks"] with
    | [traces, paused, dialect] =>
        some
          { traces := ← traces.boolean?
            paused := ← paused.boolean?
            dialect := ← Form.ofJson? dialect }
    | _ => none

def Preset.label : Preset → String
  | .chip8 => "Chip8"
  | .vip => "Vip"
  | .superChip => "SChip"

instance : Form Preset where
  toJson preset := .variant preset.label
  ofJson? json := do
    let (name, carried) ← json.variant?
    if Json.carriesNothing carried then
      Preset.all.find? (fun preset => preset.label == name)
    else none

instance : Form Region where
  toJson
    | .program => .variant "Program"
  ofJson? json := do
    let (name, carried) ← json.variant?
    if name = "Program" ∧ Json.carriesNothing carried then some .program else none

instance : Form RunState where
  toJson
    | .running => .variant "Running"
    | .awaitingKey register =>
        .record [("AwaitingKey", .record [("reg", .ofNat register.toNat)])]
  ofJson? json := do
    match ← json.variant? with
    | ("Running", carried) => if Json.carriesNothing carried then some .running else none
    | ("AwaitingKey", some carried) =>
        match ← carried.fields? ["reg"] with
        | [register] =>
            some (.awaitingKey (UInt64.ofNat (← register.below? UInt64.size)))
        | _ => none
    | _ => none

namespace Screen

def ofRows? (rows : List (BitVec 64)) : Option Screen :=
  if sized : rows.length = 32 then some { rows := ⟨rows.toArray, by simp [sized]⟩ } else none

end Screen

instance : Form Screen where
  toJson screen := .record
    [("rows", .array (screen.rows.toList.map fun row => .ofNat row.toNat))]
  ofJson? json := do
    match ← json.fields? ["rows"] with
    | [.array items] =>
        let numbers ← items.mapM (Json.below? UInt64.size)
        Screen.ofRows? (numbers.map (BitVec.ofNat 64))
    | _ => none

def Field.label : Field → String
  | .x => "x"
  | .y => "y"
  | .n => "n"
  | .byte => "B"
  | .address => "A"

/-- The operand type of a field holds the numbers below its bound. -/
def Field.bound : Field → Nat
  | .x => UInt64.size
  | .y => UInt64.size
  | .n => UInt8.size
  | .byte => UInt8.size
  | .address => UInt16.size

namespace Opcode

def fields : Opcode → List Field
  | .bare _ => []
  | .address _ => [.address]
  | .byte _ => [.byte, .x]
  | .pair .load => [.x, .y]
  | .pair _ => [.y, .x]
  | .sprite => [.y, .x, .n]
  | .register _ => [.x]

def label : Opcode → String
  | .bare .clearScreen => "cls"
  | .bare .ret => "ret"
  | .address .jump => "jmp"
  | .address .call => "call"
  | .address .loadIndex => "movI"
  | .address .jumpIndexed => "jmpr"
  | .byte .skipEqual => "seb"
  | .byte .skipUnequal => "sneb"
  | .byte .load => "movb"
  | .byte .add => "addb"
  | .byte .random => "rand"
  | .pair .skipEqual => "se"
  | .pair .skipUnequal => "sne"
  | .pair .load => "mov"
  | .pair .or => "or"
  | .pair .and => "and"
  | .pair .xor => "xor"
  | .pair .add => "add"
  | .pair .subtract => "sub"
  | .pair .shiftRight => "shr"
  | .pair .subtractFrom => "bsub"
  | .pair .shiftLeft => "shl"
  | .sprite => "draw"
  | .register .skipHeld => "sek"
  | .register .skipReleased => "snek"
  | .register .readDelay => "getdt"
  | .register .awaitKey => "waitk"
  | .register .setDelay => "setdt"
  | .register .setSound => "movst"
  | .register .addIndex => "addI"
  | .register .glyph => "font"
  | .register .decimal => "bcd"
  | .register .store => "dmao"
  | .register .load => "dmai"

def ofLabel? (label : String) : Option Opcode :=
  all.find? (fun opcode => opcode.label == label)

end Opcode

namespace Instruction

def readOperands? (fields : List Field) (json : Json) : Option (Field → Nat) := do
  let values ← json.fields? (fields.map Field.label)
  let numbers ← (fields.zip values).mapM fun (field, value) => value.below? field.bound
  some fun field => ((fields.zip numbers).lookup field).getD 0

end Instruction

instance : Form Instruction where
  toJson instruction :=
    let opcode := instruction.opcode
    if opcode.fields.isEmpty then .variant opcode.label
    else
      .record [(opcode.label, .record (opcode.fields.map fun field =>
        (field.label, .ofNat (instruction.operand field))))]
  ofJson? json := do
    let (label, carried) ← json.variant?
    let opcode ← Opcode.ofLabel? label
    if opcode.fields.isEmpty then
      if Json.carriesNothing carried then some (.ofOperands opcode fun _ => 0) else none
    else
      (Instruction.readOperands? opcode.fields (← carried)).map (.ofOperands opcode)

end Chip8
