import Chip8.FileTree
import Chip8.Text.Numeral

/-!
Command lines. An option is a switch or, when it has an operand, a setting. It
has a long name and a letter; letters of switches may be bundled, and an operand
follows its option in the same argument or as the next one. A reader turns
arguments into the occurrences that they write, up to the first that is wrong.
-/

namespace Chip8.CommandLine

structure Choice (ι : Type) where
  id : ι
  letter : Char
  name : String
  /-- What the usage calls the operand of a setting. -/
  operand : Option String
  help : String

/-- What a command line is refused for. Options are shown as they were written. -/
inductive Complaint
  | invalidOperand (shown reason : String)
  | missingOperand (shown : String)
  | unrecognized (shown : String)
  | noOperand (shown : String)
  | unexpectedFree (argument : String)
  | missingFree
  deriving DecidableEq, Repr

namespace Complaint

def quoted (text : String) : String := "\x60" ++ text ++ "\x60"

def message : Complaint → String
  | .invalidOperand shown reason =>
      "invalid argument to option " ++ quoted shown ++ ": " ++ reason
  | .missingOperand shown => "missing argument to option " ++ quoted shown
  | .unrecognized shown => "unrecognized option " ++ quoted shown
  | .noOperand shown => "option " ++ quoted shown ++ " does not accept an argument"
  | .unexpectedFree argument => "unexpected free argument " ++ quoted argument
  | .missingFree => "missing required free argument"

end Complaint

inductive Occurrence (ι : Type)
  | switch (id : ι)
  | setting (id : ι) (shown operand : String)
  | free (argument : String)

/-- How one argument ends: complete, with a setting that takes the next argument
as its operand, or wrong. -/
inductive Ending (ι : Type)
  | complete
  | wants (id : ι) (shown : String)
  | wrong (complaint : Complaint)

structure Argument (ι : Type) where
  occurrences : List (Occurrence ι)
  ending : Ending ι

namespace Argument

variable {ι : Type}

def one (occurrence : Occurrence ι) : Argument ι :=
  { occurrences := [occurrence], ending := .complete }

def wrong (complaint : Complaint) : Argument ι :=
  { occurrences := [], ending := .wrong complaint }

/-- Letters after one dash. What follows the letter of a setting is its operand. -/
def ofLetters (choices : List (Choice ι)) : List Char → Argument ι
  | [] => { occurrences := [], ending := .complete }
  | letter :: rest =>
      let shown := String.ofList ['-', letter]
      match choices.find? (fun choice => choice.letter == letter) with
      | none => wrong (.unrecognized shown)
      | some choice =>
          if choice.operand.isNone then
            let more := ofLetters choices rest
            { more with occurrences := .switch choice.id :: more.occurrences }
          else if rest.isEmpty then
            { occurrences := [], ending := .wants choice.id shown }
          else one (.setting choice.id shown (String.ofList rest))

/-- A name after two dashes, with an operand if there is an equals sign. -/
def ofName (choices : List (Choice ι)) (chars : List Char) : Argument ι :=
  let name := String.ofList (chars.takeWhile (· != '='))
  let shown := "--" ++ name
  match choices.find? (fun choice => choice.name == name) with
  | none => wrong (.unrecognized shown)
  | some choice =>
      match choice.operand, chars.dropWhile (· != '=') with
      | none, [] => one (.switch choice.id)
      | none, _ :: _ => wrong (.noOperand shown)
      | some _, [] => { occurrences := [], ending := .wants choice.id shown }
      | some _, _ :: operand => one (.setting choice.id shown (String.ofList operand))

def ofText (choices : List (Choice ι)) (text : String) : Argument ι :=
  match text.toList with
  | '-' :: '-' :: name => ofName choices name
  | '-' :: letter :: rest => ofLetters choices (letter :: rest)
  | _ => one (.free text)

end Argument

structure Line (ι : Type) where
  occurrences : List (Occurrence ι)
  complaint : Option Complaint

namespace Line

variable {ι : Type}

def append (earlier : List (Occurrence ι)) (line : Line ι) : Line ι :=
  { line with occurrences := earlier ++ line.occurrences }

/-- After two dashes alone all arguments are free. -/
def read (choices : List (Choice ι)) : List String → Line ι
  | [] => { occurrences := [], complaint := none }
  | text :: rest =>
      if text = "--" then { occurrences := rest.map .free, complaint := none }
      else
        let argument := Argument.ofText choices text
        match argument.ending with
        | .complete => append argument.occurrences (read choices rest)
        | .wrong complaint =>
            { occurrences := argument.occurrences, complaint := some complaint }
        | .wants id shown =>
            match rest with
            | [] =>
                { occurrences := argument.occurrences
                  complaint := some (.missingOperand shown) }
            | operand :: later =>
                append (argument.occurrences ++ [.setting id shown operand])
                  (read choices later)

/-- Apply the occurrences one after another; the first that is refused, or else
what is wrong after them, decides. -/
def apply {σ : Type} (line : Line ι) (take : σ → Occurrence ι → Except Complaint σ)
    (initial : σ) : Except Complaint σ :=
  match line.occurrences.foldlM take initial, line.complaint with
  | .error complaint, _ => .error complaint
  | .ok _, some complaint => .error complaint
  | .ok final, none => .ok final

end Line

/-- What cuts the arguments of a command line into what they write. -/
structure Reader (ι : Type) where
  read : List (Choice ι) → List String → Line ι

def Reader.standard {ι : Type} : Reader ι := { read := Line.read }

structure Program (ι : Type) where
  name : String
  fileHelp : String
  choices : List (Choice ι)

structure Exit where
  code : Nat
  output : String
  errors : String
  deriving DecidableEq, Repr

namespace Program

variable {ι : Type}

def row (choice : Choice ι) : String × String :=
  let operand :=
    match choice.operand with
    | none => ""
    | some operand => " " ++ operand
  (String.ofList ['-', choice.letter] ++ ", --" ++ choice.name ++ operand, choice.help)

def fileRow (program : Program ι) : String × String := ("file", program.fileHelp)

/-- Two blanks stand behind the longest text of the first column. -/
def column (program : Program ι) : Nat :=
  (program.fileRow :: program.choices.map row).foldl
    (fun widest cells => max widest cells.1.length) 0 + 2

def rowText (program : Program ι) (cells : String × String) : String :=
  "  " ++ Text.padEnd program.column cells.1 ++ cells.2 ++ "\n"

def usage (program : Program ι) : String :=
  "Usage: " ++ program.name ++ " [OPTIONS]\n\nPositional arguments:\n" ++
    program.rowText program.fileRow ++ "\nOptional arguments:\n" ++
    String.join (program.choices.map fun choice => program.rowText (row choice))

def refuse (program : Program ι) (complaint : Complaint) : Exit :=
  { code := 2, output := "", errors := program.name ++ ": " ++ complaint.message ++ "\n" }

def showUsage (program : Program ι) : Exit :=
  { code := 0, output := "", errors := program.usage }

end Program

/-- A program that cannot begin tells why and exits with code one. -/
def Exit.failure (record : String) : Exit :=
  { code := 1, output := "", errors := "Error: " ++ record ++ "\n" }

/-- What a command line asks for: to exit at once, or to go on with a file. -/
inductive Plan (σ : Type)
  | now (exit : Exit)
  | withFile (path : String) (options : σ)

def Program.plan {ι σ : Type} (program : Program ι) (help : Bool) (file : Option String)
    (options : σ) : Plan σ :=
  if help then .now program.showUsage
  else
    match file with
    | none => .now (program.refuse .missingFree)
    | some path => .withFile path options

/-- Carry a plan out, when `fileNamed` tells what files hold. -/
def Plan.run {σ : Type} (plan : Plan σ) (use : σ → List UInt8 → Exit)
    (fileNamed : String → Except FileFault (List UInt8)) : Exit :=
  match plan with
  | .now exit => exit
  | .withFile path options =>
      match fileNamed path with
      | .error fault => .failure fault.record
      | .ok contents => use options contents

end Chip8.CommandLine
