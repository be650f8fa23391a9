import SaveRam.Text.Numeral
import SaveRam.Command

/-!
# Arguments

The words of a command line are flags, options with values, and plain words.
The flags `-v` (also `--verbose`, and several in one word as in `-vv`) and
`--strict` may stand before and after the name of the command.  An option has its
value in the same word after `=` or in the next word.  After `--` all words are
plain.  `Invocation.ofArguments?` gives no result for anything that does not
follow these rules: unknown words, options given twice, missing or empty values
and numbers out of range.
-/

namespace SaveRam

/-- One word of a command line. -/
inductive Argument where
  /-- Two dashes alone. -/
  | escape
  /-- Two dashes and a name, maybe with a value after `=`. -/
  | long (name : String) (value : Option String)
  /-- One dash and letters. -/
  | short (letters : List Char)
  /-- Anything else, also a dash alone. -/
  | plain (text : String)
deriving DecidableEq

namespace Argument

/-- The option in the characters behind two dashes. -/
def longOf (cs : List Char) : Argument :=
  let name := String.ofList (cs.takeWhile (· != '='))
  match cs.dropWhile (· != '=') with
  | [] => .long name none
  | _ :: value => .long name (some (String.ofList value))

/-- The kind of a word. -/
def ofList : List Char → Argument
  | ['-', '-'] => .escape
  | '-' :: '-' :: cs => longOf cs
  | '-' :: c :: cs => .short (c :: cs)
  | cs => .plain (String.ofList cs)

/-- The kind of a word given as a string. -/
def ofString (word : String) : Argument := ofList word.toList

end Argument

/-- The flags that stand on one side of the name of the command. -/
structure Flags where
  verbosity : Nat
  strict : Bool
deriving DecidableEq

namespace Flags

/-- No flags at all. -/
def initial : Flags := ⟨0, false⟩

/-- The flags together with one more word, if that is a flag.  `--strict` is
accepted once. -/
def take? (flags : Flags) : Argument → Option Flags
  | .long "verbose" none => some { flags with verbosity := flags.verbosity + 1 }
  | .long "strict" none => if flags.strict then none else some { flags with strict := true }
  | .short letters =>
    if letters.all (· == 'v') then
      some { flags with verbosity := flags.verbosity + letters.length }
    else
      none
  | _ => none

/-- Flags before and after the name of the command together.  A count after the
name replaces one before it. -/
def merge (before after : Flags) : Flags :=
  ⟨if after.verbosity = 0 then before.verbosity else after.verbosity,
    before.strict || after.strict⟩

end Flags

/-- The words behind the name of a command, sorted by kind. -/
structure Given where
  flags : Flags
  options : List (String × String)
  operands : List String

namespace Given

/-- No words yet. -/
def nothing : Given := ⟨.initial, [], []⟩

/-- Sorts words.  Only the options in `names` are known, and each of them is
accepted once. -/
def collect (names : List String) : Given → List String → Option Given
  | given, [] => some given
  | given, word :: rest =>
    let argument := Argument.ofString word
    match given.flags.take? argument with
    | some flags => collect names { given with flags } rest
    | none =>
      match argument with
      | .escape => some { given with operands := given.operands ++ rest }
      | .plain text => collect names { given with operands := given.operands ++ [text] } rest
      | .short _ => none
      | .long name value =>
        if name ∈ names ∧ (given.options.lookup name).isNone then
          match value, rest with
          | some text, rest =>
            collect names { given with options := (name, text) :: given.options } rest
          | none, [] => none
          | none, next :: rest =>
            match Argument.ofString next with
            | .plain text =>
              collect names { given with options := (name, text) :: given.options } rest
            | _ => none
        else
          none

/-- The file name that an option gives, or its standard one. -/
def path? (given : Given) (name standard : String) : Option String :=
  match given.options.lookup name with
  | none => some standard
  | some text => if text.isEmpty then none else some text

/-- The 32-bit number that an option gives, or its standard one.  The number may
have a sign. -/
def count? (given : Given) (name : String) (standard : UInt32) : Option UInt32 :=
  match given.options.lookup name with
  | none => some standard
  | some text =>
    match Numeral.signed? 10 text.toList with
    | none => none
    | some n => if 0 ≤ n.toInt ∧ n.toInt < UInt32.size then some n.toInt.toNat.toUInt32 else none

/-- The value of decimal digits, maybe after a plus sign. -/
def natural? : List Char → Option Nat
  | '+' :: cs => Numeral.digits? 10 cs
  | cs => Numeral.digits? 10 cs

/-- The 64-bit number that an option gives, or its standard one. -/
def size? (given : Given) (name : String) (standard : UInt64) : Option UInt64 :=
  match given.options.lookup name with
  | none => some standard
  | some text =>
    match natural? text.toList with
    | none => none
    | some n => if n < UInt64.size then some n.toUInt64 else none

/-- The single operand of a command that wants a file. -/
def operand? (given : Given) : Option String :=
  match given.operands with
  | [name] => if name.isEmpty then none else some name
  | _ => none

end Given

/-- A complete request: a command and the flags that go for every command. -/
structure Invocation where
  verbosity : Nat
  strict : Bool
  command : Command
deriving DecidableEq

namespace Invocation

/-- The option names of a command. -/
def optionNames : String → List String
  | "search" => ["snapshot", "seed-program", "probe-program", "outer", "inner"]
  | "dump" => ["snapshot", "program", "iterations", "output"]
  | _ => []

/-- The command with a name, from the words behind the name. -/
def command? (name : String) (given : Given) : Option Command :=
  match name with
  | "search" => do
    let snapshot ← given.path? "snapshot" "sram_start.dmp"
    let seedProgram ← given.path? "seed-program" "behavior_c6.txt"
    let probeProgram ← given.path? "probe-program" "behavior_dc.txt"
    let rounds ← given.count? "outer" Bounds.standard.rounds
    let passes ← given.count? "inner" Bounds.standard.passes
    guard given.operands.isEmpty
    return .search snapshot seedProgram probeProgram rounds passes
  | "dump" => do
    let snapshot ← given.path? "snapshot" "sram_start.dmp"
    let program ← given.path? "program" "behavior_1f.txt"
    let iterations ← given.size? "iterations" 63
    let output ← given.path? "output" "sram_noice.dmp"
    guard given.operands.isEmpty
    return .dump snapshot program iterations output
  | "disasm" => do
    let program ← given.operand?
    return .disasm program
  | _ => none

/-- The invocation in the words behind some flags. -/
def ofWords? : Flags → List String → Option Invocation
  | _, [] => none
  | flags, word :: rest =>
    match Argument.ofString word with
    | .plain name => do
      let given ← Given.nothing.collect (optionNames name) rest
      let command ← command? name given
      let flags := flags.merge given.flags
      return ⟨flags.verbosity, flags.strict, command⟩
    | argument => do ofWords? (← flags.take? argument) rest

/-- The invocation that a command line asks for. -/
def ofArguments? (words : List String) : Option Invocation := ofWords? .initial words

end Invocation

end SaveRam
