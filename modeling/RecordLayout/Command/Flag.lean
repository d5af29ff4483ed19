import RecordLayout.Text.Blank
import RecordLayout.Text.Numeral
import RecordLayout.Text.Quoted

/-!
# Options of the command line

An option may be written in full or by any beginning of its name that only it has; its value follows
as the next word, or after an equals sign.

## Main definitions

* `Command.Flag` is an option;
* `Command.Word` is the role of a word, and `Command.classifyAll` finds the roles of all words;
* `Command.UsageError` says why a command line is refused, and `Command.UsageError.message` is the
  wording.
-/

namespace RecordLayout.Command

/-- The options. -/
inductive Flag where
  | help
  | type
  | profile
  | format
  | suggestReorder
  | lookup
  | architecture
  | filter
  | limit
  | verbose
  | output
  deriving DecidableEq, Repr

/-- The ways to write options. -/
def spellings : List (String × Flag) :=
  [("-h", .help), ("--help", .help), ("--type", .type), ("--profile", .profile),
   ("--format", .format), ("--suggest-reorder", .suggestReorder), ("--lookup", .lookup),
   ("--arch", .architecture), ("--filter", .filter), ("--limit", .limit), ("--verbose", .verbose),
   ("--output", .output)]

/-- The option of a name in full. -/
def flagOf? (name : String) : Option Flag := (spellings.find? fun s => s.1 == name).map (·.2)

/-- All ways to write an option. -/
def Flag.label (f : Flag) : String :=
  String.intercalate "/" ((spellings.filter fun s => s.2 == f).map (·.1))

/-- Whether an option comes with a value. -/
def Flag.takesValue : Flag → Bool
  | .help | .suggestReorder => false
  | _ => true

/-! ## Refusals -/

/-- Why a command line is refused. -/
inductive UsageError where
  | ambiguous (word : String) (candidates : List String)
  | valueMissing (flag : Flag)
  /-- A value for an option that has none. -/
  | valueIgnored (flag : Flag) (value : String)
  | notAnInteger (flag : Flag) (value : String)
  | notAChoice (flag : Flag) (value : String) (choices : List String)
  | pathMissing
  | unrecognized (words : List String)
  deriving DecidableEq, Repr

/-- The wording of a refusal that concerns an option. -/
def Flag.complaint (f : Flag) (text : String) : String := "argument " ++ f.label ++ ": " ++ text

/-- The wording of a refusal. -/
def UsageError.message : UsageError → String
  | .ambiguous word candidates =>
    "ambiguous option: " ++ word ++ " could match " ++ String.intercalate ", " candidates
  | .valueMissing flag => flag.complaint "expected one argument"
  | .valueIgnored flag value => flag.complaint ("ignored explicit argument " ++ Text.quoted value)
  | .notAnInteger flag value => flag.complaint ("invalid int value: " ++ Text.quoted value)
  | .notAChoice flag value choices =>
    flag.complaint ("invalid choice: " ++ Text.quoted value ++ " (choose from "
      ++ String.intercalate ", " (choices.map Text.quoted) ++ ")")
  | .pathMissing => "the following arguments are required: path"
  | .unrecognized words => "unrecognized arguments: " ++ String.intercalate " " words

/-! ## Roles of words -/

/-- What stands behind an option in the same word; `short` tells whether the option is a letter
after a single hyphen. -/
structure Attached where
  text : String
  short : Bool
  deriving DecidableEq, Repr

/-- The role of a word. -/
inductive Word where
  | operand (text : String)
  /-- The word after which all words are operands. -/
  | separator
  | option (flag : Flag) (attached : Option Attached)
  | unknown (text : String)
  deriving DecidableEq, Repr

/-- The word that separates options from operands. -/
def separatorText : String := "--"

/-- The value in the same word as an option.  The separator is none. -/
def Attached.value? (a : Attached) : Option String :=
  if a.text = separatorText then none else some a.text

/-- The part of a word before its first equals sign, and the part after it. -/
def cutAtEquals (word : String) : String × Option String :=
  let cs := word.toList
  let name := String.ofList (cs.takeWhile (· ≠ '='))
  match cs.dropWhile (· ≠ '=') with
  | [] => (name, none)
  | _ :: value => (name, some (String.ofList value))

/-- Whether a word has two hyphens in front. -/
def isLong (word : String) : Bool := (Text.dropStart? separatorText word).isSome

/-- An option in a given spelling, with what stands behind it in the same word. -/
def Word.spelled (spelling : String) (flag : Flag) (rest : Option String) : String × Word :=
  (spelling, .option flag (rest.map fun text => ⟨text, !isLong spelling⟩))

/-- The options that a word with a hyphen in front may stand for, as they are written in full. -/
def candidates (word : String) : List (String × Word) :=
  match flagOf? word with
  | some flag => [Word.spelled word flag none]
  | none =>
    let (name, value) := cutAtEquals word
    match flagOf? name with
    | some flag => [Word.spelled name flag value]
    | none =>
      if isLong word then
        (spellings.filter fun s => (Text.dropStart? name s.1).isSome).map fun (spelling, flag) =>
          Word.spelled spelling flag value
      else
        spellings.filterMap fun (spelling, flag) =>
          (Text.dropStart? spelling word).map fun rest => Word.spelled spelling flag (some rest)

/-- Whether all characters are decimal digits. -/
def areDigits (cs : List Char) : Bool := cs.all fun c => (Text.digitValue? c).isSome

/-- Whether a word is a negative number: digits, or a decimal fraction, after a hyphen.  A line feed
at the end does not count. -/
def isNegativeNumber (word : String) : Bool :=
  match word.toList with
  | '-' :: cs =>
    let cs := if cs.getLast? = some '\n' then cs.dropLast else cs
    match cs.dropWhile (· ≠ '.') with
    | [] => !cs.isEmpty && areDigits cs
    | _ :: fraction =>
      areDigits (cs.takeWhile (· ≠ '.')) && !fraction.isEmpty && areDigits fraction
  | _ => false

/-- Whether a word with a hyphen in front is an operand all the same: a negative number, or a word
with a space in it. -/
def isOperand (word : String) : Bool := isNegativeNumber word || word.toList.contains ' '

/-- The role of a word that stands before any separator. -/
def classify (word : String) : Except UsageError Word :=
  match word.toList with
  | '-' :: _ :: _ =>
    match candidates word with
    | [(_, option)] => .ok option
    | [] => .ok (if isOperand word then .operand word else .unknown word)
    | several => .error (.ambiguous word (several.map (·.1)))
  | _ => .ok (.operand word)

/-- The roles of all words. -/
def classifyAll : List String → Except UsageError (List Word)
  | [] => .ok []
  | word :: words =>
    if word = separatorText then .ok (.separator :: words.map .operand)
    else do
      let first ← classify word
      return first :: (← classifyAll words)

end RecordLayout.Command
