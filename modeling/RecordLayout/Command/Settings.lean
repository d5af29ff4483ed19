import RecordLayout.Command.Flag
import RecordLayout.Diagnostics

/-!
# Settings of a run

## Main definitions

* `Command.Settings` has what a command line asks for;
* `Command.Settings.parse` reads it from the words of the command line.
-/

namespace RecordLayout.Command

/-- The formats of a report. -/
inductive ReportFormat where
  | text
  | json
  | markdown
  | source
  deriving DecidableEq, Repr, Inhabited

/-- The names of the formats. -/
def formatNames : List (String × ReportFormat) :=
  [("text", .text), ("json", .json), ("markdown", .markdown), ("c", .source)]

/-- What a command line asks for. -/
structure Settings where
  path : String
  typeName : Option String
  profile : Option String
  format : ReportFormat
  suggestReorder : Bool
  lookup : Option String
  architecture : Option String
  filter : Option String
  /-- The number of types that a listing names at most, unless the option came without one. -/
  limit : Option Int
  /-- The channels that are asked for, unless the option came without any value. -/
  channels : Option Channels
  output : Option String
  deriving Repr

/-- The settings for a path without any option. -/
def Settings.plain (path : String) : Settings :=
  { path
    typeName := none
    profile := none
    format := .text
    suggestReorder := false
    lookup := none
    architecture := none
    filter := none
    limit := some 100
    channels := some []
    output := none }

/-- An empty value counts as none. -/
def given (value : Option String) : Option String := value.filter (· ≠ "")

/-- The settings with an option that comes with a value.  Without one, the format is again the plain
text, and a setting that may be absent is so. -/
def Settings.set (s : Settings) (flag : Flag) (value : Option String) :
    Except UsageError Settings :=
  match flag with
  | .help | .suggestReorder => .error (.valueIgnored flag (value.getD separatorText))
  | .type => .ok { s with typeName := given value }
  | .profile => .ok { s with profile := given value }
  | .lookup => .ok { s with lookup := given value }
  | .architecture => .ok { s with architecture := given value }
  | .filter => .ok { s with filter := given value }
  | .verbose => .ok { s with channels := value.map Channels.parse }
  | .output => .ok { s with output := given value }
  | .limit =>
    match value with
    | none => .ok { s with limit := none }
    | some text =>
      match Text.integer? text with
      | some n => .ok { s with limit := some n }
      | none => .error (.notAnInteger .limit text)
  | .format =>
    match value with
    | none => .ok { s with format := .text }
    | some text =>
      match formatNames.find? fun f => f.1 == text with
      | some (_, format) => .ok { s with format }
      | none => .error (.notAChoice .format text (formatNames.map (·.1)))

/-- Why a command line does not lead to a run. -/
inductive Stop where
  | help
  | usage (e : UsageError)
  deriving DecidableEq, Repr

/-- A refusal. -/
def refuse {α : Type} (e : UsageError) : Except Stop α := .error (.usage e)

/-- A check of the command line. -/
def checked {α : Type} : Except UsageError α → Except Stop α
  | .ok a => .ok a
  | .error e => refuse e

/-- What the short option for help comes to with more in the same word: each letter is an option of
its own, and help is the only one. -/
def helpWith : List Char → Stop
  | ['h'] => .help
  | 'h' :: letters => helpWith letters
  | letters => .usage (.valueIgnored .help (String.ofList letters))

/-- The words of a command line, as far as they are read. -/
structure Progress where
  settings : Settings
  /-- Whether the path was given. -/
  hasPath : Bool
  /-- The words that have no place. -/
  left : List String

namespace Progress

/-- Before the first word. -/
def start : Progress := ⟨.plain "", false, []⟩

/-- With one more word that has no place. -/
def leave (p : Progress) (word : String) : Progress := { p with left := p.left ++ [word] }

/-- With the path. -/
def withPath (p : Progress) (path : String) : Progress :=
  { p with settings := { p.settings with path }, hasPath := true }

/-- With an option and its value. -/
def set (p : Progress) (flag : Flag) (value : Option String) : Except Stop Progress :=
  (checked (p.settings.set flag value)).map fun settings => { p with settings }

/-- With an option that has no value. -/
def switch (p : Progress) (flag : Flag) (attached : Option Attached) : Except Stop Progress :=
  match flag, attached with
  | .help, none => .error .help
  | .help, some ⟨text, true⟩ => .error (helpWith text.toList)
  | flag, some a => refuse (.valueIgnored flag a.text)
  | _, none => .ok { p with settings := { p.settings with suggestReorder := true } }

/-- Reads words.  The first operand is the path; a separator next to it does not count. -/
def read (p : Progress) : List Word → Except Stop Progress
  | [] => .ok p
  | .unknown word :: words => (p.leave word).read words
  | .operand word :: words =>
    if p.hasPath then (p.leave word).read words
    else
      -- The path takes along a separator behind it; the case below does so for one in front.
      match words with
      | .separator :: rest => (p.withPath word).read rest
      | rest => (p.withPath word).read rest
  | .separator :: words =>
    match p.hasPath, words with
    | false, .operand word :: rest => (p.withPath word).read rest
    | _, rest => (p.leave separatorText).read rest
  | .option flag attached :: words =>
    if flag.takesValue then
      match attached, words with
      | some a, rest => do (← p.set flag a.value?).read rest
      -- Only an operand can be the value: an option behind an option leaves it without one.
      | none, .operand value :: rest => do (← p.set flag (some value)).read rest
      | none, _ => refuse (.valueMissing flag)
    else do (← p.switch flag attached).read words
termination_by words => words.length
decreasing_by all_goals simp only [wfParam, List.length_cons]; omega

end Progress

/-- The settings that the words of a command line ask for. -/
def Settings.parse (words : List String) : Except Stop Settings := do
  let p ← Progress.start.read (← checked (classifyAll words))
  -- A missing path is reported first, words without a place after it.
  if !p.hasPath then refuse .pathMissing
  else if !p.left.isEmpty then refuse (.unrecognized p.left)
  else return p.settings

end RecordLayout.Command
