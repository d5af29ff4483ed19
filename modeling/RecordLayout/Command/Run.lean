import RecordLayout.Command.Settings
import RecordLayout.Container.Load
import RecordLayout.Document.Basic
import RecordLayout.Dwarf.Scan
import RecordLayout.Dwarf.Verify
import RecordLayout.FileTree
import RecordLayout.Json.Reader
import RecordLayout.Report.Assertions
import RecordLayout.Report.Json
import RecordLayout.Report.Lookup
import RecordLayout.Report.Markdown
import RecordLayout.Text.Line

/-!
# The command

A command line names a file.  If it is a document, the types in it are laid out and reported; if it
is a container, the types that its debugging information records are listed, or one of them is
verified.

## Main definitions

* `Command.Outcome` is what a run comes to;
* `Command.run` is the run of a command line over files;
* `Command.pathsOf` lists the paths that a run may ask for.
-/

namespace RecordLayout.Command

/-- The name of the command. -/
def name : String := "bytewise"

/-- What a run can fail by. -/
inductive Fault where
  | failure (f : Failure)
  | file (e : FileError)
  | encoding (f : Text.Utf8.Fault)
  /-- An option that cannot do without a value has none. -/
  | valueAbsent (flag : Flag)
  deriving Repr

/-- The exit status of a run. -/
inductive Status where
  | ok
  | badInput
  | layoutError
  | mismatch
  deriving DecidableEq, Repr

/-- The number of a status. -/
def Status.code : Status → Nat
  | .ok => 0
  | .badInput => 1
  | .layoutError => 2
  | .mismatch => 3

/-- The status and the wording of a fault that a run answers for; the others end it. -/
def Fault.answer? : Fault → Option (Status × String)
  | .failure (.layout e) => some (.layoutError, e.text)
  | .failure (.document e) => some (.badInput, e.message)
  | .failure (.profile e) => some (.badInput, e.message)
  | .failure (.request e) => some (.badInput, e.message)
  | .failure (.container e) => some (.badInput, e.message)
  -- A step without a meaning is no fault of the input that a run knows of.
  | .failure (.expression (.unknownStep _)) => none
  | .failure (.expression e) => some (.badInput, e.message)
  | .failure _ => none
  | .file e => some (.badInput, e.message)
  | .encoding f => some (.badInput, f.message)
  | .valueAbsent _ => none

/-- The message on a fault. -/
def faultLine (message : String) : String := name ++ ": " ++ message ++ "\n"

/-- The message on a command line that is refused. -/
def usageLine (e : UsageError) : String := name ++ ": error: " ++ e.message

/-- The last line of that message, without blanks at its end. -/
def lastUsageLine (e : UsageError) : String := Text.lastLine (Text.stripEnd (usageLine e))

/-- What a run comes to. -/
inductive Outcome where
  | help
  | usage (e : UsageError)
  /-- The run answered; `output` went to the file `written`, if there is one. -/
  | finished (status : Status) (output diagnostics : String) (written : Option String)
  /-- The run was ended by a fault. -/
  | aborted (fault : Fault)

/-! ## Reading files -/

/-- A failure as a fault. -/
def ofFailure {α : Type} : Except Failure α → Except Fault α
  | .ok a => .ok a
  | .error f => .error (.failure f)

/-- What the file of a path holds. -/
def readFile (files : Files) (path : String) : Except Fault Contents :=
  match files.read path with
  | .ok contents => .ok contents
  | .error e => .error (.file e)

/-- Whether a file is a container. -/
def isContainer : Contents → Bool
  | .octets bs => Container.isContainer bs
  | .recorded _ => true

/-- The first octets of a container that was read before. -/
def containerStart : List UInt8 := [0x7f, 0x45, 0x4c, 0x46]

/-- The text of a file, with one kind of line ends. -/
def textOf (contents : Contents) : Except Fault String :=
  -- Of a container that was read before only the first octets are at hand.
  let octets := match contents with
    | .octets bs => bs
    | .recorded _ => containerStart
  match Text.Utf8.decode octets with
  | .ok text => .ok (String.ofList (Text.joinLines text.toList))
  | .error f => .error (.encoding f)

/-- The text of the file of a path. -/
def readText (files : Files) (path : String) : Except Fault String := do
  textOf (← readFile files (PathName.normalize path))

/-- The document of a file. -/
def loadDocument (files : Files) (path : String) : Except Fault Document := do
  match Json.read (← readText files path) with
  | .ok v => ofFailure (Document.ofJson path v)
  | .error problem => .error (.failure (.document (.badJson path problem)))

/-- The profile of a file, which is named after the file unless it has a name. -/
def loadProfile (files : Files) (path : String) : Except Fault Profile := do
  match Json.read (← readText files path) with
  | .ok v => ofFailure (Profile.ofJson (PathName.stem path) v)
  | .error problem => .error (.failure (.profile (.badJson path problem)))

/-- Whether a name ends in the extension of profile files. -/
def isProfileFileName (value : String) : Bool :=
  (Text.dropList? ".json".toList.reverse value.toList.reverse).isSome

/-- A built-in profile by name, or the profile of a file. -/
def resolveProfile (files : Files) (value : String) : Except Fault Profile :=
  match Profile.named? value with
  | some p => .ok p
  | none =>
    if isProfileFileName value || files.isFile (PathName.normalize value) then
      loadProfile files value
    else ofFailure (Profile.named value)

/-- The debugging information of a container. -/
def loadInfo (path : String) (contents : Contents) (architecture : Option String) :
    Except Fault Dwarf.Info :=
  match contents with
  | .recorded info => .ok info
  | .octets bs => ofFailure ((Container.load path bs architecture).map (·.info))

/-! ## Running -/

/-- The report of entries in the format that is asked for. -/
def render (s : Settings) (p : Profile) (entries : List Report.Entry) : String :=
  match s.format with
  | .json => Report.json entries p
  | .markdown => Report.markdown entries (PathName.name s.path)
  | .source => Report.source entries
  | .text => String.intercalate "\n" (entries.map Report.text)

/-- The types of a document that a report is about. -/
def targets (s : Settings) (d : Document) : Except Failure (List (String × TypeNode)) :=
  match s.typeName with
  | some name => (d.get name).map fun node => [(name, node)]
  | none => .ok d.aggregates

/-- The report on a document. -/
def report (s : Settings) (d : Document) (p : Profile) : EngineM String := do
  match targets s d with
  | .error f => throw f
  | .ok types =>
    let entries ← Report.entries p s.suggestReorder types
    match s.lookup with
    | none => return render s p entries
    | some member =>
      match Report.lookup member entries with
      | .ok text => return text
      | .error f => throw f

/-- What a run over a file comes to before its output is put anywhere: the status and the output, or
a fault, and the diagnostics so far. -/
abbrev Result := Except Fault (Status × String) × String

/-- A run that failed before it had anything to note. -/
def failed (fault : Fault) : Result := (.error fault, "")

/-- The profile that is asked for, or else a given one. -/
def profileOr (files : Files) (s : Settings) (otherwise : Profile) : Except Fault Profile :=
  match s.profile with
  | some value => resolveProfile files value
  | none => .ok otherwise

/-- The notes of an engine. -/
def engineNotes (e : Engine) : String := String.join e.log.toList

/-- A run over a document. -/
def runDocument (files : Files) (s : Settings) (channels : Channels) : Result :=
  let loaded : Except Fault (Document × Profile) := do
    let d ← loadDocument files s.path
    return (d, ← profileOr files s (d.profile.getD .lp64))
  match loaded with
  | .error fault => failed fault
  | .ok (d, p) =>
    let (output, engine) := (report s d p).run (.make channels none)
    (ofFailure (output.map fun text => (.ok, text)), engineNotes engine)

/-- The notes on recorded types as they are written. -/
def recordedNotes (channels : Channels) (notes : List String) : String :=
  if channels.enables "dwarf" then String.join (notes.map (Channels.line "dwarf")) else ""

/-- The outcome of a verification as output. -/
def verificationText (name : String) (r : Dwarf.VerifyReport) : String :=
  r.text ++ Report.text ⟨name, none, r.layout, none⟩

/-- The listing of recorded types. -/
def runListing (s : Settings) (info : Dwarf.Info) : Result :=
  match s.limit with
  | none => failed (.valueAbsent .limit)
  | some limit =>
    (ofFailure ((Dwarf.scan info s.filter limit).map fun summary => (.ok, summary.text)), "")

/-- The verification of a recorded type. -/
def runVerification (info : Dwarf.Info) (channels : Channels) (name : String) (p : Profile) :
    Result :=
  let v := Dwarf.verify info name p (.make channels none)
  let notes := recordedNotes channels v.builder.log.toList ++ engineNotes v.engine
  match v.outcome with
  | .error f => (.error (.failure f), notes)
  | .ok r =>
    (.ok (if r.ok then .ok else .mismatch, verificationText name r),
      notes ++ recordedNotes channels [r.note])

/-- A run over a container. -/
def runContainer (files : Files) (s : Settings) (channels : Channels) (contents : Contents) :
    Result :=
  match loadInfo s.path contents s.architecture with
  | .error fault => failed fault
  | .ok info =>
    match s.typeName with
    | none => runListing s info
    | some name =>
      match profileOr files s .lp64 with
      | .error fault => failed fault
      | .ok p => runVerification info channels name p

/-- A run over the file of the settings. -/
def runFile (files : Files) (s : Settings) : Result :=
  match s.channels with
  | none => failed (.valueAbsent .verbose)
  | some channels =>
    match readFile files s.path with
    | .error fault => failed fault
    | .ok contents =>
      if isContainer contents then runContainer files s channels contents
      else runDocument files s channels

/-- What a result comes to: a fault is answered for without any output, and output goes to a file if
that is asked for. -/
def finish (files : Files) (s : Settings) : Result → Outcome
  | (.error fault, diagnostics) =>
    match fault.answer? with
    | some (status, message) => .finished status "" (diagnostics ++ faultLine message) none
    -- What no answer is meant for ends the run.
    | none => .aborted fault
  | (.ok (status, output), diagnostics) =>
    match s.output with
    | none => .finished status output diagnostics none
    | some path =>
      let path := PathName.normalize path
      match files.checkWritable path with
      | .ok () => .finished status output diagnostics (some path)
      | .error e => .aborted (.file e)

/-- The paths that the run of a command line may ask for. -/
def pathsOf (words : List String) : List String :=
  match Settings.parse words with
  | .error _ => []
  | .ok s => s.path :: ([s.path] ++ s.profile.toList ++ s.output.toList).map PathName.normalize

/-- The run of a command line over files. -/
def run (files : Files) (words : List String) : Outcome :=
  match Settings.parse words with
  | .error .help => .help
  | .error (.usage e) => .usage e
  | .ok s => finish files s (runFile files s)

end RecordLayout.Command
