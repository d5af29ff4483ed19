import RecordLayout.Dwarf.Basic
import RecordLayout.Failure

/-!
# Location expressions

The place of a member may be recorded as a program that adds to the address of the aggregate.  A
program is a sequence of steps, each of them a code and the operands that the code asks for.  It
must be readable to its end, but only a program of a single step with a constant gives a place.

## Main definitions

* `Dwarf.operandsOf?` has the operands of each code;
* `Dwarf.Step` is a step, and `Dwarf.readSteps` reads a program;
* `Dwarf.placeOf?` is the place that a program gives, and `Dwarf.constantOffset` reads it from the
  octets of a program.
-/

namespace RecordLayout.Dwarf

/-- How an operand is written. -/
inductive Operand where
  /-- A number in `count` octets. -/
  | octets (count : Nat)
  | address
  | unsigned
  | signed
  /-- A block after its length. -/
  | block
  /-- A block after its length, which is a single octet. -/
  | shortBlock
  /-- A program after its length. -/
  | program
  /-- A kind of place and its index. -/
  | place
  deriving DecidableEq, Repr

/-- The operands of single codes. -/
def operandTable : List (Nat × List Operand) :=
  [(0x03, [.address]), (0x06, []), (0x08, [.octets 1]), (0x09, [.octets 1]), (0x0a, [.octets 2]),
   (0x0b, [.octets 2]), (0x0c, [.octets 4]), (0x0d, [.octets 4]), (0x0e, [.octets 4, .octets 4]),
   (0x0f, [.octets 4, .octets 4]), (0x10, [.unsigned]), (0x11, [.signed]), (0x15, [.octets 1]),
   (0x23, [.unsigned]), (0x28, [.octets 2]), (0x2f, [.octets 2]), (0x90, [.unsigned]),
   (0x91, [.signed]), (0x92, [.unsigned, .signed]), (0x93, [.unsigned]), (0x94, [.octets 1]),
   (0x95, [.octets 1]), (0x96, []), (0x97, []), (0x98, [.octets 2]), (0x99, [.octets 4]),
   (0x9a, [.octets 4]), (0x9b, []), (0x9c, []), (0x9d, [.unsigned, .unsigned]), (0x9e, [.block]),
   (0x9f, []), (0xa0, [.octets 4, .signed]), (0xa1, [.unsigned]), (0xa3, [.program]),
   (0xa4, [.unsigned, .shortBlock]), (0xa5, [.unsigned, .unsigned]), (0xa6, [.octets 1, .unsigned]),
   (0xa8, [.unsigned]), (0xe0, []), (0xed, [.place]), (0xf0, []), (0xf2, [.octets 4, .signed]),
   (0xf3, [.program]), (0xf4, [.unsigned, .shortBlock]), (0xf5, [.unsigned, .unsigned]),
   (0xf6, [.octets 1, .unsigned]), (0xf7, [.unsigned]), (0xfa, [.octets 4]), (0xfb, [.unsigned]),
   (0xfc, [.unsigned]), (0xfd, [.unsigned])]

/-- The operands of a code, if it has a meaning. -/
def operandsOf? (code : Nat) : Option (List Operand) :=
  match operandTable.find? fun entry => entry.1 == code with
  | some (_, operands) => some operands
  | none =>
    -- Arithmetic on what earlier steps left, constants, registers, and places near a register.
    if 0x12 ≤ code && code ≤ 0x2e then some []
    else if 0x30 ≤ code && code ≤ 0x6f then some []
    else if 0x70 ≤ code && code ≤ 0x8f then some [.signed]
    else none

/-- Takes a value off the front of a program. -/
abbrev ProgramReader := StateT (List UInt8) (Except ExpressionError)

/-- The next `count` octets of a number. -/
def nextOctets (count : Nat) : ProgramReader (List UInt8) := fun bs =>
  match Octets.splitAt? count bs with
  | some taken => .ok taken
  | none => .error (.cutShort count bs.length)

/-- The next number of variable length. -/
def nextNumber {α : Type} (isSigned : Bool) (reader : Octets.Reader α) : ProgramReader α :=
  fun bs =>
    match reader.run bs with
    | some taken => .ok taken
    | none => .error (.unfinishedNumber isSigned)

/-- The next block of `length` octets.  It is taken octet by octet, so the one that is missing is
the one that is asked for. -/
def nextBlock (length : Nat) : ProgramReader (List UInt8) := fun bs =>
  match Octets.splitAt? length bs with
  | some taken => .ok taken
  | none => .error (.cutShort 1 0)

/-- Reads an operand, where `readProgram` reads a program inside of it.  Of an operand of variable
length the number is kept. -/
def Operand.read (addressSize : Nat) (readProgram : List UInt8 → Except ExpressionError Unit) :
    Operand → ProgramReader (Option Int)
  | .octets count => do
    let _ ← nextOctets count
    return none
  | .address => do
    let _ ← nextOctets addressSize
    return none
  | .unsigned => return some (← nextNumber false Octets.unsignedNumber)
  | .signed => return some (← nextNumber true Octets.signedNumber)
  | .block => do
    let _ ← nextBlock (← nextNumber false Octets.unsignedNumber)
    return none
  | .shortBlock => do
    let _ ← nextBlock (ByteOrder.little.number (← nextOctets 1))
    return none
  | .program => do
    let inner ← nextBlock (← nextNumber false Octets.unsignedNumber)
    let _ ← StateT.lift (readProgram inner)
    return none
  | .place => do
    let kind := ByteOrder.little.number (← nextOctets 1)
    if kind ≤ 2 then
      let _ ← nextNumber false Octets.unsignedNumber
      return none
    else if kind = 3 then
      let _ ← nextOctets 4
      return none
    else StateT.lift (.error (.unknownPlace kind))

/-- A step of a program: its code, and those of its operands that are numbers of variable length. -/
structure Step where
  code : Nat
  numbers : List Int
  deriving DecidableEq, Repr

/-- Reads a program of at most `count` steps, those of programs inside of it included. -/
def readSteps (addressSize : Nat) : Nat → List UInt8 → Except ExpressionError (List Step)
  | _, [] => .ok []
  | 0, _ :: _ => .ok []
  | count + 1, code :: bs => do
    match operandsOf? code.toNat with
    | none => throw (.unknownStep code.toNat)
    | some operands =>
      -- A program inside an operand is shorter than what follows the code.
      let readProgram := fun inner => (readSteps addressSize count inner).map fun _ => ()
      let (values, rest) ← (operands.mapM (Operand.read addressSize readProgram)).run bs
      return ⟨code.toNat, values.filterMap id⟩ :: (← readSteps addressSize count rest)

/-- The codes of the steps that add a constant or are one. -/
def constantCodes : List Nat := [0x10, 0x11, 0x23]

/-- The place that a program gives: that of a single addition or constant. -/
def placeOf? : List Step → Option Int
  | [step] => if constantCodes.contains step.code then step.numbers.head? else none
  | _ => none

/-- The place that the octets of a program give, if they give one. -/
def constantOffset (addressSize : Nat) (bs : List UInt8) : Except ExpressionError (Option Int) :=
  (readSteps addressSize bs.length bs).map placeOf?

/-- The octet that a number of a block is. -/
def octetOf (q : Quantity) : Except ExpressionError UInt8 :=
  if 0 ≤ q.value ∧ q.value < 256 then .ok (UInt8.ofNat q.value.toNat) else .error .notAnOctet

/-- The octets of a value that may be a program. -/
def Value.program? : Value → Option (Except ExpressionError (List UInt8))
  | .bytes bs => some (.ok bs)
  | .block items => some (items.mapM octetOf)
  | _ => none

end RecordLayout.Dwarf
