import RecordLayout.Command.Flag
import RecordLayout.Command.Run
import RecordLayout.Command.Settings
import RecordLayout.Container.Architecture
import RecordLayout.Container.Elf
import RecordLayout.Container.Load
import RecordLayout.Container.MachO
import RecordLayout.Diagnostics
import RecordLayout.Document.Basic
import RecordLayout.Document.Error
import RecordLayout.Document.Resolve
import RecordLayout.Document.Spec
import RecordLayout.Dwarf.Abbreviation
import RecordLayout.Dwarf.Basic
import RecordLayout.Dwarf.Builder
import RecordLayout.Dwarf.Code
import RecordLayout.Dwarf.Expression
import RecordLayout.Dwarf.Form
import RecordLayout.Dwarf.Placement
import RecordLayout.Dwarf.Scan
import RecordLayout.Dwarf.Sections
import RecordLayout.Dwarf.Verify
import RecordLayout.Failure
import RecordLayout.FileTree
import RecordLayout.Json.Basic
import RecordLayout.Json.Reader
import RecordLayout.Json.Spelling
import RecordLayout.Json.Writer
import RecordLayout.Label
import RecordLayout.Layout.Bitfield
import RecordLayout.Layout.Engine
import RecordLayout.Layout.Error
import RecordLayout.Layout.Extent
import RecordLayout.Layout.NameTable
import RecordLayout.Layout.Reorder
import RecordLayout.Layout.Result
import RecordLayout.Layout.Sequence
import RecordLayout.Main
import RecordLayout.Number.Alignment
import RecordLayout.Number.Binary64
import RecordLayout.Number.Decimal
import RecordLayout.Octets
import RecordLayout.PathName
import RecordLayout.Profile.Basic
import RecordLayout.Profile.BuiltIn
import RecordLayout.Profile.Error
import RecordLayout.Profile.Reader
import RecordLayout.Proofs.Document.Cycle
import RecordLayout.Proofs.Document.Order
import RecordLayout.Proofs.Document.Origins
import RecordLayout.Proofs.Document.Refusal
import RecordLayout.Proofs.Document.Resolution
import RecordLayout.Proofs.Document.Tags
import RecordLayout.Proofs.Dwarf.Aliases
import RecordLayout.Proofs.Dwarf.BitEncoding
import RecordLayout.Proofs.Dwarf.Building
import RecordLayout.Proofs.Dwarf.DataModel
import RecordLayout.Proofs.Dwarf.Definition
import RecordLayout.Proofs.Dwarf.Depth
import RecordLayout.Proofs.Dwarf.Description
import RecordLayout.Proofs.Dwarf.Dimensions
import RecordLayout.Proofs.Dwarf.Entry
import RecordLayout.Proofs.Dwarf.EntryType
import RecordLayout.Proofs.Dwarf.Kept
import RecordLayout.Proofs.Dwarf.Members
import RecordLayout.Proofs.Dwarf.Memory
import RecordLayout.Proofs.Dwarf.Reencoding
import RecordLayout.Proofs.Dwarf.Survey
import RecordLayout.Proofs.Dwarf.Verification
import RecordLayout.Proofs.KeyedList
import RecordLayout.Proofs.Layout.Agreement
import RecordLayout.Proofs.Layout.Aligned
import RecordLayout.Proofs.Layout.AlignedDepth
import RecordLayout.Proofs.Layout.Append
import RecordLayout.Proofs.Layout.Bare
import RecordLayout.Proofs.Layout.BitCount
import RecordLayout.Proofs.Layout.ByteMembers
import RecordLayout.Proofs.Layout.Canonical
import RecordLayout.Proofs.Layout.Coherence
import RecordLayout.Proofs.Layout.Contiguous
import RecordLayout.Proofs.Layout.Coupling
import RecordLayout.Proofs.Layout.DataModel
import RecordLayout.Proofs.Layout.EngineDataModel
import RecordLayout.Proofs.Layout.EngineFill
import RecordLayout.Proofs.Layout.EngineInduction
import RecordLayout.Proofs.Layout.EngineParts
import RecordLayout.Proofs.Layout.EngineRun
import RecordLayout.Proofs.Layout.EngineSaving
import RecordLayout.Proofs.Layout.EngineWellFormed
import RecordLayout.Proofs.Layout.FailurePath
import RecordLayout.Proofs.Layout.Fault
import RecordLayout.Proofs.Layout.Fill
import RecordLayout.Proofs.Layout.Gaps
import RecordLayout.Proofs.Layout.History
import RecordLayout.Proofs.Layout.Induction
import RecordLayout.Proofs.Layout.Least
import RecordLayout.Proofs.Layout.Listing
import RecordLayout.Proofs.Layout.Lockstep
import RecordLayout.Proofs.Layout.MemberExtent
import RecordLayout.Proofs.Layout.Names
import RecordLayout.Proofs.Layout.Nesting
import RecordLayout.Proofs.Layout.OpenTail
import RecordLayout.Proofs.Layout.Ordinary
import RecordLayout.Proofs.Layout.PackCap
import RecordLayout.Proofs.Layout.PackingModes
import RecordLayout.Proofs.Layout.Padding
import RecordLayout.Proofs.Layout.Placement
import RecordLayout.Proofs.Layout.Progress
import RecordLayout.Proofs.Layout.Promotion
import RecordLayout.Proofs.Layout.Rearrangement
import RecordLayout.Proofs.Layout.Recency
import RecordLayout.Proofs.Layout.Refusal
import RecordLayout.Proofs.Layout.Regrouping
import RecordLayout.Proofs.Layout.Reorder
import RecordLayout.Proofs.Layout.Resemblance
import RecordLayout.Proofs.Layout.Saving
import RecordLayout.Proofs.Layout.StableOrder
import RecordLayout.Proofs.Layout.Suggestion
import RecordLayout.Proofs.Layout.Tightening
import RecordLayout.Proofs.Layout.Unambiguous
import RecordLayout.Proofs.Layout.View
import RecordLayout.Proofs.Layout.VisibleFields
import RecordLayout.Proofs.Layout.Walk
import RecordLayout.Proofs.Layout.WellFormed
import RecordLayout.Proofs.Number.Rounding
import RecordLayout.Proofs.Outcome
import RecordLayout.Proofs.Profile.Reload
import RecordLayout.Proofs.Profile.Table
import RecordLayout.Proofs.Report.ArrayShape
import RecordLayout.Proofs.Report.Assertions
import RecordLayout.Proofs.Report.Declarations
import RecordLayout.Proofs.Text.Blank
import RecordLayout.Proofs.Text.Numeral
import RecordLayout.Proofs.TypeName.Canonical
import RecordLayout.Proofs.TypeName.Normal
import RecordLayout.Proofs.TypeTree.Bare
import RecordLayout.Proofs.TypeTree.Canonical
import RecordLayout.Proofs.TypeTree.Key
import RecordLayout.Proofs.TypeTree.Parts
import RecordLayout.Proofs.TypeTree.Regrouping
import RecordLayout.Quantity
import RecordLayout.Report.Assertions
import RecordLayout.Report.Declaration
import RecordLayout.Report.Entry
import RecordLayout.Report.Json
import RecordLayout.Report.Lookup
import RecordLayout.Report.Markdown
import RecordLayout.Report.Text
import RecordLayout.Text.Blank
import RecordLayout.Text.Line
import RecordLayout.Text.Lowercase
import RecordLayout.Text.Numeral
import RecordLayout.Text.Printable
import RecordLayout.Text.Quoted
import RecordLayout.Text.Utf8
import RecordLayout.TypeName
import RecordLayout.TypeTree.Basic
import RecordLayout.TypeTree.Key
