import CallPolicy.Codec.Config
import CallPolicy.Main
import CallPolicy.Proofs.Gate
import CallPolicy.Proofs.TypeExpr
import CallPolicy.Proofs.Naming
import CallPolicy.Proofs.Consistency
import CallPolicy.Proofs.Merging
import CallPolicy.Proofs.Expansion
import CallPolicy.Proofs.Shape
import CallPolicy.Proofs.Delimited
import CallPolicy.Proofs.WellNamed
import CallPolicy.Proofs.Unambiguous
import CallPolicy.Proofs.Context
import CallPolicy.Proofs.Occurrence
import CallPolicy.Proofs.Transparency
import CallPolicy.Proofs.Vendoring
import CallPolicy.Proofs.Loading
import CallPolicy.Proofs.Composition
import CallPolicy.Proofs.JsonValue
import CallPolicy.Proofs.TypeCodec
import CallPolicy.Proofs.ModelCodec
import CallPolicy.Proofs.LoadedOnce
import CallPolicy.Proofs.LeftOut
import CallPolicy.Proofs.Validation
import CallPolicy.Proofs.FilteredView
import CallPolicy.Proofs.JsonText
import CallPolicy.Proofs.Words
import CallPolicy.Proofs.ExitStatus
import CallPolicy.Proofs.PackageOrder
import CallPolicy.Proofs.Discovery
import CallPolicy.Proofs.Spelling
import CallPolicy.Proofs.SpecifierOrder
import CallPolicy.Proofs.SameTree
import CallPolicy.Proofs.Settings
import CallPolicy.Proofs.Precedence
import CallPolicy.Proofs.Job
import CallPolicy.Proofs.Writer
import CallPolicy.Proofs.BackReference
import CallPolicy.Proofs.Dangling
import CallPolicy.Proofs.Relocation
import CallPolicy.Proofs.SearchRoot
import CallPolicy.Proofs.ModelFiles
import CallPolicy.Proofs.LineAbove
import CallPolicy.Proofs.AddedComment
import CallPolicy.Proofs.DenylistUnion
import CallPolicy.Proofs.Exclusion
import CallPolicy.Proofs.Origins
import CallPolicy.Proofs.Grouping
import CallPolicy.Proofs.CallScan
import CallPolicy.Proofs.PositionOrder
import CallPolicy.Proofs.MemberOrder
import CallPolicy.Proofs.Role
import CallPolicy.Proofs.Selection
import CallPolicy.Proofs.UnknownMembers
import CallPolicy.Proofs.OutputLines
import CallPolicy.Proofs.LineEndings
import CallPolicy.Proofs.Unnumbered
import CallPolicy.Proofs.Lookups
