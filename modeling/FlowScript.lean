import FlowScript.Compilation
import FlowScript.Configuration
import FlowScript.Execution.Record
import FlowScript.Validation
import FlowScript.Proofs.FreshNames
import FlowScript.Proofs.Leaf
import FlowScript.Proofs.Step
import FlowScript.Proofs.Suite
import FlowScript.Proofs.Traversal
import FlowScript.Proofs.Detected
import FlowScript.Proofs.Hoisting
import FlowScript.Proofs.ImportCycle
import FlowScript.Proofs.Defined
import FlowScript.Proofs.Flagged
import FlowScript.Proofs.Needed
import FlowScript.Proofs.Containment
import FlowScript.Proofs.WellNested
import FlowScript.Proofs.Names
import FlowScript.Proofs.Nesting
import FlowScript.Proofs.Counters
import FlowScript.Proofs.Indentation
import FlowScript.Proofs.Search
import FlowScript.Proofs.ImportOrder
import FlowScript.Proofs.Blame
import FlowScript.Proofs.Captured
import FlowScript.Proofs.Comments
import FlowScript.Proofs.Faults
import FlowScript.Proofs.Stopped
import FlowScript.Proofs.Groups
import FlowScript.Proofs.Reading
import FlowScript.Proofs.Interpolation
import FlowScript.Proofs.Wordwise
import FlowScript.Proofs.Tokens
import FlowScript.Proofs.Translation
import FlowScript.Proofs.Locations
import FlowScript.Proofs.Pruning
import FlowScript.Proofs.Undefined
import FlowScript.Proofs.BranchScope
import FlowScript.Proofs.Subscripts
import FlowScript.Proofs.MergedOutputs
import FlowScript.Proofs.Keywords
import FlowScript.Proofs.TransformForms
import FlowScript.Proofs.Verbatim
import FlowScript.Proofs.SortedPreamble
import FlowScript.Proofs.Arguments
import FlowScript.Proofs.FilterFields
