import TypeLists.Failure
import TypeLists.Integer
import TypeLists.Constant
import TypeLists.Constant.Item
import TypeLists.Constant.Body
import TypeLists.Expansion
import TypeLists.Literal
import TypeLists.Former
import TypeLists.Ty
import TypeLists.Form
import TypeLists.Form.Sized
import TypeLists.Form.Chain
import TypeLists.Form.Formula
import TypeLists.Form.Marker
import TypeLists.Form.Declared
import TypeLists.Form.Variance
import TypeLists.Form.Emptiness
import TypeLists.Form.Name
import TypeLists.Trait
import TypeLists.Fault
import TypeLists.Checked
import TypeLists.Requirement
import TypeLists.Normalization
import TypeLists.Signature
import TypeLists.Answer
import TypeLists.Sealing
import TypeLists.Generic
import TypeLists.Query
import TypeLists.Program
import TypeLists.Walk
import TypeLists.Proofs.Findings
import TypeLists.Proofs.Expansion
import TypeLists.Proofs.Literal.Grammar
import TypeLists.Proofs.Literal.Unrolling
import TypeLists.Proofs.Expansion.Types
import TypeLists.Proofs.Literal.Exactness
import TypeLists.Proofs.Program
import TypeLists.Proofs.Normalization
import TypeLists.Proofs.Parts
import TypeLists.Proofs.Expansion.Parts
import TypeLists.Proofs.Form.Chain
import TypeLists.Proofs.Constant.Item
import TypeLists.Proofs.Constant.Resolution
import TypeLists.Proofs.Lists.Identity
import TypeLists.Proofs.Lists.World
import TypeLists.Proofs.Expansion.Demands
import TypeLists.Proofs.Expansion.Limit
import TypeLists.Proofs.Normalization.Unfolding
import TypeLists.Proofs.Normalization.Context
import TypeLists.Proofs.Form.Written
import TypeLists.Proofs.Normalization.Names
import TypeLists.Proofs.Normalization.Reduction
import TypeLists.Proofs.Normalization.Termination
import TypeLists.Proofs.Normalization.Progress
import TypeLists.Proofs.Normalization.Observation
import TypeLists.Proofs.Form.Name
import TypeLists.Proofs.Identity
import TypeLists.Proofs.Constant.Guards
import TypeLists.Proofs.Constant.Rejection
import TypeLists.Proofs.Constant.Exposure
import TypeLists.Proofs.Report
import TypeLists.Proofs.Answer
import TypeLists.Proofs.Constant.Preview
import TypeLists.Proofs.Constant.Places
import TypeLists.Proofs.Constant.Observed
import TypeLists.Proofs.Normalization.Alike
import TypeLists.Proofs.Form.Living
import TypeLists.Proofs.Query.Substitution
import TypeLists.Proofs.Expansion.Substitution
import TypeLists.Proofs.Query.Secrecy
import TypeLists.Proofs.Aliases.Meaning
import TypeLists.Proofs.Aliases.Constants
import TypeLists.Proofs.Aliases.Inlining
import TypeLists.Proofs.Aliases.Transparency
import TypeLists.Proofs.Generic.Filling
import TypeLists.Proofs.Generic.Instances
import TypeLists.Proofs.Generic.Calls
import TypeLists.Proofs.Form.Fields
import TypeLists.Proofs.Form.Variance
import TypeLists.Proofs.Query.Variance
import TypeLists.Proofs.Query.Marker
import TypeLists.Proofs.Form.Formula
import TypeLists.Proofs.Form.Truth
import TypeLists.Proofs.Query.Truth
import TypeLists.Proofs.Form.Operands
import TypeLists.Proofs.Query.Operands
import TypeLists.Proofs.Normalization.Obligations
import TypeLists.Proofs.Aliases.Obligations
import TypeLists.Proofs.Form.Guarded
import TypeLists.Proofs.Query.Naming
import TypeLists.Proofs.Lists.Failures
import TypeLists.Proofs.Lists.Literals
import TypeLists.Proofs.Lists.Depth
import TypeLists.Proofs.Form.Emptiness
import TypeLists.Proofs.Query.Emptiness
