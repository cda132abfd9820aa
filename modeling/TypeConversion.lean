import TypeConversion.Registry.Bootstrap
import TypeConversion.Registry.Codec
import TypeConversion.Config.Document
import TypeConversion.Conversion.Rule
import TypeConversion.Proofs.FirstOccurrences
import TypeConversion.Proofs.Dispatch.Search
import TypeConversion.Proofs.Node.Steady
import TypeConversion.Proofs.Node.Resolution
import TypeConversion.Proofs.Node.Termination
import TypeConversion.Proofs.Assignable.Plan
import TypeConversion.Proofs.Assignable.Branches
import TypeConversion.Proofs.Node.Weight
import TypeConversion.Proofs.Assignable.Recurrence
import TypeConversion.Proofs.Substitution.Denotation
import TypeConversion.Proofs.Substitution.View
import TypeConversion.Proofs.Substitution.Agreement
import TypeConversion.Proofs.Dispatch.Hierarchy
import TypeConversion.Proofs.Conversion.Element
import TypeConversion.Proofs.Conversion.CollectionClass
import TypeConversion.Proofs.Conversion.Attempt
import TypeConversion.Proofs.Conversion.Results
import TypeConversion.Proofs.Conversion.Soundness
import TypeConversion.Proofs.Assignable.Inversion
import TypeConversion.Proofs.Assignable.Written
import TypeConversion.Proofs.Assignable.Wildcards
import TypeConversion.Proofs.Assignable.Invariance
import TypeConversion.Proofs.Assignable.Unguarded
import TypeConversion.Proofs.Assignable.Representation
import TypeConversion.Proofs.TypeText.Grammar
import TypeConversion.Proofs.TypeText.Reader
import TypeConversion.Proofs.Registry.Search
import TypeConversion.Proofs.Registry.Subclass
import TypeConversion.Proofs.Json.Text
import TypeConversion.Proofs.Json.Record
import TypeConversion.Proofs.Registry.Reindex
import TypeConversion.Proofs.Registry.Codec
import TypeConversion.Proofs.Registry.Names
import TypeConversion.Proofs.Registry.NameHistory
import TypeConversion.Proofs.Registry.Declaration
import TypeConversion.Proofs.Dispatch.Strings
import TypeConversion.Proofs.Dispatch.Ancestors
import TypeConversion.Proofs.Dispatch.Order
import TypeConversion.Proofs.Dispatch.Climb
import TypeConversion.Proofs.Dispatch.Arrays
import TypeConversion.Proofs.Conversion.Idempotence
import TypeConversion.Proofs.Conversion.Misfits
import TypeConversion.Proofs.Conversion.Shapes
import TypeConversion.Proofs.Dispatch.Registered
import TypeConversion.Proofs.Node.Lineage
import TypeConversion.Proofs.Assignable.Views
import TypeConversion.Proofs.Assignable.Plain
import TypeConversion.Proofs.Node.Interchange
import TypeConversion.Proofs.Assignable.Interchange
import TypeConversion.Proofs.Assignable.OpenArguments
import TypeConversion.Proofs.Node.RawGenerics
import TypeConversion.Proofs.Assignable.RawInstances
import TypeConversion.Proofs.Conversion.Boxing
import TypeConversion.Proofs.TypeText.Lookahead
import TypeConversion.Proofs.TypeText.Positions
import TypeConversion.Proofs.Node.Display
import TypeConversion.Proofs.TypeText.Display
import TypeConversion.Proofs.Dispatch.BaseClasses
import TypeConversion.Proofs.Conversion.Delimited
import TypeConversion.Proofs.Conversion.FirstMet
import TypeConversion.Proofs.Conversion.Scalars
import TypeConversion.Proofs.Conversion.Lists
import TypeConversion.Proofs.Conversion.Wholes
import TypeConversion.Proofs.Conversion.Joined
import TypeConversion.Proofs.Conversion.Split
import TypeConversion.Proofs.Conversion.Limits
import TypeConversion.Proofs.Conversion.Nulls
import TypeConversion.Proofs.Conversion.Elementwise
import TypeConversion.Proofs.Conversion.Sets
import TypeConversion.Proofs.Node.Nesting
import TypeConversion.Proofs.Conversion.Integers
import TypeConversion.Proofs.Node.VariableFree
import TypeConversion.Proofs.Node.Texts
import TypeConversion.Proofs.Conversion.Descent
import TypeConversion.Proofs.Conversion.Endings
import TypeConversion.Proofs.Conversion.Termination
import TypeConversion.Proofs.Registry.Reachability
