import Dialogue.Anomaly
import Dialogue.Config
import Dialogue.Decimal.Arithmetic
import Dialogue.Decimal.Basic
import Dialogue.Decimal.Digits
import Dialogue.Decimal.Notation
import Dialogue.Decimal.Numeral
import Dialogue.Decimal.Pi
import Dialogue.Decimal.Rounding
import Dialogue.Identifier
import Dialogue.Inspection
import Dialogue.Limits
import Dialogue.Lists.Assignment
import Dialogue.Lists.Basic
import Dialogue.Lists.Copying
import Dialogue.Number
import Dialogue.Operation
import Dialogue.Performance
import Dialogue.Position
import Dialogue.Proofs.ActGuarantees
import Dialogue.Proofs.ActLogic
import Dialogue.Proofs.ArctangentSeries
import Dialogue.Proofs.AssignedContents
import Dialogue.Proofs.AssignedTrees
import Dialogue.Proofs.AssignedValues
import Dialogue.Proofs.AssignmentBounds
import Dialogue.Proofs.AssignmentSafety
import Dialogue.Proofs.AssignmentSteps
import Dialogue.Proofs.BlockRuns
import Dialogue.Proofs.BoundArguments
import Dialogue.Proofs.BuiltDecimals
import Dialogue.Proofs.BuiltinMembers
import Dialogue.Proofs.BuiltinsOnce
import Dialogue.Proofs.CircleConstant
import Dialogue.Proofs.Confinement
import Dialogue.Proofs.ConstantLists
import Dialogue.Proofs.ConstantMarks
import Dialogue.Proofs.ContentTrees
import Dialogue.Proofs.CopiedTexts
import Dialogue.Proofs.CopyPlans
import Dialogue.Proofs.CopySafety
import Dialogue.Proofs.CopyTermination
import Dialogue.Proofs.CopyingActs
import Dialogue.Proofs.DecimalForms
import Dialogue.Proofs.DecimalOrder
import Dialogue.Proofs.DecimalRange
import Dialogue.Proofs.DecimalValues
import Dialogue.Proofs.ExactReading
import Dialogue.Proofs.ExactRemainder
import Dialogue.Proofs.FailedStores
import Dialogue.Proofs.FaithfulCopies
import Dialogue.Proofs.FreezingActs
import Dialogue.Proofs.FrozenAssignments
import Dialogue.Proofs.FrozenLists
import Dialogue.Proofs.FrozenSteps
import Dialogue.Proofs.FullNameResolution
import Dialogue.Proofs.GuardedRounding
import Dialogue.Proofs.IdentifierText
import Dialogue.Proofs.ImportOrder
import Dialogue.Proofs.LeastExponents
import Dialogue.Proofs.LifetimeSafety
import Dialogue.Proofs.ListGrowth
import Dialogue.Proofs.ListLengths
import Dialogue.Proofs.ListSafety
import Dialogue.Proofs.ListSlots
import Dialogue.Proofs.LookupFootprint
import Dialogue.Proofs.MachineDecimals
import Dialogue.Proofs.MachineReading
import Dialogue.Proofs.MadeCopies
import Dialogue.Proofs.MaintainingActs
import Dialogue.Proofs.MaintainingLists
import Dialogue.Proofs.MaintainingRuns
import Dialogue.Proofs.MaintainingSteps
import Dialogue.Proofs.Maintenance
import Dialogue.Proofs.MemberTours
import Dialogue.Proofs.MembershipChanges
import Dialogue.Proofs.MembershipSafety
import Dialogue.Proofs.NotationRoundTrip
import Dialogue.Proofs.NumberDigits
import Dialogue.Proofs.NumberRange
import Dialogue.Proofs.NumberText
import Dialogue.Proofs.NumeralBases
import Dialogue.Proofs.NumeralGrammar
import Dialogue.Proofs.NumeralText
import Dialogue.Proofs.ObjectContents
import Dialogue.Proofs.OwnerLineage
import Dialogue.Proofs.OwnershipTree
import Dialogue.Proofs.PerformanceSafety
import Dialogue.Proofs.PlainSearch
import Dialogue.Proofs.PrescribedRounding
import Dialogue.Proofs.ReadableCopies
import Dialogue.Proofs.ReadingAgreement
import Dialogue.Proofs.ReadingSafety
import Dialogue.Proofs.ReadingTermination
import Dialogue.Proofs.Registration
import Dialogue.Proofs.Renaming
import Dialogue.Proofs.ResolutionAgreement
import Dialogue.Proofs.ResolutionStability
import Dialogue.Proofs.Results
import Dialogue.Proofs.RoundedArithmetic
import Dialogue.Proofs.RoundedNeighbours
import Dialogue.Proofs.RoundedReading
import Dialogue.Proofs.RoundedValues
import Dialogue.Proofs.ScriptIndices
import Dialogue.Proofs.SearchAgreement
import Dialogue.Proofs.SearchRelation
import Dialogue.Proofs.SearchTermination
import Dialogue.Proofs.SelfHeldLists
import Dialogue.Proofs.SessionSafety
import Dialogue.Proofs.SettingWrites
import Dialogue.Proofs.SharedElements
import Dialogue.Proofs.StoredValues
import Dialogue.Proofs.SuppliedMembers
import Dialogue.Proofs.SuppliedReadings
import Dialogue.Proofs.TableLookup
import Dialogue.Proofs.TakenElements
import Dialogue.Proofs.TrailSearch
import Dialogue.Proofs.TreeCopies
import Dialogue.Proofs.TruthOfTexts
import Dialogue.Proofs.ValuesInTurn
import Dialogue.Proofs.WorldChanges
import Dialogue.Proofs.WorldForest
import Dialogue.Proofs.WorldMirrors
import Dialogue.Proofs.WorldShapes
import Dialogue.Proofs.WriteBack
import Dialogue.Scalar
import Dialogue.Scopes.Builtin
import Dialogue.Scopes.Membership
import Dialogue.Scopes.Resolution
import Dialogue.Scopes.Tour
import Dialogue.Script
import Dialogue.Session.Action
import Dialogue.Session.Answer
import Dialogue.Session.Creation
import Dialogue.Session.Run
import Dialogue.Stop
import Dialogue.Text.Blank
import Dialogue.Text.Printable
import Dialogue.Text.Quoted
import Dialogue.Variables.Reading
import Dialogue.Variables.View
import Dialogue.Variables.Writing
import Dialogue.World.Basic
import Dialogue.World.Heap
import Dialogue.World.Lifetime
import Dialogue.World.Naming
import Dialogue.World.Object
import Dialogue.World.Table
