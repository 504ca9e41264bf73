import ClassCompiler.Compile
import ClassCompiler.NodeListing
import ClassCompiler.Numbering
import ClassCompiler.Proofs.CallLinks
import ClassCompiler.Proofs.Compilation
import ClassCompiler.Proofs.DeclarationRules
import ClassCompiler.Proofs.ExprRuns
import ClassCompiler.Proofs.FloatTests
import ClassCompiler.Proofs.MethodIndependence
import ClassCompiler.Proofs.MethodRuns
import ClassCompiler.Proofs.NameAgreement
import ClassCompiler.Proofs.RuleDecision
import ClassCompiler.Proofs.StackRuns
import ClassCompiler.Proofs.StoredLocals
import ClassCompiler.Proofs.TypeAgreement
import ClassCompiler.StackDepth
import ClassCompiler.Proofs.Confinement
import ClassCompiler.Proofs.Regions
import ClassCompiler.Proofs.Rechecking
import ClassCompiler.Proofs.MethodEntries
import ClassCompiler.Proofs.DuplicateMethods
import ClassCompiler.Proofs.DescriptorReading
import ClassCompiler.Proofs.Outline
import ClassCompiler.Proofs.QuotedReading
import ClassCompiler.Proofs.ScopeOperations
import ClassCompiler.Proofs.NodeNumbers
