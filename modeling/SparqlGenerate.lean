import SparqlGenerate.Registry
import SparqlGenerate.IriSyntax
import SparqlGenerate.Plan.Sse
import SparqlGenerate.Proofs.FirstFault
import SparqlGenerate.Proofs.LiftedSolutions
import SparqlGenerate.Proofs.PlanTree
import SparqlGenerate.Proofs.GroupedRows
import SparqlGenerate.Proofs.ParserCalls
import SparqlGenerate.Proofs.Rounds
import SparqlGenerate.Proofs.RenamedPlans
import SparqlGenerate.Proofs.Simulation
import SparqlGenerate.Proofs.FreshNames
import SparqlGenerate.Proofs.TextualPath
import SparqlGenerate.Proofs.CallBounds
import SparqlGenerate.Proofs.ParserFailures
import SparqlGenerate.Proofs.Registrations
import SparqlGenerate.Proofs.Recompilation
import SparqlGenerate.Proofs.SelectShape
import SparqlGenerate.Proofs.DrawnVariables
import SparqlGenerate.Proofs.SameText
import SparqlGenerate.Proofs.LiftedGrouping
import SparqlGenerate.Proofs.NestedPlans
import SparqlGenerate.Proofs.PlanReading
