import PlZero.Main
import PlZero.Proofs.Acceptance
import PlZero.Proofs.Calls
import PlZero.Proofs.CorrectPrefix
import PlZero.Proofs.Decision
import PlZero.Proofs.FaultPlace
import PlZero.Proofs.NameChecks
import PlZero.Proofs.ReadTrees
import PlZero.Proofs.Rendering
import PlZero.TempNames
import PlZero.Traversal.Recorder
import PlZero.Proofs.RaisedLimit
import PlZero.Proofs.FreshCalls
import PlZero.Proofs.LineEnds
import PlZero.Proofs.Faults
import PlZero.Proofs.MaximalMunch
import PlZero.Proofs.WrittenTokens
import PlZero.Proofs.JoinedTexts
import PlZero.Proofs.ScopeStack
import PlZero.Proofs.Surroundings
import PlZero.Proofs.Relabelling
import PlZero.Proofs.RelabelledRuns
import PlZero.Proofs.LineConventions
import PlZero.Proofs.LargeNumbers
import PlZero.Proofs.Verdict
import PlZero.Proofs.LineCount
import PlZero.Proofs.LevelsNeeded
import PlZero.Proofs.LinkChains
import PlZero.Proofs.Regrouping
import PlZero.Proofs.Outline
import PlZero.Proofs.BracketedRuns
import PlZero.Proofs.FailingVisits
import PlZero.Proofs.ReadBack
import PlZero.Proofs.Flattening
import PlZero.Proofs.ProcedureChains
import PlZero.Proofs.Diagnoses
import PlZero.Proofs.ToldTrees
import PlZero.Proofs.Arrivals
import PlZero.Proofs.Layers
