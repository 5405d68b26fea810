import PatternAutomata.Pattern.Fault
import PatternAutomata.Automaton.Path
import PatternAutomata.Automaton.Edit
import PatternAutomata.Main
import PatternAutomata.Proofs.PathSimulation
import PatternAutomata.Proofs.EliminatedEdges
import PatternAutomata.Proofs.BlockPaths
import PatternAutomata.Proofs.LockStep
import PatternAutomata.Proofs.ThompsonLanguage
import PatternAutomata.Proofs.StretchReading
import PatternAutomata.Proofs.PrintedForms
import PatternAutomata.Proofs.CountedReading
import PatternAutomata.Proofs.ReadingAndPrinting
import PatternAutomata.Proofs.MatchedLanguage
import PatternAutomata.Proofs.RunSteps
import PatternAutomata.Proofs.DirectTraversal
import PatternAutomata.Proofs.LiveStates
import PatternAutomata.Proofs.ViablePrefixes
import PatternAutomata.Proofs.DistinctEdges
import PatternAutomata.Proofs.EliminationNormalForm
import PatternAutomata.Proofs.ScopeReading
import PatternAutomata.Proofs.BranchProgress
import PatternAutomata.Proofs.FirstFaults
import PatternAutomata.Proofs.StrayClosers
import PatternAutomata.Proofs.ShiftedBuild
import PatternAutomata.Proofs.FreshEdges
import PatternAutomata.Proofs.BlockShape
import PatternAutomata.Proofs.Reprinting
import PatternAutomata.Proofs.WorklistRun
import PatternAutomata.Proofs.JoinedBlocks
import PatternAutomata.Proofs.TreeAgreement
import PatternAutomata.Proofs.TreeRecovery
import PatternAutomata.Proofs.DrawnLines
import PatternAutomata.Proofs.FaithfulDrawing
import PatternAutomata.Proofs.EliminationAccount
import PatternAutomata.Proofs.FirstCloser
import PatternAutomata.Proofs.HeldMoments
import PatternAutomata.Proofs.UnguardedReading
