import ZeroRun.Exclusion.Place
import ZeroRun.Log.Narrative
import ZeroRun.Settings.File
import ZeroRun.Proofs.IntegerReach.Exact
import ZeroRun.Proofs.Refine.Course
import ZeroRun.Proofs.Exclusion.History
import ZeroRun.Proofs.Refine.Budget
import ZeroRun.Proofs.Refine.Records
import ZeroRun.Proofs.Grammar.Language
import ZeroRun.Proofs.Grammar.LeftRecursion
import ZeroRun.Proofs.Grammar.Enumerate
import ZeroRun.Proofs.Refine.Repetition
import ZeroRun.Proofs.Search.Termination
import ZeroRun.Proofs.Classification.Balance
import ZeroRun.Proofs.Classification.Factorization
import ZeroRun.Proofs.IntegerReach.Termination
import ZeroRun.Proofs.WalkLanguage.Enumerate
import ZeroRun.Proofs.Grammar.Leftmost
import ZeroRun.Proofs.Grammar.Budget
import ZeroRun.Proofs.Grammar.Useful
import ZeroRun.Proofs.Grammar.Trimmed
import ZeroRun.Proofs.WalkLanguage.Labels
import ZeroRun.Proofs.Residues.Divisibility
import ZeroRun.Proofs.Residues.Packing
import ZeroRun.Proofs.Liveness
import ZeroRun.Proofs.Grammar.Worklist
import ZeroRun.Proofs.IntegerReach.Detached
import ZeroRun.Proofs.Settings
import ZeroRun.Proofs.Grammar.Quotient
import ZeroRun.Proofs.Linear.Formula
