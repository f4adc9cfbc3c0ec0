import FiniteAutomata.Grammar
import FiniteAutomata.Main
import FiniteAutomata.Nfa.Path
import FiniteAutomata.Ordered
import FiniteAutomata.Proofs.Infix.PartialDerivation
import FiniteAutomata.Proofs.Infix.Reading
import FiniteAutomata.Proofs.Infix.Grammar
import FiniteAutomata.Proofs.Nfa.Path
import FiniteAutomata.Proofs.Language
import FiniteAutomata.Proofs.Nfa.Fragment
import FiniteAutomata.Proofs.Nfa.Arena
import FiniteAutomata.Proofs.Nfa.Construction
import FiniteAutomata.Proofs.Nfa.Closure
import FiniteAutomata.Proofs.Dfa.Run
import FiniteAutomata.Proofs.Dfa.Subsets
import FiniteAutomata.Proofs.Dfa.Simulation
import FiniteAutomata.Proofs.Dfa.Worklist
import FiniteAutomata.Proofs.Dfa.Canonical
import FiniteAutomata.Proofs.Dfa.Ranks
import FiniteAutomata.Proofs.Dfa.Partition
import FiniteAutomata.Proofs.Dfa.Table
import FiniteAutomata.Proofs.Dfa.Blocks
import FiniteAutomata.Proofs.Transitions
import FiniteAutomata.Proofs.Dfa.Minimal
import FiniteAutomata.Proofs.Dfa.Indexed
import FiniteAutomata.Proofs.Dfa.Useful
import FiniteAutomata.Proofs.Infix.Depth
import FiniteAutomata.Proofs.Nfa.Growth
import FiniteAutomata.Proofs.Lexeme
import FiniteAutomata.Proofs.Dump
import FiniteAutomata.Proofs.Pattern
import FiniteAutomata.Proofs.Faultless
import FiniteAutomata.Proofs.Dfa.Idempotence
import FiniteAutomata.Proofs.Nfa.Diagnosis
import FiniteAutomata.Proofs.Dfa.Passes
import FiniteAutomata.Proofs.PostfixText
import FiniteAutomata.Proofs.Lexeme.Backslashes
import FiniteAutomata.Proofs.Lexeme.Cover
import FiniteAutomata.Proofs.Infix.Blame
import FiniteAutomata.Proofs.DanglingEscape
import FiniteAutomata.Proofs.Infix.Causes
import FiniteAutomata.Proofs.Lexeme.Content
import FiniteAutomata.Proofs.Infix.Spacing
import FiniteAutomata.Proofs.Infix.Viable
import FiniteAutomata.Proofs.Nfa.Simulation
import FiniteAutomata.Proofs.CommandLine.Source
import FiniteAutomata.Proofs.CommandLine.NoTrace
import FiniteAutomata.Proofs.Dump.Unambiguous
import FiniteAutomata.Proofs.Nfa.EpsilonClosure
import FiniteAutomata.Proofs.Dump.Painted
import FiniteAutomata.Proofs.Text.Enclosed
import FiniteAutomata.Proofs.Dot.Name
import FiniteAutomata.Proofs.Dot.Unambiguous
import FiniteAutomata.Proofs.StateSet
