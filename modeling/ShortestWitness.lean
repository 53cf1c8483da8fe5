import ShortestWitness.Automaton.Completion
import ShortestWitness.CommandLine.Answer
import ShortestWitness.Decision.Emptiness
import ShortestWitness.Line.Encode
import ShortestWitness.Machine.Composite
import ShortestWitness.Main
import ShortestWitness.Proofs.Automaton.Completion
import ShortestWitness.Proofs.Automaton.Draft
import ShortestWitness.Proofs.Search.Reachability
import ShortestWitness.Random.Automaton
import ShortestWitness.Word.Enumeration
import ShortestWitness.Proofs.Except
import ShortestWitness.Proofs.Line.Grammar
import ShortestWitness.Proofs.Line.Decode
import ShortestWitness.Proofs.Machine.Renaming
import ShortestWitness.Proofs.Decision.Agreement
import ShortestWitness.Proofs.Line.WritingOrder
import ShortestWitness.Proofs.Line.RoundTrip
import ShortestWitness.Proofs.Line.Runs
import ShortestWitness.Proofs.CommandLine.Answer
import ShortestWitness.Proofs.Automaton.Layout
import ShortestWitness.Proofs.Automaton.Filling
import ShortestWitness.Proofs.Automaton.Drawing
import ShortestWitness.Proofs.Automaton.Made
import ShortestWitness.Proofs.Machine.Path
import ShortestWitness.Proofs.Word.Enumeration
import ShortestWitness.Proofs.Decision.BoundedSearch
import ShortestWitness.Proofs.Decision.Separation
import ShortestWitness.Proofs.Automaton.Sink
import ShortestWitness.Proofs.Automaton.Assembly
import ShortestWitness.Proofs.Automaton.Calls
import ShortestWitness.Proofs.Search.Moments
import ShortestWitness.Proofs.Search.Frontier
import ShortestWitness.Proofs.Decision.Symmetry
import ShortestWitness.Proofs.Decision.Equivalence
import ShortestWitness.Proofs.Decision.Nerode
import ShortestWitness.Proofs.Decision.Truncation
import ShortestWitness.Proofs.Automaton.Problems
import ShortestWitness.Proofs.Line.Faults
import ShortestWitness.Proofs.Automaton.Refusals
import ShortestWitness.Proofs.Line.NormalForm
import ShortestWitness.Proofs.Line.FreeNames
import ShortestWitness.Proofs.CommandLine.LargerAlphabet
import ShortestWitness.Proofs.Word.Odometer
import ShortestWitness.Proofs.Automaton.Rebuilding
import ShortestWitness.Proofs.CommandLine.Printed
import ShortestWitness.Proofs.CommandLine.Padding
import ShortestWitness.Proofs.Alphabet.Intersection
