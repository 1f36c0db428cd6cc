import PatternGrammar.Conversion
import PatternGrammar.Main
import PatternGrammar.Pattern.Text
import PatternGrammar.Proofs.Agreement
import PatternGrammar.Proofs.Beginnings
import PatternGrammar.Proofs.Blocks
import PatternGrammar.Proofs.BreakingOff
import PatternGrammar.Proofs.Coloring
import PatternGrammar.Proofs.Drawings
import PatternGrammar.Proofs.ErrorKinds
import PatternGrammar.Proofs.Image
import PatternGrammar.Proofs.Language
import PatternGrammar.Proofs.Layout
import PatternGrammar.Proofs.Listings
import PatternGrammar.Proofs.Lossless
import PatternGrammar.Proofs.Openings
import PatternGrammar.Proofs.Parentheses
import PatternGrammar.Proofs.Regrouping
import PatternGrammar.Proofs.Renaming
import PatternGrammar.Proofs.Rereading
import PatternGrammar.Proofs.Runs
import PatternGrammar.Proofs.Segments
import PatternGrammar.Proofs.Switches
import PatternGrammar.Proofs.SyntaxErrors
import PatternGrammar.Proofs.Allocation
import PatternGrammar.Proofs.Additions
import PatternGrammar.Proofs.Progress
