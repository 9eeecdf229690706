import Offside.Main
import Offside.Proofs.CursorMoves
import Offside.Proofs.Indentation
import Offside.Proofs.Lossless
import Offside.Proofs.LineEndings
import Offside.Proofs.FaultPlaces
import Offside.Proofs.Safety
import Offside.Proofs.Resumption
import Offside.Proofs.Respelling
import Offside.Proofs.Concatenation
import Offside.Proofs.TokenOrder
import Offside.Proofs.HexNumerals
import Offside.Proofs.CodeUnits
import Offside.Proofs.LiteralGrammar
import Offside.Proofs.NumberGrammar
import Offside.Proofs.EscapedText
import Offside.Proofs.JsonRoundTrip
import Offside.Proofs.Dumps
import Offside.Proofs.FileArguments
import Offside.Proofs.InputFiles
import Offside.Proofs.BlankTexts
import Offside.Proofs.EmptyLines
import Offside.Proofs.NewLines
import Offside.Proofs.Advances
import Offside.Proofs.MaximalMunch
import Offside.Proofs.Words
import Offside.Proofs.TabWidths
import Offside.Proofs.ConfigRoundTrip
import Offside.Proofs.Resolution
import Offside.Proofs.LineEnds
import Offside.Proofs.Placeholders
import Offside.Proofs.ReportSpans
