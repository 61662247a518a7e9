import PaintedImages.Main
import PaintedImages.Host.Dispatch
import PaintedImages.Host.Foreign
import PaintedImages.Proofs.BinaryMarker
import PaintedImages.Proofs.Blanks
import PaintedImages.Proofs.CanonicalBase64
import PaintedImages.Proofs.CarriedData
import PaintedImages.Proofs.Containment
import PaintedImages.Proofs.FailureTotals
import PaintedImages.Proofs.ForeignTexts
import PaintedImages.Proofs.FormatCounts
import PaintedImages.Proofs.Indirection
import PaintedImages.Proofs.Isolation
import PaintedImages.Proofs.Messages
import PaintedImages.Proofs.NearestResources
import PaintedImages.Proofs.Refusals
import PaintedImages.Proofs.Replies
import PaintedImages.Proofs.Revisiting
import PaintedImages.Proofs.RunLength
import PaintedImages.Proofs.SafePrediction
import PaintedImages.Proofs.SelectionTexts
import PaintedImages.Proofs.SizeLimit
import PaintedImages.Proofs.Truncation
import PaintedImages.Proofs.UnreadableFilters
import PaintedImages.Proofs.WhiteSpace
import PaintedImages.Proofs.WrittenPrefix
import PaintedImages.Proofs.WrittenReports
