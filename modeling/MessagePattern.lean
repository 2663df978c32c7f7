import MessagePattern.Hoist
import MessagePattern.Json.Decode
import MessagePattern.Printer
import MessagePattern.Proofs.HoistedMeaning
import MessagePattern.Proofs.HoistedSigns
import MessagePattern.Proofs.HoistedText
import MessagePattern.Proofs.Locality
import MessagePattern.Proofs.Restrictions
import MessagePattern.Proofs.SkeletonMeaning
import MessagePattern.Proofs.TagsIgnored
import MessagePattern.Proofs.Texts
import MessagePattern.Proofs.Tiling
import MessagePattern.Reader.Parser
import MessagePattern.Variables
import MessagePattern.Proofs.Comparison
import MessagePattern.Proofs.HoistedVariables
import MessagePattern.Proofs.FaultKinds
import MessagePattern.Proofs.OpenQuotes
import MessagePattern.Proofs.JsonRoundTrip
import MessagePattern.Proofs.Layout
import MessagePattern.Proofs.LayoutReading
import MessagePattern.Proofs.NeatLayouts
import MessagePattern.Proofs.DocumentOrder
import MessagePattern.Proofs.HoistedForm
import MessagePattern.Proofs.TaggedSelectors
import MessagePattern.Proofs.LiteralUnits
import MessagePattern.Proofs.Mismatches
import MessagePattern.Proofs.LayeredSettings
import MessagePattern.Proofs.RefusedTokens
import MessagePattern.Proofs.Termination
import MessagePattern.Proofs.DigitBounds
import MessagePattern.Proofs.TokenPieces
import MessagePattern.Proofs.FieldSettings
import MessagePattern.Proofs.ByteSpans
import MessagePattern.Proofs.HoistRecursion
import MessagePattern.Proofs.StyleEnds
import MessagePattern.Proofs.WordIntegers
import MessagePattern.Proofs.Occurrences
import MessagePattern.Proofs.CursorHistory
