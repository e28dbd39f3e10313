import FontCodec.Main
import FontCodec.Proofs.Substitution.Overlap
import FontCodec.Proofs.Substitution.Scan
import FontCodec.Proofs.Substitution.Coded
import FontCodec.Proofs.Text.CodePoint
import FontCodec.Proofs.Text.EscapeSyntax
import FontCodec.Proofs.BuiltIn.Fallback
import FontCodec.Proofs.BuiltIn.TextRoundTrip
import FontCodec.Proofs.BuiltIn.PayloadRoundTrip
import FontCodec.Proofs.BuiltIn.SecondPass
import FontCodec.Proofs.BuiltIn.ByteSpelling
import FontCodec.Proofs.FontTables.FirstDefect
import FontCodec.Proofs.Jamo.Retag
import FontCodec.Proofs.Text.EscapeGrammar
import FontCodec.Proofs.Text.Resolving
import FontCodec.Proofs.Text.Quotes
import FontCodec.Proofs.FontBank.Inline
import FontCodec.Proofs.BuiltIn.Inline
import FontCodec.Proofs.Text.Rewriting
import FontCodec.Proofs.Substitution.Segmentation
import FontCodec.Proofs.Substitution.PrefixCode
import FontCodec.Proofs.Substitution.Locality
import FontCodec.Proofs.FontBank.DeclarationOrder
import FontCodec.Proofs.Jamo.Collector
import FontCodec.Proofs.FontBank.Recording
import FontCodec.Proofs.FontBank.Versions
import FontCodec.Proofs.CommandLine.ReadBack
import FontCodec.Proofs.CommandLine.JamoReport
import FontCodec.Proofs.Text.EscapeErrors
import FontCodec.Proofs.BuiltIn.KoreanText
