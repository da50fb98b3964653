import PhpTokens.Lexer.Basic
import PhpTokens.Log.Service
import PhpTokens.Proofs.BoundedLog
import PhpTokens.Proofs.CaseInsensitivity
import PhpTokens.Proofs.CloseTag
import PhpTokens.Proofs.Construction
import PhpTokens.Proofs.ContentError
import PhpTokens.Proofs.Initialisation
import PhpTokens.Proofs.Insignificance
import PhpTokens.Proofs.Limits
import PhpTokens.Proofs.LineEndNeutrality
import PhpTokens.Proofs.Lossless
import PhpTokens.Proofs.NameHistory
import PhpTokens.Proofs.Position
import PhpTokens.Proofs.Recount
import PhpTokens.Proofs.RoundTrip
import PhpTokens.Proofs.Search
import PhpTokens.Proofs.TagStructure
import PhpTokens.Proofs.Walk
import PhpTokens.Record.Place
import PhpTokens.Record.Preferences
import PhpTokens.Record.Token
import PhpTokens.Sequence.Report
import PhpTokens.Session
import PhpTokens.Settings.File
import PhpTokens.Proofs.NumberGrammar
import PhpTokens.Proofs.HeredocExtent
import PhpTokens.Proofs.QuoteParity
import PhpTokens.Proofs.HeredocLines
import PhpTokens.Proofs.ByteSlice
import PhpTokens.Proofs.ByteExtent
import PhpTokens.Proofs.ByteNumber
import PhpTokens.Proofs.ByteCut
import PhpTokens.Proofs.ByteScanner
import PhpTokens.Proofs.CommentExtent
import PhpTokens.Proofs.MaximalMunch
import PhpTokens.Proofs.TriviaOrder
import PhpTokens.Proofs.PositionOrder
import PhpTokens.Proofs.MessageCut
import PhpTokens.Proofs.JsonLine
import PhpTokens.Proofs.EventLine
import PhpTokens.Proofs.Precedence
import PhpTokens.Proofs.SpellingTable
