import ShellToC.Main
import ShellToC.Proofs.BlockReports
import ShellToC.Proofs.StructuredCode
import ShellToC.Proofs.HelperUsage
import ShellToC.Proofs.Resegmentation
import ShellToC.Proofs.CommandLists
import ShellToC.Proofs.FilledFormats
import ShellToC.Proofs.QuotedEcho
import ShellToC.Proofs.FaultReports
import ShellToC.Proofs.InertMarkers
import ShellToC.Proofs.TestMeaning
import ShellToC.Proofs.ArithWidth
import ShellToC.Proofs.Locality
import ShellToC.Proofs.HeapValues
import ShellToC.Proofs.Refusals
import ShellToC.Proofs.BlockChains
import ShellToC.Proofs.SinglePass
import ShellToC.Proofs.QuotedRuns
import ShellToC.Proofs.ModeEffects
import ShellToC.Proofs.StringLiterals
import ShellToC.Proofs.QuotedWords
import ShellToC.Proofs.CommandText
import ShellToC.Proofs.EchoOutput
import ShellToC.Proofs.ScriptLines
import ShellToC.Proofs.StatementLines
import ShellToC.Proofs.KeptText
import ShellToC.Proofs.BackgroundJobs
import ShellToC.Proofs.CapturedCommands
import ShellToC.Proofs.LiteralBytes
import ShellToC.Proofs.IntegerCoercion
import ShellToC.Proofs.BareCuts
import ShellToC.Proofs.PipelineStages
import ShellToC.Proofs.TokenGrammar
import ShellToC.Proofs.TokenText
import ShellToC.Proofs.MarkPlaces
import ShellToC.Proofs.ArgumentGroups
import ShellToC.Proofs.MessageLines
