import StepScript.CommandLine
import StepScript.Files.Tree
import StepScript.Main
import StepScript.Provider.Browser
import StepScript.Provider.Data
import StepScript.Provider.Page
import StepScript.Script.Printer
import StepScript.Script.Record
import StepScript.Session
import StepScript.Proofs.JsonRecord
import StepScript.Proofs.FileScene
import StepScript.Proofs.Resolution
import StepScript.Proofs.EntryPath
import StepScript.Proofs.EntryChange
import StepScript.Proofs.CacheFiles
import StepScript.Proofs.Namespaces
import StepScript.Proofs.CacheStore
import StepScript.Proofs.MatchKey
import StepScript.Proofs.Replay
import StepScript.Proofs.Along
import StepScript.Proofs.MatchMemory
import StepScript.Proofs.Errand
import StepScript.Proofs.SafeErrand
import StepScript.Proofs.SharedCache
import StepScript.Proofs.Recording
import StepScript.Proofs.Course
import StepScript.Proofs.Job
import StepScript.Proofs.CourseEnd
import StepScript.Proofs.CaptureScope
import StepScript.Proofs.Nesting
import StepScript.Proofs.SelectorGrammar
import StepScript.Proofs.SelectorPrinting
import StepScript.Proofs.Dialogue
import StepScript.Proofs.Log
import StepScript.Proofs.Minutes
import StepScript.Proofs.Slots
import StepScript.Proofs.ProviderCycle
import StepScript.Proofs.FailedStart
import StepScript.Proofs.Commission
import StepScript.Proofs.CallMemory
import StepScript.Proofs.ActionLine
import StepScript.Proofs.LineGrammar
import StepScript.Proofs.DefinitionGrammar
import StepScript.Proofs.Reprinting
import StepScript.Proofs.WrittenAction
import StepScript.Proofs.MatchCommand
import StepScript.Proofs.DirectoryListing
import StepScript.Proofs.DirectoryMaking
import StepScript.Proofs.PathOrder
import StepScript.Proofs.CacheUpkeep
import StepScript.Proofs.CacheListing
import StepScript.Proofs.CacheHistory
import StepScript.Proofs.ScriptAgreement
import StepScript.Proofs.LoadedScript
import StepScript.Proofs.TemplatePieces
import StepScript.Proofs.RoundLimit
import StepScript.Proofs.FallBack
import StepScript.Proofs.Expansion
import StepScript.Proofs.HookSelection
import StepScript.Proofs.ToolTable
import StepScript.Proofs.ByteOrder
import StepScript.Proofs.TreeWalk
import StepScript.Proofs.DefinitionLoading
import StepScript.Proofs.PlacedFile
import StepScript.Proofs.Replacement
import StepScript.Proofs.FailingFiles
import StepScript.Proofs.Extraction
import StepScript.Proofs.OutcomeForm
import StepScript.Proofs.UnknownMembers
import StepScript.Proofs.MatchQuestion
import StepScript.Proofs.BrowserCall
