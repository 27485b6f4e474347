import Rash.Basic
import Rash.Lib.Interaction
import Rash.Lib.Refusal
import Rash.Lib.LexicalPath
import Rash.Lib.Scanning
import Rash.Lib.Regions
import Rash.Lib.ByteMemory
import Rash.Lib.NullList
import Rash.Malloc.Allocator
import Rash.Malloc.Layout
import Rash.Malloc.SystemMemory
import Rash.Malloc.MoreCore
import Rash.Malloc.Granting
import Rash.Lib.Masks
import Rash.Malloc.Releasing
import Rash.Malloc.Aligning
import Rash.Malloc.Resizing
import Rash.Malloc.Runs
import Rash.Malloc.Separation
import Rash.Malloc.Contents
import Rash.Control.CommandTree
import Rash.Control.Signals
import Rash.Control.SignalsAgree
import Rash.Control.ExecutorAgrees
import Rash.Control.Sessions
import Rash.Lib.Machine
import Rash.Hooks.Callback
import Rash.Hooks.Spawn
import Rash.Hooks.SpawnSafe
import Rash.Hooks.Rack
import Rash.Hooks.RackSession
import Rash.Hooks.RackOnce
import Rash.Hooks.RackDenial
import Rash.Hooks.RackAdvisory
import Rash.Hooks.Lifecycle
import Rash.Hooks.LifecycleContract
import Rash.Hooks.Configuration
import Rash.Hooks.LoadedSet
import Rash.Hooks.ReloadAtomic
import Rash.Hooks.OneShot
import Rash.Hooks.Manifest
import Rash.Hooks.LuaStates
import Rash.Hooks.LuaLedger
import Rash.Hooks.LuaStatesSafe
import Rash.Hooks.Allowance
import Rash.Hooks.AllowanceKept
import Rash.Lib.Decimal
import Rash.Lib.FlatFiles
import Rash.Undo.Store
import Rash.Undo.ApplyWindow
import Rash.Undo.Stack
import Rash.Undo.StackRefinement
import Rash.Undo.Calls
import Rash.Undo.CallByCall
import Rash.Undo.Processes
import Rash.Undo.ProcessesApart
import Rash.Undo.SnapshotFaults
import Rash.Undo.RestoreFaults
import Rash.Undo.RestoreAtomic
import Rash.Undo.FailedSnapshot
import Rash.Undo.StackKept
import Rash.Exec.Pipeline
import Rash.Exec.PipelineCallbacks
import Rash.Exec.DownloadPipe
import Rash.Exec.PipelineWords
import Rash.Exec.PipelineCopies
import Rash.Lib.Path
import Rash.Exec.RedirectTargets
import Rash.Exec.CaptureBuffer
import Rash.Exec.UnwindProtect
import Rash.Exec.UnwindFrames
import Rash.Exec.CommandStages
import Rash.Exec.SimpleCommand
import Rash.Exec.BuiltinMarks
import Rash.Exec.StageAnswers
import Rash.Exec.StageStack
import Rash.Exec.StageVerdicts
import Rash.Exec.ForkedChild
import Rash.Exec.ForkedChildGone
import Rash.Exec.DenialStops
import Rash.Exec.StdioCapture
import Rash.Exec.StdioObserved
import Rash.Traps.SigchldSlot
import Rash.Traps.SigchldMachine
import Rash.Traps.SigchldAccount
import Rash.Traps.SigchldEntry
import Rash.Input.BufferedStream
import Rash.Input.ScriptInput
import Rash.Input.BufferOwners
import Rash.Input.ShellGetc
import Rash.Input.InputStates
import Rash.Input.ShellUngets
import Rash.Input.HereDocument
import Rash.Input.HereDocumentLines
import Rash.Lib.Wildcard
import Rash.Glob.Bracket
import Rash.Glob.Smatch
import Rash.Glob.Pattern
import Rash.Glob.BracketAgrees
import Rash.Glob.SmatchAgrees
import Rash.Glob.Pathname
import Rash.Glob.SlashSafety
import Rash.Glob.PathComponents
import Rash.Lib.Descriptors
import Rash.Redir.Redirections
import Rash.Redir.Noclobber
import Rash.Redir.NoclobberSafety
import Rash.Redir.UndoList
import Rash.Redir.UndoSteps
import Rash.Redir.UndoExact
import Rash.Sh.PathCanon
import Rash.Sh.Strtrans
import Rash.Sh.StrtransRound
import Rash.Sh.StrtransBound
import Rash.Sh.Shquote
import Rash.Sh.ShquoteReread
import Rash.Lib.Act
import Rash.Lib.ActSpec
import Rash.Lib.Settling
import Rash.Arith.Evaluator
import Rash.Arith.Precedence
import Rash.Arith.Judgments
import Rash.Arith.Steps
import Rash.Arith.NestedFrames
import Rash.Arith.Nesting
import Rash.Arith.Termination
import Rash.Arith.Primitives
import Rash.Arith.Numerals
import Rash.Arith.Printing
import Rash.Arith.Recursion
import Rash.Lib.FiniteMaps
import Rash.Vars.HashTable
import Rash.Vars.HashTableMap
import Rash.Vars.Variables
import Rash.Vars.ExportEnv
import Rash.Lib.ListModify
import Rash.Lib.ScopeStack
import Rash.Vars.Lookups
import Rash.Vars.Scopes
import Rash.Vars.Namerefs
import Rash.Vars.ReadBack
import Rash.Lib.CircularList
import Rash.Vars.Arrays
import Rash.Vars.ArrayLinks
import Rash.Vars.ArrayLoops
import Rash.Vars.ArrayMap
import Rash.Vars.ArrayShift
import Rash.Vars.ArrayRuns
import Rash.Vars.ArrayArgv
import Rash.Words.Braces
import Rash.Words.Sequences
import Rash.Words.BraceScan
import Rash.Words.BraceLaw
import Rash.Lib.FieldSplitting
import Rash.Words.Quoting
import Rash.Words.QuotingItems
import Rash.Words.Locales
import Rash.Words.WordSplitting
import Rash.Words.Substrings
import Rash.Words.SubstringsExact
import Rash.Words.PatSubstTiling
import Rash.Words.ReadFields
import Rash.Input.ZRead
import Rash.Lib.LinkedChain
import Rash.Jobs.Bgpids
import Rash.Jobs.BgpidsIntact
import Rash.Jobs.JobTable
import Rash.Jobs.JobIndices
import Rash.Jobs.JobMoves
import Rash.Jobs.JobRuns
import Rash.Jobs.BgpidsCells
import Rash.Jobs.BgpidsLatest
import Rash.Jobs.JobWait
import Rash.Jobs.WaitAnswer
import Rash.Jobs.WaitTiming
import Rash.Builtins.DirectoryStack
import Rash.Builtins.DirectoryStackAtomic
import Rash.Cond.TestCommand
import Rash.Cond.TestGrammar
import Rash.Cond.TestSound
import Rash.Cond.TestTotal
import Rash.Cond.TestClear
import Rash.Cond.TestComplete
import Rash.Cond.TestVerdict
