import YottaTest.Awk.Marked
import YottaTest.Awk.Masking
import YottaTest.Awk.Patterns
import YottaTest.Awk.Regex
import YottaTest.Awk.Text
import YottaTest.Bank.Accounts
import YottaTest.Bank.Balance
import YottaTest.Bank.Jobs
import YottaTest.Barrage.Analyzer
import YottaTest.Barrage.Frame
import YottaTest.Barrage.HandShake
import YottaTest.Barrage.Invariant
import YottaTest.Barrage.LogFormat
import YottaTest.Barrage.RelinkRule
import YottaTest.Barrage.SharedRefs
import YottaTest.Boolgen.Expr
import YottaTest.Boolgen.Terms
import YottaTest.Collation.Bounds
import YottaTest.Collation.Hindi
import YottaTest.Collation.Tables
import YottaTest.Com.Difftime
import YottaTest.Com.ShowSort
import YottaTest.Convbase.Complement
import YottaTest.Convbase.Generators
import YottaTest.Convbase.Numerals
import YottaTest.Convbase.Octal
import YottaTest.Convbase.Reference
import YottaTest.Convbase.Shortcut
import YottaTest.Dbcreate.Options
import YottaTest.Extfilter.Padding
import YottaTest.Go.Answer
import YottaTest.Go.Blocks
import YottaTest.Go.Processes
import YottaTest.Go.Strconv
import YottaTest.Go.ThreeEnp1
import YottaTest.Go.Walk
import YottaTest.Imptp.Buffers
import YottaTest.Imptp.CWorker
import YottaTest.Imptp.CheckDb
import YottaTest.Imptp.Completed
import YottaTest.Imptp.Counters
import YottaTest.Imptp.Crashed
import YottaTest.Imptp.Datinfo
import YottaTest.Imptp.Gen
import YottaTest.Imptp.GoWorker
import YottaTest.Imptp.Helpers
import YottaTest.Imptp.Index
import YottaTest.Imptp.Outline
import YottaTest.Imptp.Own
import YottaTest.Imptp.Pause
import YottaTest.Imptp.PctImptp
import YottaTest.Imptp.Precision
import YottaTest.Imptp.Progress
import YottaTest.Imptp.Redo
import YottaTest.Imptp.RustData
import YottaTest.Imptp.RustWorker
import YottaTest.Imptp.Solo
import YottaTest.Imptp.Status
import YottaTest.Imptp.System
import YottaTest.Imptp.Trigger
import YottaTest.Imptp.Values
import YottaTest.Imptp.Verdict
import YottaTest.Imptp.Worker
import YottaTest.Inref.Masks
import YottaTest.Job.Barrier
import YottaTest.Lib.Bounded
import YottaTest.Lib.Bracket
import YottaTest.Lib.Calendar
import YottaTest.Lib.Cascade
import YottaTest.Lib.Cycle
import YottaTest.Lib.Digits
import YottaTest.Lib.Dispatch
import YottaTest.Lib.Draws
import YottaTest.Lib.Emit
import YottaTest.Lib.Exchange
import YottaTest.Lib.Fence
import YottaTest.Lib.Footprint
import YottaTest.Lib.Ledger
import YottaTest.Lib.Locks
import YottaTest.Lib.Orbit
import YottaTest.Lib.Ordered
import YottaTest.Lib.Paths
import YottaTest.Lib.Pieces
import YottaTest.Lib.Reserve
import YottaTest.Lib.Run
import YottaTest.Lib.Shared
import YottaTest.Lib.Subtree
import YottaTest.Lib.Table
import YottaTest.Lib.Wildcards
import YottaTest.M.Globals
import YottaTest.M.Numbers
import YottaTest.M.Strings
import YottaTest.Multisite.CallCount
import YottaTest.Multisite.Edits
import YottaTest.Multisite.Lines
import YottaTest.Multisite.Links
import YottaTest.Multisite.Local
import YottaTest.Multisite.Started
import YottaTest.Multisite.Sync
import YottaTest.Mupjnl.DeltaTime
import YottaTest.Mupjnl.DiffTime
import YottaTest.Mupjnl.Extract
import YottaTest.Mupjnl.Masks
import YottaTest.Outref.Allow
import YottaTest.Outref.Chunks
import YottaTest.Outref.Deny
import YottaTest.Outref.Envir
import YottaTest.Outref.Flags
import YottaTest.Outref.Options
import YottaTest.Outref.Process
import YottaTest.Outstream.Filter
import YottaTest.Port.Acquire
import YottaTest.Port.Leftover
import YottaTest.Relink.Canonicalize
import YottaTest.Relink.Envvars
import YottaTest.Relink.Validity
import YottaTest.Rollback.Resyncseqno
import YottaTest.SimpleApi.CText
import YottaTest.SimpleApi.GlvnZWRITE
import YottaTest.SimpleApi.PseudoBank
import YottaTest.SimpleApi.TrnLog
import YottaTest.SimpleApi.Variables
import YottaTest.SimpleApi.Wordfreq
import YottaTest.Slowfill.Fill
import YottaTest.Slowfill.Verify
import YottaTest.Sprgde.Extractkey
import YottaTest.Sprgde.KeyLines
import YottaTest.Sprgde.Ranges
import YottaTest.Stress.Filling
import YottaTest.Stress.Jobs
import YottaTest.Stress.Randfill
import YottaTest.Stress.Verify
import YottaTest.Submit.Picktest
import YottaTest.Triggers.Count
import YottaTest.Triggers.Gentrigload
import YottaTest.Triggers.Hasht
import YottaTest.Triggers.Lines
import YottaTest.Triggers.Load
import YottaTest.Triggers.Spec
import YottaTest.Triggers.Summary
import YottaTest.Umjrnl.Fences
import YottaTest.Umjrnl.Replay
import YottaTest.Umjrnl.Skips
import YottaTest.Umjrnl.Split
import YottaTest.Umjrnl.Wormhole
