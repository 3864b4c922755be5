import WindowsLibc.Acl.Counted
import WindowsLibc.Acl.Entry
import WindowsLibc.Acl.Enumerate
import WindowsLibc.Acl.Growth
import WindowsLibc.Acl.Packed
import WindowsLibc.Convert.FileTime
import WindowsLibc.Convert.Unicode
import WindowsLibc.Directory.Readdir
import WindowsLibc.Directory.Scandir
import WindowsLibc.Directory.Seekdir
import WindowsLibc.Fcntl.FdTable
import WindowsLibc.Fcntl.FdTable.Refinement
import WindowsLibc.Fcntl.Init
import WindowsLibc.Getopt.Getopt
import WindowsLibc.Getopt.Operands
import WindowsLibc.Getopt.Progress
import WindowsLibc.Getopt.Scan
import WindowsLibc.Getopt.Unknown
import WindowsLibc.Getopt.Within
import WindowsLibc.Lib.ArgQuote
import WindowsLibc.Lib.ArgRead
import WindowsLibc.Lib.ArgSplit
import WindowsLibc.Lib.Block
import WindowsLibc.Lib.Digits
import WindowsLibc.Lib.Doubling
import WindowsLibc.Lib.Emission
import WindowsLibc.Lib.LastWrite
import WindowsLibc.Lib.Linked
import WindowsLibc.Lib.Machine
import WindowsLibc.Lib.Observe
import WindowsLibc.Lib.Overwrite
import WindowsLibc.Lib.PathStack
import WindowsLibc.Lib.Records
import WindowsLibc.Lib.Texts
import WindowsLibc.Lib.Trajectory
import WindowsLibc.Lib.WordSet
import WindowsLibc.Path.Absolute
import WindowsLibc.Path.Coalesce
import WindowsLibc.Path.Conversions
import WindowsLibc.Path.DosPath
import WindowsLibc.Path.FdCache
import WindowsLibc.Path.Joined
import WindowsLibc.Path.Links
import WindowsLibc.Path.Names
import WindowsLibc.Path.Normalise
import WindowsLibc.Path.Readlink
import WindowsLibc.Path.Relink
import WindowsLibc.Path.Sizes
import WindowsLibc.Path.Symlink
import WindowsLibc.Path.Unc
import WindowsLibc.Poll.Poll
import WindowsLibc.Poll.Select
import WindowsLibc.Printf.Asprintf
import WindowsLibc.Printf.Buffer
import WindowsLibc.Printf.Char
import WindowsLibc.Printf.Commas
import WindowsLibc.Printf.Convert
import WindowsLibc.Printf.Counted
import WindowsLibc.Printf.Encoders
import WindowsLibc.Printf.Entry
import WindowsLibc.Printf.Fills
import WindowsLibc.Printf.Format
import WindowsLibc.Printf.Grouped
import WindowsLibc.Printf.Growing
import WindowsLibc.Printf.HexFloat
import WindowsLibc.Printf.Integer
import WindowsLibc.Printf.Literal
import WindowsLibc.Printf.Loop
import WindowsLibc.Printf.Print
import WindowsLibc.Printf.Silent
import WindowsLibc.Printf.Snprintf
import WindowsLibc.Printf.Specification
import WindowsLibc.Printf.Star
import WindowsLibc.Printf.StringPrecision
import WindowsLibc.Printf.Text
import WindowsLibc.Printf.Varargs
import WindowsLibc.Process.Table
import WindowsLibc.Process.Wait
import WindowsLibc.Scanf.Accounting
import WindowsLibc.Scanf.Allocate
import WindowsLibc.Scanf.Convert
import WindowsLibc.Scanf.Decimal
import WindowsLibc.Scanf.Directive
import WindowsLibc.Scanf.Format
import WindowsLibc.Scanf.Grouped
import WindowsLibc.Scanf.LeadingSpace
import WindowsLibc.Scanf.Locality
import WindowsLibc.Scanf.Matching
import WindowsLibc.Scanf.Number
import WindowsLibc.Scanf.NumberGrammar
import WindowsLibc.Scanf.RoundTrip
import WindowsLibc.Scanf.Scan
import WindowsLibc.Scanf.ScanSet
import WindowsLibc.Scanf.Specifier
import WindowsLibc.Scanf.WideString
import WindowsLibc.Sched.CpuSet
import WindowsLibc.Security.Chmod
import WindowsLibc.Signal.Mask
import WindowsLibc.Signal.Pending
import WindowsLibc.Signal.Thread
import WindowsLibc.Spawn.Actions
import WindowsLibc.Spawn.Cleanup
import WindowsLibc.Spawn.CommandLine
import WindowsLibc.Spawn.Environment
import WindowsLibc.Spawn.Inherit
import WindowsLibc.Spawn.Interpreter
import WindowsLibc.Spawn.Limit
import WindowsLibc.Spawn.PathSearch
import WindowsLibc.Spawn.RoundTrip
import WindowsLibc.Spawn.Script
import WindowsLibc.Spawn.Shebang
import WindowsLibc.Stdio.Append
import WindowsLibc.Stdio.Closing
import WindowsLibc.Stdio.Closing.Loops
import WindowsLibc.Stdio.Closing.Refinement
import WindowsLibc.Stdio.Contract
import WindowsLibc.Stdio.FastPath
import WindowsLibc.Stdio.Fgets
import WindowsLibc.Stdio.Flush
import WindowsLibc.Stdio.Getc
import WindowsLibc.Stdio.Getdelim
import WindowsLibc.Stdio.InStep
import WindowsLibc.Stdio.Pushback
import WindowsLibc.Stdio.Reached
import WindowsLibc.Stdio.Refinement
import WindowsLibc.Stdio.Seek
import WindowsLibc.Stdio.SeekCur
import WindowsLibc.Stdio.Setvbuf
import WindowsLibc.Stdio.Stream
import WindowsLibc.Stdio.StreamList
import WindowsLibc.Stdio.Transfer
import WindowsLibc.Stdio.Unbuffered
import WindowsLibc.Stdio.Unnoticed
import WindowsLibc.Stdio.Unread
import WindowsLibc.Stdio.View
import WindowsLibc.Stdio.Window
import WindowsLibc.Stdio.Written
import WindowsLibc.Temp.Mkstemp
import WindowsLibc.Temp.RandomString
import WindowsLibc.Temp.Tempnam
import WindowsLibc.Thread.Cond
import WindowsLibc.Thread.Key
import WindowsLibc.Thread.Lifecycle
import WindowsLibc.Thread.Lifecycle.Ledger
import WindowsLibc.Thread.Lifecycle.Steps
import WindowsLibc.Thread.Mutex
import WindowsLibc.Thread.Relock
import WindowsLibc.Thread.Relock.Alerts
import WindowsLibc.Thread.Relock.Returns
import WindowsLibc.Thread.RwLock
import WindowsLibc.Thread.RwLock.Lost
import WindowsLibc.Thread.Unwind
import WindowsLibc.Thread.Unwind.Exit
import WindowsLibc.Thread.Unwind.Stack
import WindowsLibc.Thread.Wakeup
import WindowsLibc.Xattr.Listxattr
import WindowsLibc.Xattr.Value
