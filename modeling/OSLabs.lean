import OSLabs.Proof.Pthread.Local
import OSLabs.Proof.Pthread.Tally
import OSLabs.Proof.Pthread.Progress
import OSLabs.Construction.Priority
import OSLabs.Proof.Priority.Exclusion
import OSLabs.Proof.Priority.HandOff
import OSLabs.Proof.Priority.Stranding
import OSLabs.Construction.TwoPersonJobs
import OSLabs.Proof.TwoPersonJobs.Claims
import OSLabs.Proof.TwoPersonJobs.Completion
import OSLabs.Construction.BigLittleCar
import OSLabs.Proof.BigLittleCar.Load
import OSLabs.Proof.BigLittleCar.Waiting
import OSLabs.Construction.LittleRedHen
import OSLabs.Proof.LittleRedHen.Bread
import OSLabs.Proof.LittleRedHen.Waiting
import OSLabs.Construction.Band
import OSLabs.Proof.Band.Stage
import OSLabs.Proof.Pthread.Placed
import OSLabs.Proof.Band.OneBand
import OSLabs.Proof.Band.Completion
import OSLabs.Construction.Critical
import OSLabs.Proof.Critical.Admission
import OSLabs.Construction.ReaderWriter
import OSLabs.Proof.Pthread.Attended
import OSLabs.Proof.ReaderWriter.Exclusion
import OSLabs.Proof.ReaderWriter.Wakeups
import OSLabs.Construction.Game
import OSLabs.Proof.Game.Protocol
import OSLabs.Proof.Game.Waiting
import OSLabs.Construction.Lunch
import OSLabs.Proof.Lunch.Groups
import OSLabs.Proof.Lunch.Decision
import OSLabs.Construction.RedBluePurple
import OSLabs.Proof.RedBluePurple.Channels
import OSLabs.Proof.RedBluePurple.Overlap
import OSLabs.Proof.Pthread.Frame
import OSLabs.Construction.Max
import OSLabs.Proof.Max.Capacity
import OSLabs.Proof.Max.Stranding
import OSLabs.Construction.Leader
import OSLabs.Proof.Leader.Playground
import OSLabs.Construction.Rooms
import OSLabs.Proof.Pthread.Counter
import OSLabs.Proof.Rooms.Counters
import OSLabs.Proof.Rooms.Stranding
import OSLabs.Proof.Rooms.Accounting
import OSLabs.Construction.Transition
import OSLabs.Proof.Transition.Run
import OSLabs.Construction.Spawn
import OSLabs.Construction.ThreadSort
import OSLabs.Proof.Spawn.Run
import OSLabs.Proof.ThreadSort.Sorting
import OSLabs.Construction.Stdio
import OSLabs.Construction.CountChars
import OSLabs.Construction.Process
import OSLabs.Construction.ParaGcc
import OSLabs.Proof.Process.Run
import OSLabs.Proof.Process.Measure
import OSLabs.Proof.Process.Crew
import OSLabs.Proof.ParaGcc.Scheduling
import OSLabs.Proof.ParaGcc.Linking
import OSLabs.Construction.SimpleTest
import OSLabs.Construction.Commander
import OSLabs.Proof.Commander.Units
import OSLabs.Proof.SimpleTest.Verdicts
import OSLabs.Proof.CountChars.Tasks
import OSLabs.Proof.CountChars.Sum
import OSLabs.Proof.CountChars.Agreement
import OSLabs.Construction.SimpleShell
import OSLabs.Proof.Process.Ledger
import OSLabs.Proof.SimpleShell.Lines
import OSLabs.Proof.SimpleShell.Commands
import OSLabs.Construction.Server
import OSLabs.Proof.Server.Family
import OSLabs.Proof.Server.Schedule
import OSLabs.Proof.Server.Foreground
import OSLabs.Proof.Server.Close
import OSLabs.Construction.Buffer
import OSLabs.Construction.Sorts
import OSLabs.Construction.Selection
import OSLabs.Proof.Buffer.Loops
import OSLabs.Proof.Buffer.Order
import OSLabs.Proof.Sorts.Exchange
import OSLabs.Proof.Selection.Sorted
import OSLabs.Proof.Sorts.Merge
import OSLabs.Proof.Sorts.MergeSort
import OSLabs.Proof.Inorder.Gate
import OSLabs.Proof.Inorder.Output
import OSLabs.Proof.Threadpool.Requests
import OSLabs.Proof.Factoring.Factors
import OSLabs.Proof.Pipe.Run
import OSLabs.Proof.Stdio.Text
import OSLabs.Construction.Buffalo
import OSLabs.Construction.BuffaloSay
import OSLabs.Proof.Pipe.Pair
import OSLabs.Proof.Buffalo.Frames
import OSLabs.Proof.BuffaloSay.Stages
import OSLabs.Proof.BuffaloSay.Protocol
import OSLabs.Construction.BuffaloPipe
import OSLabs.Proof.BuffaloPipe.Stages
import OSLabs.Proof.BuffaloPipe.Protocol
import OSLabs.Construction.Caesar
import OSLabs.Proof.Caesar.Messages
import OSLabs.Proof.Caesar.Argument
import OSLabs.Proof.Caesar.OnePipe
import OSLabs.Proof.Caesar.Transports
import OSLabs.Proof.Selection.Search
import OSLabs.Proof.Caesar.RoundTrip
import OSLabs.Construction.Linked
import OSLabs.Construction.Sllist
import OSLabs.Proof.Linked.Chain
import OSLabs.Proof.Sllist.Refinement
import OSLabs.Proof.Sllist.Printing
import OSLabs.Construction.Ext2
import OSLabs.Proof.Ext2.Walk
import OSLabs.Proof.Ext2.Range
import OSLabs.Proof.Ext2.Holes
import OSLabs.Construction.SequentialCount
import OSLabs.Proof.CountChars.Listing
import OSLabs.Proof.CountChars.Sequential
import OSLabs.Construction.CommanderLine
import OSLabs.Proof.Commander.Parsing
import OSLabs.Proof.Commander.Targets
import OSLabs.Proof.ParaGcc.Objects
import OSLabs.Proof.Ext2.Allocation
import OSLabs.Proof.Factoring.Candidates
import OSLabs.Proof.Factoring.Slots
import OSLabs.Construction.DumpLog
import OSLabs.Proof.DumpLog.Reads
import OSLabs.Proof.Fifo.Window
import OSLabs.Construction.Prodcons
import OSLabs.Proof.Fifo.Queue
import OSLabs.Proof.Prodcons.Queue
import OSLabs.Construction.Sieve
import OSLabs.Proof.Sieve.Marks
import OSLabs.Proof.Sieve.Serial
import OSLabs.Proof.Sieve.Threads
import OSLabs.Proof.Xv6.Log.Recovery
import OSLabs.Proof.Xv6.Pipe.Wakeups
import OSLabs.Proof.Tiling.Blocks
import OSLabs.Proof.Xv6.Grep.Lines
import OSLabs.Proof.Xv6.Log.Crash
import OSLabs.Proof.Xv6.Log.Overflow
import OSLabs.Proof.Xv6.Log.Wakeups
import OSLabs.Proof.Xv6.Log.Calls
import OSLabs.Proof.Xv6.Umalloc.Program
import OSLabs.Proof.Xv6.Vm.Isolation
