import EltexHomeworks.Lib.Transition
import EltexHomeworks.Lib.ScrollCursor
import EltexHomeworks.Lib.CString
import EltexHomeworks.Lib.Processes
import EltexHomeworks.Lib.ForkJoin
import EltexHomeworks.Lib.ForkOutput
import EltexHomeworks.Fork.SixForks
import EltexHomeworks.Thread.FiveThreads
import EltexHomeworks.FileManager.System
import EltexHomeworks.FileManager.Panel
import EltexHomeworks.FileManager.ListDir
import EltexHomeworks.FileManager.Main
import EltexHomeworks.FileManager.Viewport
import EltexHomeworks.FileManager.Steps
import EltexHomeworks.FileManager.CursorInvariant
import EltexHomeworks.FileManager.CursorRing
import EltexHomeworks.FileManager.Borders
import EltexHomeworks.FileManager.Selectable
import EltexHomeworks.FileManager.Enter
import EltexHomeworks.FileManager.Mirror
import EltexHomeworks.FileManager.ClimbCopy
import EltexHomeworks.FileManager.ListingAccess
import EltexHomeworks.FileManager.FileTree
import EltexHomeworks.FileManager.WorkDir
import EltexHomeworks.FileManager.WorkDirRun
import EltexHomeworks.FileManager.Highlight
import EltexHomeworks.Lib.Simulation
import EltexHomeworks.FileManager.Navigation
import EltexHomeworks.Lib.Run
import EltexHomeworks.Net.MultiUserTcpEcho
import EltexHomeworks.Net.UdpEcho
import EltexHomeworks.Net.TcpEcho
import EltexHomeworks.Net.TcpEchoBound
import EltexHomeworks.Lib.RowMajor
import EltexHomeworks.TextEditor.Editor
import EltexHomeworks.TextEditor.Agreement
import EltexHomeworks.TextEditor.Backspace
import EltexHomeworks.TextEditor.OpenSave
import EltexHomeworks.TextEditor.Bounds
import EltexHomeworks.Lib.Overwrite
import EltexHomeworks.TextEditor.Sessions
import EltexHomeworks.Storage.Model
import EltexHomeworks.Storage.Steps
import EltexHomeworks.Storage.Mutexes
import EltexHomeworks.Storage.Conservation
import EltexHomeworks.Storage.Accounts
import EltexHomeworks.Storage.Visits
import EltexHomeworks.Storage.Deadlock
import EltexHomeworks.Storage.MutexArray
import EltexHomeworks.Storage.Quiescence
import EltexHomeworks.Storage.Completion
import EltexHomeworks.Storage.Main
import EltexHomeworks.Net.MultiUserUdpEcho.Model
import EltexHomeworks.Lib.Tokens
import EltexHomeworks.Net.MultiUserUdpEcho.Steps
import EltexHomeworks.Net.MultiUserUdpEcho.Sessions
import EltexHomeworks.Net.MultiUserUdpEcho.ClientMoves
import EltexHomeworks.Net.MultiUserUdpEcho.Isolation
import EltexHomeworks.Net.MultiUserUdpEcho.Progress
import EltexHomeworks.Net.MultiUserUdpEcho.Process
import EltexHomeworks.Net.MultiUserUdpEcho.Confidential
import EltexHomeworks.Lib.Descriptors
import EltexHomeworks.Lib.Places
import EltexHomeworks.Lib.Ledger
import EltexHomeworks.Net.ServerQueue.Model
import EltexHomeworks.Net.ServerQueue.Steps
import EltexHomeworks.Net.ServerQueue.Locations
import EltexHomeworks.Net.ServerQueue.Service
import EltexHomeworks.Net.ServerQueue.Delivery
import EltexHomeworks.Net.ServerQueue.Overrun
import EltexHomeworks.Net.ServerQueue.Books
import EltexHomeworks.Net.ServerQueue.Balance
import EltexHomeworks.Net.ServerQueue.Reports
import EltexHomeworks.Net.ServerQueue.Requests
import EltexHomeworks.Net.ServerQueue.Pool
import EltexHomeworks.Net.ServerQueue.Launches
import EltexHomeworks.Net.MultiUserTcpParent
import EltexHomeworks.Lib.Parties
import EltexHomeworks.Net.MultiUserTcpSystem
import EltexHomeworks.Net.MultiUserTcpSessions
import EltexHomeworks.Net.MultiUserTcpPrints
import EltexHomeworks.Net.Select
import EltexHomeworks.Net.SelectQueues
import EltexHomeworks.Net.Readiness
import EltexHomeworks.Lib.Ipv4
import EltexHomeworks.Net.RawSocket
import EltexHomeworks.Net.RawSocketEcho
import EltexHomeworks.Lib.CInt
import EltexHomeworks.Lib.Stdin
import EltexHomeworks.Calculator.Arithmetic
import EltexHomeworks.Calculator.Protocol
import EltexHomeworks.Lib.Decimal
import EltexHomeworks.Calculator.Session
