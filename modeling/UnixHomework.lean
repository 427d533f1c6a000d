import UnixHomework.Verified.Machine
import UnixHomework.Verified.Traces
import UnixHomework.Verified.Table
import UnixHomework.Verified.Tally
import UnixHomework.Verified.Ring
import UnixHomework.Verified.CondVar
import UnixHomework.Verified.Fifo
import UnixHomework.Verified.CharArray
import UnixHomework.Verified.Agreement
import UnixHomework.Verified.Fields
import UnixHomework.Verified.MessageQueue
import UnixHomework.Verified.Decimal
import UnixHomework.Verified.Hexadecimal
import UnixHomework.Verified.DoublyLinked
import UnixHomework.Verified.Chunks
import UnixHomework.Verified.BufferedFile
import UnixHomework.Verified.Tokens
import UnixHomework.Verified.EndAround
import UnixHomework.Verified.Paths
import UnixHomework.Verified.Allocations
import UnixHomework.Verified.Comparators
import UnixHomework.Verified.Loops
import UnixHomework.Verified.Numbering
import UnixHomework.Verified.Binary
import UnixHomework.Ports.BoundedQueue
import UnixHomework.Ports.BoundedQueueFifo
import UnixHomework.Ports.BoundedQueueWakeup
import UnixHomework.Ports.ShmChat
import UnixHomework.Ports.ShmChatHistory
import UnixHomework.Ports.ShmChatPolling
import UnixHomework.Ports.ShmChatWindows
import UnixHomework.Ports.ShmChatSlots
import UnixHomework.Ports.MqChat
import UnixHomework.Ports.MqChatNames
import UnixHomework.Ports.MqChatOwnership
import UnixHomework.Ports.MqChatOrder
import UnixHomework.Ports.MqChatDeparture
import UnixHomework.Ports.MqChatServerPath
import UnixHomework.Ports.MqChatRegistry
import UnixHomework.Ports.MqChatUserList
import UnixHomework.Ports.DriverManager
import UnixHomework.Ports.DriverCodec
import UnixHomework.Ports.DriverDelivery
import UnixHomework.Ports.DriverShutdown
import UnixHomework.Ports.DriverTasks
import UnixHomework.Ports.DriverHandshake
import UnixHomework.Ports.DriverEpoll
import UnixHomework.Ports.DriverEpollTable
import UnixHomework.Ports.DriverEpollDrain
import UnixHomework.Ports.EchoFrame
import UnixHomework.Ports.EchoChecksum
import UnixHomework.Ports.EchoClient
import UnixHomework.Ports.EchoServer
import UnixHomework.Ports.EchoCounting
import UnixHomework.Ports.EchoPair
import UnixHomework.Ports.EchoSession
import UnixHomework.Ports.EchoFilter
import UnixHomework.Ports.EchoBounds
import UnixHomework.Ports.EchoClientBounds
import UnixHomework.Ports.EchoPadding
import UnixHomework.Ports.EchoStale
import UnixHomework.Ports.EchoMac
import UnixHomework.Ports.RawClients
import UnixHomework.Ports.PreFork
import UnixHomework.Ports.PreForkAccounting
import UnixHomework.Ports.PreForkDeaths
import UnixHomework.Ports.PreForkDispatch
import UnixHomework.Ports.Shops
import UnixHomework.Ports.FindSubstr
import UnixHomework.Ports.Spiral
import UnixHomework.Ports.ThirdByte
import UnixHomework.Ports.PipeShell
import UnixHomework.Ports.ShellInput
import UnixHomework.Ports.ShellStdin
import UnixHomework.Ports.ShellParser
import UnixHomework.Ports.PhoneList
import UnixHomework.Ports.PhoneArray
import UnixHomework.Ports.PhoneArrayDelete
import UnixHomework.Ports.PhoneMenus
import UnixHomework.Ports.FileManager
import UnixHomework.Ports.FileManagerPaths
import UnixHomework.Ports.FileManagerStuck
import UnixHomework.Ports.FileManagerNames
import UnixHomework.Ports.FileManagerListing
import UnixHomework.Ports.TestDevice
import UnixHomework.Ports.TestDeviceFiles
import UnixHomework.Verified.Strtok
import UnixHomework.Verified.Stdin
import UnixHomework.Verified.Menus
import UnixHomework.Verified.Descriptors
import UnixHomework.Verified.Progress
import UnixHomework.Ports.BoundedQueueTurns
import UnixHomework.Ports.ThreadPool
import UnixHomework.Ports.ThreadPoolService
import UnixHomework.Ports.ThreadPoolProgress
import UnixHomework.Verified.Fgets
import UnixHomework.Ports.FileManagerPages
import UnixHomework.Ports.FileManagerPanels
import UnixHomework.Ports.DriverConsole
import UnixHomework.Ports.DriverStatus
import UnixHomework.Verified.Processes
import UnixHomework.Verified.ProcessesEnd
import UnixHomework.Ports.ProcTree
import UnixHomework.Ports.PhoneSearch
import UnixHomework.Verified.Custody
import UnixHomework.Ports.ThreadPerClient
import UnixHomework.Ports.ThreadPerClientService
import UnixHomework.Verified.FairRuns
import UnixHomework.Ports.ShopsEnd
import UnixHomework.Ports.ThreadPerClientEnd
import UnixHomework.Verified.FdTable
import UnixHomework.Ports.Pipeline
import UnixHomework.Ports.PipelineEnd
import UnixHomework.Ports.QueueStatements
import UnixHomework.Ports.QueueStatementsRefine
import UnixHomework.Ports.QueueStatementsFifo
import UnixHomework.Verified.Datagrams
import UnixHomework.Ports.Listeners
import UnixHomework.Ports.Multiprotocol
import UnixHomework.Ports.MultiprotocolClients
import UnixHomework.Ports.MultiprotocolAnswers
import UnixHomework.Ports.MultiprotocolTalk
import UnixHomework.Ports.MultiprotocolEnd
