import LinuxIPC.CString
import LinuxIPC.Strtol
import LinuxIPC.Utils
import LinuxIPC.Record
import LinuxIPC.Table
import LinuxIPC.Validators
import LinuxIPC.Admin
import LinuxIPC.Runs
import LinuxIPC.AdminInvariant
import LinuxIPC.Console
import LinuxIPC.AdminSession
import LinuxIPC.FieldTermination
import LinuxIPC.DistinctSubnets
import LinuxIPC.InertLines
import LinuxIPC.SlotTable
import LinuxIPC.FdSet
import LinuxIPC.Feed
import LinuxIPC.Server
import LinuxIPC.ServerInvariant
import LinuxIPC.ServerFeeds
import LinuxIPC.ServerDelivery
import LinuxIPC.ServerDescriptors
import LinuxIPC.Replica
import LinuxIPC.System
import LinuxIPC.LittleEndian
import LinuxIPC.Summation
import LinuxIPC.Multiplexing
import LinuxIPC.MultiplexedSums
import LinuxIPC.SocketReads
import LinuxIPC.StreamCuts
import LinuxIPC.OrderedMap
import LinuxIPC.TableMap
import LinuxIPC.BroadcastFailures
import LinuxIPC.UninitialisedMemory
import LinuxIPC.LineReading
import LinuxIPC.SharedMemory
import LinuxIPC.IntegerPrompt
import LinuxIPC.MessageQueue
import LinuxIPC.ConsoleCuts
import LinuxIPC.MessageFraming
import LinuxIPC.ValidatorGrammar
import LinuxIPC.DescriptorSet
import LinuxIPC.SubnetPrinting
import LinuxIPC.StdinReaders
import LinuxIPC.BoundedScan
import LinuxIPC.BufferBounds
import LinuxIPC.ServiceLoop
import LinuxIPC.ExactSums
import LinuxIPC.SummationClient
import LinuxIPC.SummationSystem
import LinuxIPC.SummationResults
import LinuxIPC.SummationServers
import LinuxIPC.Heap
import LinuxIPC.TableMemory
import LinuxIPC.ClientSnapshots
import LinuxIPC.KeyedLog
import LinuxIPC.RouteLookup
import LinuxIPC.QueueHistory
import LinuxIPC.ShownIntegers
import LinuxIPC.AddressMemory
import LinuxIPC.ClientSessions
import LinuxIPC.EnteredTables
import LinuxIPC.TablePrinting
import LinuxIPC.ShownTables
import LinuxIPC.GoneClients
import LinuxIPC.MonotonicReads
