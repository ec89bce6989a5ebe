import CommunicationAPI.Machine
import CommunicationAPI.Exclusive
import CommunicationAPI.Ethernet
import CommunicationAPI.ShmEngine
import CommunicationAPI.ShmSteps
import CommunicationAPI.ShmTickets
import CommunicationAPI.ShmWindow
import CommunicationAPI.ShmRegistry
import CommunicationAPI.ShmClients
import CommunicationAPI.ShmReader
import CommunicationAPI.ShmRuns
import CommunicationAPI.ShmAcknowledge
import CommunicationAPI.ShmDelivery
import CommunicationAPI.ShmLateJoin
import CommunicationAPI.ShmWakeup
import CommunicationAPI.ShmParked
import CommunicationAPI.Octets
import CommunicationAPI.XorCrypto
import CommunicationAPI.Segment
import CommunicationAPI.NearbyEntities
import CommunicationAPI.Protocol
import CommunicationAPI.EndToEnd
import CommunicationAPI.Relay
import CommunicationAPI.SystemMessages
import CommunicationAPI.GroupHandlers
import CommunicationAPI.KeyAgreement
import CommunicationAPI.NotifyLeft
import CommunicationAPI.Multimap
import CommunicationAPI.Membership
import CommunicationAPI.PtpSynchronizers
import CommunicationAPI.PtpExchange
import CommunicationAPI.PtpProgress
import CommunicationAPI.RelayBounds
import CommunicationAPI.ClockAdjustment
import CommunicationAPI.Component
import CommunicationAPI.ResponseThread
import CommunicationAPI.SendingInterval
import CommunicationAPI.Observed
import CommunicationAPI.Communicator
import CommunicationAPI.ExternalDest
import CommunicationAPI.BufferOwnership
import CommunicationAPI.BufferLedger
import CommunicationAPI.PubSub
import CommunicationAPI.MemberTraffic
import CommunicationAPI.QuadrantChange
import CommunicationAPI.ShmLifetime
import CommunicationAPI.ShmUndo
import CommunicationAPI.SegmentCodec
import CommunicationAPI.MessageObject
import CommunicationAPI.HandlerReads
import CommunicationAPI.ShmBootstrap
import CommunicationAPI.ShmTicketHoles
import CommunicationAPI.SubscriberCleanup
import CommunicationAPI.ShmUndoRange
import CommunicationAPI.ProtocolUpdate
import CommunicationAPI.DiscardedFrames
import CommunicationAPI.BusAdmission
import CommunicationAPI.FrameSizes
import CommunicationAPI.NearbyTable
import CommunicationAPI.LaneChecksum
import CommunicationAPI.MacTampering
import CommunicationAPI.FramePadding
import CommunicationAPI.SendPath
import CommunicationAPI.RefCount
import CommunicationAPI.BufferRefs
import CommunicationAPI.CommunicatorQueue
import CommunicationAPI.CString
import CommunicationAPI.ServiceDirectory
import CommunicationAPI.EnvelopeCodec
import CommunicationAPI.OffsetEstimate
import CommunicationAPI.PtpAccuracy
import CommunicationAPI.BytewiseMac
import CommunicationAPI.IndexLoop
import CommunicationAPI.ObserverVectors
import CommunicationAPI.Monitor
import CommunicationAPI.MonitorProgress
import CommunicationAPI.Semaphore
import CommunicationAPI.CommunicatorThreads
import CommunicationAPI.CommunicatorDelivery
import CommunicationAPI.SpinLock
import CommunicationAPI.NearbyLock
import CommunicationAPI.DirectoryThreads
import CommunicationAPI.DirectoryLookups
import CommunicationAPI.FleetMessages
import CommunicationAPI.LatencyPackets
import CommunicationAPI.ComponentFleet
import CommunicationAPI.LatencyRuns
import CommunicationAPI.TedsService
import CommunicationAPI.TedsRuns
