import Srsirc.CaseAgreement
import Srsirc.Memory
import Srsirc.TokenGrammar
import Srsirc.LineGrammar
import Srsirc.ReadBuffer
import Srsirc.TagGrammar
import Srsirc.BufferData
import Srsirc.LineReading
import Srsirc.Reassembly
import Srsirc.Session
import Srsirc.Dictionary
import Srsirc.Fallible
import Srsirc.HeapCells
import Srsirc.Message
import Srsirc.UserBase
import Srsirc.ServerInfo
import Srsirc.Track
import Srsirc.RefCount
import Srsirc.Members
import Srsirc.UserLifetime
import Srsirc.MemberOps
import Srsirc.ChannelOps
import Srsirc.UserOps
import Srsirc.RenameOps
import Srsirc.TrackSafety
import Srsirc.Context
import Srsirc.ChannelModes
import Srsirc.TrackInfo
import Srsirc.Conn
import Srsirc.CoreHandlers
import Srsirc.Capabilities
import Srsirc.Dispatch
import Srsirc.FieldSafety
import Srsirc.Connect
import Srsirc.Registry
import Srsirc.HandlerSpecs
import Srsirc.CapSpecs
import Srsirc.LogonRun
import Srsirc.StartTls
import Srsirc.MustHave
import Srsirc.TwinBuffers
import Srsirc.Transport
import Srsirc.PlainUpgrade
import Srsirc.NegotiationFields
import Srsirc.NamesReply
import Srsirc.MapAgreement
import Srsirc.TrackCount
import Srsirc.TrackRule
import Srsirc.TrackMaps
import Srsirc.Casemapping
import Srsirc.OneCasemap
import Srsirc.ChannelNames
import Srsirc.HandlerTable
import Srsirc.DispatchOrder
import Srsirc.Registrations
import Srsirc.UserHandlers
import Srsirc.UserDispatch
import Srsirc.Utterance
import Srsirc.Negotiation
import Srsirc.NegotiationSteps
import Srsirc.NegotiationEnds
import Srsirc.MessageTags
import Srsirc.PromptLine
import Srsirc.TagCache
import Srsirc.TagReads
import Srsirc.TagsCurrent
import Srsirc.TagDecoding
import Srsirc.TagAnswers
import Srsirc.Assembly
import Srsirc.Retokenize
import Srsirc.Sentinel
import Srsirc.InputLines
import Srsirc.SendOrder
import Srsirc.NamesListing
import Srsirc.NamesEntered
import Srsirc.OfflineRelease
import Srsirc.HandlerCalls
import Srsirc.HandlerFlags
import Srsirc.TransportSetting
import Srsirc.OptionalSasl
import Srsirc.TerminatedLines
import Srsirc.UserInput
import Srsirc.SendQueue
import Srsirc.ModePrefixes
import Srsirc.PrefixTable
import Srsirc.Slots
import Srsirc.ModeEntries
import Srsirc.ModeChanges
import Srsirc.ModeFold
import Srsirc.BoundedStore
import Srsirc.Proxy
import Srsirc.ProxyReads
import Srsirc.SocksReplies
import Srsirc.ConnectReply
import Srsirc.SocksSplits
import Srsirc.ConnectRequest
import Srsirc.ReplyConsumed
import Srsirc.HttpTunnel
import Srsirc.ModeArray
import Srsirc.ModeDissect
import Srsirc.PrefixArray
import Srsirc.Allocations
import Srsirc.SkmapHeap
import Srsirc.Coherence
import Srsirc.FailedRename
import Srsirc.FailedJoin
import Srsirc.TagLog
import Srsirc.Consocket
import Srsirc.ConnectTimeouts
import Srsirc.LogonBuffer
import Srsirc.ChannelClasses
import Srsirc.PrefixGrammar
import Srsirc.FiledNames
import Srsirc.IdentParts
import Srsirc.HostSpec
import Srsirc.ProxySpec
import Srsirc.Base64
import Srsirc.PlainAuth
import Srsirc.CompactModes
import Srsirc.LowerCopy
import Srsirc.CloneArray
import Srsirc.WantedCaps
import Srsirc.FailedSetters
import Srsirc.StarttlsMode
import Srsirc.IterDeletion
import Srsirc.UserMessage
import Srsirc.OverlongLines
import Srsirc.Toggles
import Srsirc.UmodeBuffer
import Srsirc.BoundedCopy
import Srsirc.CapArray
import Srsirc.LinkedNodes
import Srsirc.NodeList
import Srsirc.ListCalls
import Srsirc.Presence
import Srsirc.UserRecords
import Srsirc.Mirror
import Srsirc.MirrorSteps
import Srsirc.ServerReports
import Srsirc.ReportedSteps
import Srsirc.Wiring
import Srsirc.NetworkRun
import Srsirc.Enumeration
import Srsirc.TrackQueries
import Srsirc.TrackedNetwork
import Srsirc.MainLoop
import Srsirc.Conveyance
import Srsirc.Schedule
import Srsirc.QuitPhase
import Srsirc.Naps
import Srsirc.Outgoing
import Srsirc.Transfer
import Srsirc.ChannelList
import Srsirc.Topics
import Srsirc.Sessions
import Srsirc.TopicsTracked
