import Livego.Outcome
import Livego.Loop
import Livego.Recursion
import Livego.Endian
import Livego.Basic
import Livego.RtmpReadWriter
import Livego.RtmpChunkStream
import Livego.RtmpConn
import Livego.RtmpChunkRoundTrip
import Livego.RtmpTurn
import Livego.RtmpMessage
import Livego.RtmpFraming
import Livego.RtmpSafety
import Livego.RtmpSession
import Livego.RtmpInterleave
import Livego.Float64
import Livego.AmfReader
import Livego.AmfDecoder3
import Livego.AmfDecoder0
import Livego.AmfEncoder0
import Livego.AmfTermination
import Livego.AmfReferences
import Livego.TsMuxer
import Livego.TsDemux
import Livego.TsRoundTrip
import Livego.TsStream
import Livego.TsKeyFrame
import Livego.AmfRoundTrip
import Livego.AvPacket
import Livego.Each
import Livego.Groups
import Livego.Machine
import Livego.RtmpCache
import Livego.RtmpCacheSend
import Livego.RtmpFanout
import Livego.RtmpNoGap
import Livego.RtmpAlive
import Livego.RtmpAppName
import Livego.RtmpRepublish
import Livego.RtmpTimestamps
import Livego.RtmpCommand
import Livego.AmfMetadata
import Livego.RtmpSendPacket
import Livego.ConfigureChannel
import Livego.PacketQueue
import Livego.PacketQueueSteps
import Livego.CountingOut
import Livego.HttpFlvQueue
import Livego.HlsServer
import Livego.TsOutput
import Livego.TsTables
import Livego.CodecParser
import Livego.HlsSource
import Livego.HlsMixing
import Livego.HlsAdmission
import Livego.HlsSegments
import Livego.RtmpArrival
import Livego.AmfArrival
import Livego.RtmpReplies
import Livego.RtmpConnClient
import Livego.RtmpExchange
import Livego.RtmpCommandMessage
import Livego.RtmpResponses
import Livego.RtmpNegotiation
import Livego.RtmpPhases
import Livego.RtmpAgreement
import Livego.Strings
import Livego.HlsPlaylist
import Livego.HlsUrls
import Livego.FlvTags
import Livego.HttpFlvRelease
import Livego.StaticPushList
import Livego.ControlRelays
import Livego.StaticPushProgress
import Livego.StaticPushReplaced
import Livego.RtmpReadWhole
import Livego.RtmpReassembly
import Livego.AmfIndependence
import Livego.FlvDemux
import Livego.RtmpTurnErrors
import Livego.RtmpProgress
import Livego.RtmpAcks
import Livego.RtmpVirReader
import Livego.RtmpRelayReceive
import Livego.RtmpCreateStream
import Livego.AmfLocality
import Livego.RtmpFrames
import Livego.RtmpExtended
import Livego.Simulation
import Livego.PoolMemory
import Livego.RtmpPooled
import Livego.Crc
import Livego.TsSections
import Livego.TsClock
import Livego.AmfEncoder3
import Livego.AmfRoundTrip3
import Livego.AmfTruncation
import Livego.AmfContents
import Livego.AmfBatchEnd
import Livego.AmfReform
import Livego.Ensures
import Livego.AmfSizes
import Livego.AmfKeys
import Livego.AmfEncodings
import Livego.AmfSharing
import Livego.AmfExpansion
import Livego.Framing
import Livego.Slices
import Livego.H264Annexb
import Livego.H264SpecificInfo
import Livego.H264Formats
import Livego.BitFields
import Livego.AacAdts
import Livego.Smoothing
import Livego.HlsAlign
import Livego.Logged
import Livego.HlsAudio
import Livego.SelfDigest
import Livego.RtmpHandshake
import Livego.TsBounds
import Livego.RtmpHandshakes
import Livego.RtmpDialogue
import Livego.RtmpPassage
import Livego.RtmpStatics
import Livego.RtmpRelayForward
import Livego.TsPlayback
import Livego.HlsPlayback
import Livego.HlsWatching
import Livego.RtmpRelayChain
import Livego.RtmpPlay
