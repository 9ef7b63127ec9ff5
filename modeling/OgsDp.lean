import OgsDp.Dsmf.SeidAccounting
import OgsDp.Dsmf.Identity
import OgsDp.Pfcp.XactDelivery
import OgsDp.Dsmf.GnbSync
import OgsDp.Dsmf.XactConservation
import OgsDp.Df.PfcpPath
import OgsDp.Nas.Downlink
import OgsDp.Amf.DmfMirror
import OgsDp.Pfcp.ReportRoundTrip
import OgsDp.Gtp.XactCounter
import OgsDp.Gtp.XactDelivery
import OgsDp.Upf.UrrTimers
import OgsDp.Df.Conservation
import OgsDp.Dmf.GnbRegistry
import OgsDp.Dmf.Sm
import OgsDp.Amf.GutiRun
import OgsDp.Amf.UeSessions
import OgsDp.Amf.NgapIsolation
import OgsDp.Amf.NasBuffer
import OgsDp.Amf.ServedTai
import OgsDp.Pfcp.XactResponse
import OgsDp.Core.TlvForeign
import OgsDp.Upf.SourceCheck
import OgsDp.Pfcp.ErrorIndication
import OgsDp.Pfcp.PacketConservation
import OgsDp.Pfcp.RuleUpdate
import OgsDp.Smf.DecisionImport
import OgsDp.Smf.SmContextRef
import OgsDp.Smf.Lookups
import OgsDp.Smf.TftRuns
import OgsDp.Smf.FilterInstall
import OgsDp.Dnf.Relay
import OgsDp.Gtp.HeaderBuild
import OgsDp.Gtp.IeDecoders
import OgsDp.Nas.QosParserBounds
import OgsDp.Nas.QosRulesRoundTrip
import OgsDp.Nas.Nssai
import OgsDp.Sbi.XactOwners
import OgsDp.Proto.Pco
import OgsDp.Pfcp.MatchReads
import OgsDp.Pfcp.SdfFilterCodec
import OgsDp.Pfcp.ResourceInfo
import OgsDp.Pfcp.UePoolRanges
import OgsDp.Ipfw.FilterMeaning
import OgsDp.Pfcp.SubnetOverlap
import OgsDp.Pfcp.FTeidBounds
import OgsDp.Sbi.UrlCodec
import OgsDp.Sbi.TimeString
import OgsDp.Sbi.SuciRoundTrip
import OgsDp.Core.PoolRun
import OgsDp.Proto.FlowInstall
import OgsDp.Sbi.Discovery
import OgsDp.Amf.UeContextId
import OgsDp.Nas.RateOctets
import OgsDp.Core.TlvConservation
import OgsDp.Smf.UpfSelection
import OgsDp.Gtp.PacketBounds
import OgsDp.Core.TimerExpiry
