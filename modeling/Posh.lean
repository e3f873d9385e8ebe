import Posh.AgentCongestion
import Posh.AgentMuxPair
import Posh.LocalMux
import Posh.OpSniffer
import Posh.RttEcho
import Posh.Coalescing
import Posh.Regeometry
import Posh.PacedDelivery
import Posh.FrameBuffer
import Posh.HistoryStream
import Posh.HistoryEpochs
import Posh.DaemonGrowth
import Posh.GrowthLoop
import Posh.RelayConvergence
import Posh.Rehome
import Posh.MuxRetarget
import Posh.SessionResume
import Posh.LocalConvergence
import Posh.SessionReturn
import Posh.DatagramSession
import Posh.RefusedFragments
import Posh.DatagramConnection
import Posh.HistoryNumbers
import Posh.ScrollView
import Posh.EchoAck
import Posh.RecordReads
import Posh.Reassembly
import Posh.FrameWire
import Posh.BaseAgreement
import Posh.DiffReads
import Posh.Term.Dump
import Posh.Term.InflateReads
import Posh.Term.InflateSafe
import Posh.Term.Unfilter
import Posh.Term.ModeReads
import Posh.Term.OriginMode
import Posh.Term.PairedRun
import Posh.Term.PenReads
import Posh.Term.SwitchReads
import Posh.Term.Reflow
import Posh.Term.HiddenScreen
import Posh.Render.FrameCursor
import Posh.MouseFilter
import Posh.ScrollAnchor
import Posh.Term.OscSlices
import Posh.Term.OscFaults
import Posh.Lib.TextSlice
import Posh.Term.GraphicsFaults
import Posh.Lib.Utf8Check
import Posh.Recording.Json
import Posh.Recording.Castx
import Posh.SessionStack
import Posh.ReattachLoop
import Posh.RecordedTarget
import Posh.Term.GraphicsShown
import Posh.Term.Blending
import Posh.Term.FrameChain
import Posh.Lib.AlphaOver
import Posh.Recording.Recorder
import Posh.Term.OutsideReads
import Posh.Term.QuietDump
import Posh.Term.OutsideKept
import Posh.ControlKeys
import Posh.Confine
import Posh.SessionNames
import Posh.ShellWords
import Posh.Recording.Player
import Posh.Recording.Seeking
import Posh.LineScraper
import Posh.Render.InputModes
import Posh.HeldRows
import Posh.ScreenSwitch
