import DesktopSync.Computation.Utf
import DesktopSync.Computation.ByteOrder
import DesktopSync.Computation.WordBytes
import DesktopSync.Computation.ChunkedSource
import DesktopSync.Computation.ChunkedSink
import DesktopSync.Computation.Framing
import DesktopSync.Computation.TransitionSystem
import DesktopSync.Computation.WindowsPath
import DesktopSync.Computation.Hexadecimal
import DesktopSync.Computation.Exchange
import DesktopSync.Computation.Replica
import DesktopSync.Computation.Ledger
import DesktopSync.Computation.Overlay
import DesktopSync.Computation.Decimal
import DesktopSync.Computation.Binary64
import DesktopSync.Computation.TextStream
import DesktopSync.Computation.SerialNumber
import DesktopSync.Computation.IntervalList
import DesktopSync.Computation.LinkedNodes
import DesktopSync.Computation.CircularArray
import DesktopSync.Computation.DataRefinement
import DesktopSync.Computation.SelectiveRepeat
import DesktopSync.Computation.SelectiveRepeatSafety
import DesktopSync.Computation.SelectiveRepeatProgress
import DesktopSync.Model.Shared
import DesktopSync.Model.Packet
import DesktopSync.Model.Receiver
import DesktopSync.Model.Sender
import DesktopSync.Model.LiveFile
import DesktopSync.Model.UploadLedger
import DesktopSync.Model.Handshake
import DesktopSync.Model.Desktop
import DesktopSync.Model.Overlap
import DesktopSync.Model.Sessions
import DesktopSync.Model.MainLoop
import DesktopSync.Model.Trigger
import DesktopSync.Model.Tray
import DesktopSync.Model.Transfers
import DesktopSync.Model.Config
import DesktopSync.Model.ProfileText
import DesktopSync.Model.CutSave
import DesktopSync.Model.SequenceNumber
import DesktopSync.Model.SndLossList
import DesktopSync.Model.RcvLossList
import DesktopSync.Model.SndBuffer
import DesktopSync.Model.RcvBuffer
import DesktopSync.Model.AckWindow
import DesktopSync.Model.Udt
import DesktopSync.Model.UdtPacket
import DesktopSync.Analysis.Frames
import DesktopSync.Analysis.WireBytes
import DesktopSync.Analysis.Fragmentation
import DesktopSync.Analysis.RoundTrip
import DesktopSync.Analysis.Confinement
import DesktopSync.Analysis.Completion
import DesktopSync.Analysis.CutHeader
import DesktopSync.Analysis.CutUpload
import DesktopSync.Analysis.FileNames
import DesktopSync.Analysis.Pairing
import DesktopSync.Analysis.DesktopUpload
import DesktopSync.Analysis.Convergence
import DesktopSync.Analysis.Sessions
import DesktopSync.Analysis.Staleness
import DesktopSync.Analysis.Fixpoint
import DesktopSync.Analysis.Uninterrupted
import DesktopSync.Analysis.Watermark
import DesktopSync.Analysis.Trigger
import DesktopSync.Analysis.TrayLife
import DesktopSync.Analysis.HandshakeRun
import DesktopSync.Analysis.AnnouncedSizes
import DesktopSync.Analysis.LiveContent
import DesktopSync.Analysis.Selection
import DesktopSync.Analysis.CleanExit
import DesktopSync.Analysis.IniFile
import DesktopSync.Analysis.Restart
import DesktopSync.Analysis.SavedConfig
import DesktopSync.Analysis.CutSave
import DesktopSync.Analysis.LayoutOrder
import DesktopSync.Analysis.TornLayout
import DesktopSync.Analysis.DefaultGrid
import DesktopSync.Analysis.Messages
import DesktopSync.Analysis.LossNodes
import DesktopSync.Analysis.SndLossList
import DesktopSync.Analysis.RcvLossList
import DesktopSync.Analysis.SndBuffer
import DesktopSync.Analysis.RcvBuffer
import DesktopSync.Analysis.AckWindow
import DesktopSync.Analysis.UdtSender
import DesktopSync.Analysis.UdtReceiver
import DesktopSync.Analysis.Udt
import DesktopSync.Analysis.UdtUpload
import DesktopSync.Analysis.UdtPacket
