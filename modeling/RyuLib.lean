import RyuLib.Foundations.Memory
import RyuLib.Foundations.Fifo
import RyuLib.Foundations.Framing
import RyuLib.Foundations.Machine
import RyuLib.Foundations.Threads
import RyuLib.Foundations.History
import RyuLib.Foundations.StreamSocket
import RyuLib.Foundations.Loop
import RyuLib.Foundations.Slices
import RyuLib.Buffer.MemoryBuffer
import RyuLib.Socket.Packet
import RyuLib.Socket.PacketReader
import RyuLib.Socket.PacketStreams
import RyuLib.Socket.Reading
import RyuLib.Socket.ReaderRuns
import RyuLib.Socket.SocketServer
import RyuLib.Socket.ServerFrame
import RyuLib.Socket.ServerLanes
import RyuLib.Socket.ServerReading
import RyuLib.Socket.Registry
import RyuLib.Socket.ServerWire
import RyuLib.Socket.SocketClient
import RyuLib.Socket.ClientLane
import RyuLib.Socket.ClientLifecycle
import RyuLib.Socket.ClientWire
import RyuLib.Socket.Decoders
import RyuLib.Socket.Wire
import RyuLib.Socket.LengthFidelity
import RyuLib.Thread.SuspensionQueue
import RyuLib.Thread.SimpleThread
import RyuLib.Thread.Worker
import RyuLib.Thread.Scheduler
import RyuLib.Socket.TcpClient
import RyuLib.Socket.TcpConnection
import RyuLib.Socket.TcpBytes
import RyuLib.Video.Records
import RyuLib.Video.VideoUnZip
import RyuLib.Video.VideoZip
import RyuLib.Video.YuvTools
import RyuLib.Video.ColourRange
import RyuLib.Video.VideoCreater
import RyuLib.Audio.AudioSDL
import RyuLib.Audio.AudioSessions
import RyuLib.Audio.AudioOutput
import RyuLib.Audio.AudioResampling
import RyuLib.Audio.SystemAudioCapture
import RyuLib.Audio.AudioCapture
import RyuLib.Ffmpeg.VideoCreater
import RyuLib.Ffmpeg.Recordings
import RyuLib.Foundations.Footprint
import RyuLib.Video.PixelBounds
import RyuLib.Video.I420Image
import RyuLib.Video.ArgbPicture
import RyuLib.Video.AudioBlocks
import RyuLib.Options.JsonReader
import RyuLib.Ffmpeg.FFPlayer
import RyuLib.Foundations.Allocations
import RyuLib.Capture.DesktopCapture
import RyuLib.Capture.FFmpegController
import RyuLib.Socket.TcpTermination
import RyuLib.Foundations.Sessions
import RyuLib.Pipe.PipeSender
import RyuLib.Buffer.ZeroReads
import RyuLib.Foundations.Backlog
import RyuLib.Audio.AudioDecoder
import RyuLib.Audio.DecoderThreads
import RyuLib.Audio.CaptureBacklog
import RyuLib.Audio.AudioVolume
import RyuLib.Foundations.Wrapping
import RyuLib.Ffmpeg.FFStream
import RyuLib.Video.AudioPts
import RyuLib.Foundations.Accumulator
import RyuLib.Thread.Timer
import RyuLib.Capture.BitmapSizes
import RyuLib.Foundations.LinkedNodes
import RyuLib.List.WaitFreeList
import RyuLib.Foundations.Occurrences
import RyuLib.Text.Strg
import RyuLib.Foundations.OrderedMap
import RyuLib.Text.JsonData
import RyuLib.Socket.EpollServer
import RyuLib.Foundations.Ownership
import RyuLib.Audio.SystemAudio
import RyuLib.Thread.ThreadEnding
import RyuLib.Foundations.Tenancy
import RyuLib.Socket.EpollRuns
import RyuLib.Socket.EpollSessions
import RyuLib.Socket.EpollServing
import RyuLib.Foundations.Stages
import RyuLib.Audio.AudioZip
import RyuLib.Foundations.Interleaving
import RyuLib.Socket.Messages
import RyuLib.Foundations.Custody
import RyuLib.Foundations.Multicast
import RyuLib.Ffmpeg.Playback
import RyuLib.Ffmpeg.PlaybackTasks
import RyuLib.Ffmpeg.PacketRoutes
import RyuLib.Ffmpeg.PacketFiles
import RyuLib.Ffmpeg.PlaybackClosing
import RyuLib.Pipe.PipeTrack
import RyuLib.Capture.Recorder
import RyuLib.Video.VideoUnZipRuns
import RyuLib.Video.VideoStream
import RyuLib.Socket.Broadcasts
