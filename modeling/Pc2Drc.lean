import Pc2Drc.Lib.Run
import Pc2Drc.Lib.Memory
import Pc2Drc.Lib.Buffer
import Pc2Drc.Lib.Fragment
import Pc2Drc.Lib.MachineInt
import Pc2Drc.Lib.Raster
import Pc2Drc.Lib.Tiling
import Pc2Drc.Lib.StartCode
import Pc2Drc.Lib.ShiftRegister
import Pc2Drc.Lib.Batch
import Pc2Drc.Lib.Bits
import Pc2Drc.Lib.ArithmeticCoder
import Pc2Drc.Events
import Pc2Drc.EventLoop
import Pc2Drc.EventLoopDescriptors
import Pc2Drc.CmdPacket
import Pc2Drc.CmdProtocol
import Pc2Drc.CmdProtocolSteps
import Pc2Drc.CmdProtocolInvariant
import Pc2Drc.CmdProtocolHistory
import Pc2Drc.CmdProtocolCompletion
import Pc2Drc.CmdProtocolDelivery
import Pc2Drc.CmdProtocolPad
import Pc2Drc.CmdConsumers
import Pc2Drc.CmdProtocolReceive
import Pc2Drc.VstrmPacket
import Pc2Drc.Packetization
import Pc2Drc.AstrmPacket
import Pc2Drc.VideoStreamer
import Pc2Drc.VideoPipeline
import Pc2Drc.VideoStreamerSent
import Pc2Drc.VideoStreamerResync
import Pc2Drc.UdpServer
import Pc2Drc.UdpServerDescriptors
import Pc2Drc.VncClientLoop
import Pc2Drc.AudioStreamer
import Pc2Drc.AudioStreamerDrain
import Pc2Drc.CmdProtocolTimers
import Pc2Drc.CmdProtocolReady
import Pc2Drc.VideoStreamerPacing
import Pc2Drc.VideoStreamerSource
import Pc2Drc.VstrmOptions
import Pc2Drc.CmdPayloads
import Pc2Drc.DeviceConfig
import Pc2Drc.DeviceConfigGroups
import Pc2Drc.DeviceConfigVerified
import Pc2Drc.DeviceConfigCrc
import Pc2Drc.VncOptions
import Pc2Drc.VncInput
import Pc2Drc.VncInputHeld
import Pc2Drc.VncViewOnly
import Pc2Drc.StreamerCommands
import Pc2Drc.VideoConverter
import Pc2Drc.VideoConverterBounds
import Pc2Drc.InputReceiver
import Pc2Drc.TouchArea
import Pc2Drc.InputDecoding
import Pc2Drc.InputTimeout
import Pc2Drc.VncInputKeys
import Pc2Drc.VncInputPointer
import Pc2Drc.VncKeyboard
import Pc2Drc.H264Chunks
import Pc2Drc.Cabac
import Pc2Drc.CabacCarry
import Pc2Drc.CabacCoder
import Pc2Drc.CabacStream
import Pc2Drc.CabacRegister
import Pc2Drc.CabacChunks
import Pc2Drc.NalEscape
import Pc2Drc.Lib.Fill
import Pc2Drc.Lib.Tlv
import Pc2Drc.Netboot
import Pc2Drc.NetbootReply
import Pc2Drc.NetbootRequest
import Pc2Drc.TftpdTransfer
import Pc2Drc.Lib.ExpGolomb
import Pc2Drc.Bitstream
import Pc2Drc.BitstreamGolomb
import Pc2Drc.BitstreamSyntax
import Pc2Drc.DumpStream
import Pc2Drc.DumpDecode
import Pc2Drc.ConverterOrder
import Pc2Drc.ConverterRuns
import Pc2Drc.ConverterStream
