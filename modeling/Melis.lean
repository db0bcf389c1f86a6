import Melis.Blkpart.Registry
import Melis.Blkpart.Gpt
import Melis.Ota.Banks
import Melis.Spinor.Protect
import Melis.Sdmmc.Accounting
import Melis.Sdmmc.FlushCall
import Melis.Sdmmc.LockBalance
import Melis.Sdmmc.DrvWrite
import Melis.Venc.Bitstream
import Melis.Venc.FrameBuffers
import Melis.Vdec.SbmStream
import Melis.FsWriter.FsCacheStuck
import Melis.FsWriter.Errors
import Melis.Mpeg2ts.RingCache
import Melis.Vdec.FbmNodes
import Melis.Mp4.Finish
import Melis.Sboot.Version
import Melis.Ccmu.SharedGates
import Melis.Deviceman.LifeCycle
import Melis.Dma.LifeCycle
import Melis.Mods.Intact
import Melis.Snd.Underrun
import Melis.Clock.TimeLaw
import Melis.Clock.StartProtocol
import Melis.Libcore.WakeUps
import Melis.Libcore.QueueOrder
import Melis.Libcore.TimedDelivery
import Melis.Libcore.PoolLaw
import Melis.Sboot.LoadLaw
import Melis.Blkpart.PartRead
import Melis.Blkpart.PartControl
import Melis.Spinor.EraseSector
import Melis.Rtc.RtcLaw
import Melis.Mpp.TMessageWait
import Melis.Kgdb.BreakpointLaw
import Melis.Spinor.ProgramData
import Melis.Ota.SliceCopy
import Melis.RecRender.PushAtomic
import Melis.Minfs.Device
import Melis.RecRender.CacheControl
import Melis.Script.ParserLaw
import Melis.Ccmu.FactorsLaw
import Melis.UpdateMbr.PartLaw
import Melis.Libcore.BufferLaw
import Melis.Mods.LoaderLaw
import Melis.Mods.MemoryLaw
import Melis.Libcore.UrlParse
import Melis.Snd.HwLaw
import Melis.Snd.Refusals
import Melis.Sdmmc.CardRef
import Melis.Spinand.ReadLaw
import Melis.RamDev.Device
import Melis.Mpp.VideoBufferLaw
import Melis.Clock.SpeedLaw
import Melis.MultiConsole.OutputLaw
import Melis.RecRender.SinkLaw
import Melis.Slib.TripLaw
import Melis.Vdec.HevcTypeLaw
import Melis.Kgdb.StepLaw
import Melis.RtThread.Ringbuffer
