import Lcls2.Lib.Run
import Lcls2.Lib.Scan
import Lcls2.Lib.Slab
import Lcls2.Lib.Merge
import Lcls2.Lib.Region
import Lcls2.Lib.Epoch
import Lcls2.Eb.EbDgram
import Lcls2.Eb.EventBuilder
import Lcls2.Eb.Flush
import Lcls2.Eb.Sound
import Lcls2.Eb.Insert
import Lcls2.Eb.Process
import Lcls2.Eb.EventOrder
import Lcls2.Eb.Fixups
import Lcls2.Eb.BatchManager
import Lcls2.Eb.TebContributor
import Lcls2.Eb.Batching
import Lcls2.Eb.ResultDgram
import Lcls2.Eb.EbCtrbInBase
import Lcls2.Eb.Teb
import Lcls2.Psana.EventBuilder
import Lcls2.Psana.MergeViews
import Lcls2.Psana.Build
import Lcls2.Eb.Matching
import Lcls2.Shmem.TransitionCache
import Lcls2.Shmem.CacheSafety
import Lcls2.Drp.Fifo
import Lcls2.Drp.FileWriter
import Lcls2.Drp.FileStream
import Lcls2.Lib.Bytes
import Lcls2.Psana.PacketFooter
import Lcls2.Psana.Batch
import Lcls2.Psana.BatchFormat
import Lcls2.Psana.StepHistory
import Lcls2.Psana.StepsOnce
import Lcls2.Psana.BdServer
import Lcls2.Psana.ServeOnce
import Lcls2.Psana.SmdReader
import Lcls2.Psana.SmdScan
import Lcls2.Psana.SmdViews
import Lcls2.Psana.SmdShow
import Lcls2.Psana.SmdRepack
import Lcls2.Psana.SmdOrder
import Lcls2.Xpm.PvSeq
import Lcls2.Xpm.SeqMemory
import Lcls2.ConfigDb.Mongo
import Lcls2.ConfigDb.Updates
import Lcls2.Bld.Server
import Lcls2.Drp.Bld
import Lcls2.Bld.Packing
import Lcls2.Lib.Packets
import Lcls2.Bld.RoundTrip
import Lcls2.Psana.CallbackOnce
import Lcls2.Drp.PGPDetector
import Lcls2.Lib.RoundRobin
import Lcls2.Drp.PGPOrder
import Lcls2.Drp.PvaDetector
import Lcls2.Drp.PvaMatch
import Lcls2.Drp.ShortWrites
import Lcls2.Eb.ResultAdvance
import Lcls2.Eb.Lifecycle
import Lcls2.Eb.LookupTables
import Lcls2.Eb.ObjectSize
import Lcls2.Eb.MonitorBuffers
import Lcls2.Lib.Frames
import Lcls2.Xtc.Header
import Lcls2.Xtc.FileIterator
import Lcls2.Xtc.Iterator
import Lcls2.Xtc.CreateData
import Lcls2.Lib.Brackets
import Lcls2.Psana.DgramManager
import Lcls2.Psana.RunBrackets
import Lcls2.Xtc.NamesIds
import Lcls2.Xtc.RemoveData
import Lcls2.Psana.FooterSizes
import Lcls2.Lib.Dict
import Lcls2.Psana.EnvStore
import Lcls2.Psana.EnvKnown
import Lcls2.Psana.EnvValues
import Lcls2.Drp.EventBatcher
import Lcls2.Lib.Lines
import Lcls2.Drp.SubFrames
import Lcls2.Xtc.ReadData
import Lcls2.Xtc.FillOrder
import Lcls2.Psana.Refills
import Lcls2.Psana.IntegratingViews
import Lcls2.Eb.ResultBatches
import Lcls2.Eb.Occupancy
import Lcls2.Bld.HpsEventIterator
import Lcls2.Control.CollectionManager
import Lcls2.Control.Phase1Info
import Lcls2.Drp.BrokenEvents
import Lcls2.Psana.DgramRead
import Lcls2.Drp.UdpEncoder
import Lcls2.ConfigDb.TypedJson
import Lcls2.Xpm.SeqWords
import Lcls2.Drp.AxiBatcherParser
import Lcls2.ConfigDb.CdictTree
import Lcls2.ConfigDb.CdictGraft
import Lcls2.ConfigDb.CdictFrame
import Lcls2.ConfigDb.CdictRuns
import Lcls2.Control.Replies
import Lcls2.Control.ReplyWindows
import Lcls2.Lib.Stock
import Lcls2.Shmem.EventBuffers
import Lcls2.Shmem.BufferMoves
import Lcls2.Shmem.BufferPlaces
import Lcls2.Shmem.DistributedBuffers
import Lcls2.Lib.Cells
import Lcls2.Xtc.DataMemory
import Lcls2.Xtc.DataLayout
import Lcls2.Xtc.DataFilling
import Lcls2.Xtc.EventReadBack
import Lcls2.Psana.Smd0
import Lcls2.Psana.StepsDelivered
