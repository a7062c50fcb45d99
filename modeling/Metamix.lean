import Metamix.Lib.BigEndian
import Metamix.Lib.Reader
import Metamix.Lib.Heap
import Metamix.Lib.BinaryHeap
import Metamix.Lib.TableCrc
import Metamix.Lib.BitCrc
import Metamix.Lib.Machine
import Metamix.Lib.Threads
import Metamix.Lib.Upsert
import Metamix.Lib.SortedTable
import Metamix.Lib.Scope
import Metamix.Binary.Parser
import Metamix.Binary.EmitterUtil
import Metamix.Binary.ParserUtil
import Metamix.Binary.Codecs
import Metamix.H264.Rbsp
import Metamix.H264.NaluParser
import Metamix.H264.SeiParser
import Metamix.H264.Emitter
import Metamix.H264.SeiSyntax
import Metamix.H264.SeiNalu
import Metamix.H264.NaluLength
import Metamix.H264.Escaping
import Metamix.H264.SeiReader
import Metamix.H264.StartCode
import Metamix.Queue.MetadataQueue
import Metamix.Queue.Runs
import Metamix.Queue.Moves
import Metamix.Queue.Isolation
import Metamix.Queue.PopAll
import Metamix.Queue.Sorted
import Metamix.Time.Clock
import Metamix.Time.Range
import Metamix.Time.Ticks
import Metamix.Io.RemuxLoop
import Metamix.Io.Classification
import Metamix.Io.Session
import Metamix.Io.Retries
import Metamix.Proc.Remux
import Metamix.Proc.Avcc
import Metamix.Proc.Injector
import Metamix.Proc.Overflow
import Metamix.Proc.Restart
import Metamix.Proc.Window
import Metamix.Proc.Extractor
import Metamix.Proc.ScteExtractor
import Metamix.Proc.Relay
import Metamix.Proc.Placement
import Metamix.Scte35.Section
import Metamix.Scte35.Crc32
import Metamix.Scte35.Emitter
import Metamix.Scte35.Parser
import Metamix.Scte35.Bounds
import Metamix.Scte35.RoundTrip
import Metamix.Scte35.Hints
import Metamix.Scte35.DescriptorLoop
import Metamix.Scte35.SectionRoundTrip
import Metamix.Scte35.CommandRoundTrip
import Metamix.Scte35.Corruption
import Metamix.Scte35.BitSerial
import Metamix.Scte35.Framing
import Metamix.Scte35.Robust
import Metamix.Scte35.Containment
import Metamix.Scte35.Accounted
import Metamix.Scte35.Accepted
import Metamix.Binary.Progress
import Metamix.Proc.Drain
import Metamix.Proc.Malformed
import Metamix.Control.Controller
import Metamix.Control.Dump
import Metamix.Control.Selection
import Metamix.Proc.Loss
import Metamix.Proc.Exit
import Metamix.App.System
import Metamix.App.Effects
import Metamix.App.Current
import Metamix.App.Entries
import Metamix.App.Fate
import Metamix.App.ExitRace
import Metamix.App.Restarts
import Metamix.Main.Options
import Metamix.Main.Start
import Metamix.Control.Routes
import Metamix.Main.Shutdown
