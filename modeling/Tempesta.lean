import Tempesta.Hpack.DecoderFifo
import Tempesta.Hpack.EncoderGuard
import Tempesta.Hpack.HuffmanFragments
import Tempesta.Http2.SettingsAck
import Tempesta.Http2.Silence
import Tempesta.Http2.EndStream
import Tempesta.Http2.Body
import Tempesta.Hpack.DecodeSafety
import Tempesta.Http2.HpackSync
import Tempesta.Pool
import Tempesta.Http.DateText
import Tempesta.Http.Method
import Tempesta.Sched.Ratio
import Tempesta.Frang.TlsLimits
import Tempesta.Apm.Extremes
import Tempesta.Sched.Hash
import Tempesta.Cache.Purge
import Tempesta.Cache.Unmodified
import Tempesta.Cache.Employ
import Tempesta.Cache.Verbatim
import Tempesta.SsSkb.Cut
import Tempesta.Addr.RoundTrip
import Tempesta.Http.Target
import Tempesta.Http.HdrVal
import Tempesta.Http.H2Filter
import Tempesta.Client
import Tempesta.Hpack.EncoderCommit
import Tempesta.Hpack.EncoderRun
