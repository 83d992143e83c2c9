import KopiaBlock.Go.Bytes
import KopiaBlock.Go.BufWriter
import KopiaBlock.Go.FilePath
import KopiaBlock.Builder.Info
import KopiaBlock.Builder.Add
import KopiaBlock.Builder.SortedBlocks
import KopiaBlock.Builder.Build
import KopiaBlock.Builder.ExtraData
import KopiaBlock.Builder.Output
import KopiaBlock.Builder.Layout
import KopiaBlock.Builder.Guarantees
import KopiaBlock.Cache.ExpireUnused
import KopiaBlock.Cache.Calls
import KopiaBlock.Cache.Concurrent
import KopiaBlock.Cache.Guarantees
import KopiaBlock.Cache.Retention
import KopiaBlock.Storage.Logging
