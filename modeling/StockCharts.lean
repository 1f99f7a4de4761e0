import StockCharts.Lib.Flt
import StockCharts.Lib.Loop
import StockCharts.Lib.Quota
import StockCharts.Lib.Batches
import StockCharts.Lib.Path
import StockCharts.Lib.Rescale
import StockCharts.Lib.Rounding
import StockCharts.Lib.Scale
import StockCharts.Data
import StockCharts.Window
import StockCharts.Label
import StockCharts.Normalize
import StockCharts.Canonical
import StockCharts.Candle
import StockCharts.Stability
import StockCharts.Volatility
import StockCharts.Fetch
import StockCharts.Paths
import StockCharts.Machine
import StockCharts.Invariant
import StockCharts.Exits
import StockCharts.Raises
import StockCharts.Missing
import StockCharts.Disk
import StockCharts.Reruns
import StockCharts.Totals
import StockCharts.Render
import StockCharts.Multiprocess
import StockCharts.Collect
import StockCharts.Synthetic
import StockCharts.Lib.Kwargs
import StockCharts.Style
import StockCharts.Lib.Record
import StockCharts.Meter
import StockCharts.Trainer
import StockCharts.Sessions
import StockCharts.ChartFiles
import StockCharts.StockDataset
import StockCharts.DatasetDisk
import StockCharts.Regeneration
import StockCharts.Organise
import StockCharts.StockOrganiser
import StockCharts.Lib.Cut
import StockCharts.StockCopies
import StockCharts.Growth
