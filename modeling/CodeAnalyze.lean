import CodeAnalyze.Irqbalance.Ownership
import CodeAnalyze.Irqbalance.Settled
import CodeAnalyze.Irqbalance.Powersave
import CodeAnalyze.Irqbalance.Bans
import CodeAnalyze.Irqbalance.BannedCpus
import CodeAnalyze.Irqbalance.Coverage
import CodeAnalyze.Irqbalance.Rescan
import CodeAnalyze.Irqbalance.TreeShape
import CodeAnalyze.Irqbalance.Loads
import CodeAnalyze.Irqbalance.Migration
import CodeAnalyze.Irqbalance.MaskText
import CodeAnalyze.Irqbalance.MaskAccept
import CodeAnalyze.Irqbalance.MaskWidths
import CodeAnalyze.Irqbalance.NumaLookups
import CodeAnalyze.Irqbalance.Selection
import CodeAnalyze.Irqbalance.LoadStats
import CodeAnalyze.Irqbalance.Shares
import CodeAnalyze.Irqbalance.SortOrder
import CodeAnalyze.Irqbalance.Depth
import CodeAnalyze.Irqbalance.Conservation
import CodeAnalyze.Irqbalance.Levels
import CodeAnalyze.Irqbalance.PolicyLines
import CodeAnalyze.Irqbalance.Hints
import CodeAnalyze.Irqbalance.Affinities
import CodeAnalyze.Irqbalance.EventLines
import CodeAnalyze.Irqbalance.ProcTable
import CodeAnalyze.Irqbalance.StatTable
import CodeAnalyze.Irqbalance.Solitary
import CodeAnalyze.Irqbalance.Faults
import CodeAnalyze.Irqbalance.LinkedRuns
import CodeAnalyze.Irqbalance.BitmapRuns
import CodeAnalyze.Irqbalance.Lifecycle
import CodeAnalyze.Nf10.Integrity
import CodeAnalyze.Nf10.Mappings
import CodeAnalyze.Nf10.Transmit
import CodeAnalyze.Nf10.Replenish
import CodeAnalyze.Nf10.Axi
import CodeAnalyze.Nf10.Erased
import CodeAnalyze.Nf10.Stopped
import CodeAnalyze.Nf10.Unserved
import CodeAnalyze.Nf10.SkbOwnership
import CodeAnalyze.Nf10.Balance
import CodeAnalyze.Nf10.PacketMemory
import CodeAnalyze.Nf10.Traffic
