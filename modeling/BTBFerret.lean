import BTBFerret.MarkovRecursion
import BTBFerret.Provenance
import BTBFerret.Freshness
import BTBFerret.ShadowTags
import BTBFerret.Accounting
import BTBFerret.FrontEndServing
import BTBFerret.FalsePath
import BTBFerret.StackDistance
import BTBFerret.FetchTrace
import BTBFerret.PrefetchRequests
import BTBFerret.TagePrediction
import BTBFerret.EventQueue
import BTBFerret.AddrRangeMap
import BTBFerret.RangeExclusion
import BTBFerret.RegisterConservation
import BTBFerret.MemDepWakeup
import BTBFerret.BranchHistories
import BTBFerret.ViolationMarking
import BTBFerret.PrefetchArrival
import BTBFerret.ChainTracking
import BTBFerret.Promotion
import BTBFerret.MarkovTraining
import BTBFerret.PredictionLatency
import BTBFerret.PredictionResult
import BTBFerret.GehlLengths
import BTBFerret.IndirectTargets
import BTBFerret.StackUndo
import BTBFerret.HistoryFolding
import BTBFerret.LoopLearning
import BTBFerret.IndirectTage
import BTBFerret.LoadStoreQueue
import BTBFerret.HuffmanCodes
import BTBFerret.XorFolding
import BTBFerret.TreePLRU
