import NPKernel.GuardedRuns
import NPKernel.FaultSignals
import NPKernel.NpkfsRecovery
import NPKernel.PersistentUpdates
import NPKernel.FailedWrites
import NPKernel.FileIsolation
import NPKernel.TornSlots
import NPKernel.SyscallResult
import NPKernel.ForkedThreads
import NPKernel.SignalMasks
import NPKernel.ProcessParents
import NPKernel.ThreadGroups
import NPKernel.ExecResets
import NPKernel.ChildWaits
import NPKernel.FutexResults
import NPKernel.SignalQueues
import NPKernel.KillDelivery
import NPKernel.ThreadAccounts
import NPKernel.KernelProcess
import NPKernel.FutexWakes
import NPKernel.HeapSoundness
import NPKernel.HeapValidity
import NPKernel.AreaLists
import NPKernel.MappingRestrictions
import NPKernel.ElfLoading
import NPKernel.InterpreterPaths
import NPKernel.LazyFaults
import NPKernel.PipeQueues
import NPKernel.DirectoryListings
import NPKernel.TimedWaits
import NPKernel.MappedRegions
import NPKernel.WriteAccess
import NPKernel.PathResolution
import NPKernel.InitramfsArchives
import NPKernel.PollReadiness
import NPKernel.AmlPackages
import NPKernel.EndpointContexts
import NPKernel.KeyboardModifiers
import NPKernel.FormattedOutput
import NPKernel.KeyboardReports
import NPKernel.InputWaiters
import NPKernel.LineEditing
