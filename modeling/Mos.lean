import Mos.Kern.FrameRun
import Mos.Kern.DiskRing
import Mos.Kern.Boot
import Mos.Kern.KernelHalf
import Mos.Kern.IpcFlag
import Mos.Kern.QueueLaw
import Mos.Kern.Sched
import Mos.Kern.SelfMap
import Mos.Kern.RefWrap
import Mos.Kern.DiskFrames
import Mos.Kern.Apart
import Mos.Kern.Confine
import Mos.Kern.Errors
import Mos.Kern.PageSend
import Mos.Kern.Mailbox
import Mos.Kern.Asked
import Mos.Kern.LoadSeg
import Mos.Kern.FaultProgress
import Mos.Kern.UserMode
import Mos.Kern.BootAlloc
import Mos.User.PipeFifo
import Mos.Kern.Context
import Mos.Fs.Fresh
import Mos.Fs.Serv
import Mos.Fs.OpenTab
import Mos.User.FsIpc
import Mos.Lib.Contract
import Mos.Fs.Layout
import Mos.Fs.LayoutPath
import Mos.Fs.ServRun
import Mos.User.FsLife
import Mos.Fs.ReadBitmap
import Mos.Kern.Dispatch
import Mos.User.Process
import Mos.User.Fork
import Mos.Lib.ByteMem
import Mos.User.FileIo
import Mos.Kern.Reclaim
import Mos.Lib.Parts
import Mos.Fs.Resolve
import Mos.Fs.Truncate
import Mos.Lib.Exact
import Mos.Tools.FsFormat
import Mos.Tools.FormatInv
import Mos.Tools.FormatFits
import Mos.User.FdTable
import Mos.User.InitStack
import Mos.Kern.DevReq
import Mos.User.SpawnElf
import Mos.User.Space
import Mos.User.OpenFile
import Mos.User.Dup
import Mos.User.SpawnShare
import Mos.Lib.Loop
import Mos.Base.StringOps
import Mos.Base.Queue
import Mos.User.Debugf
import Mos.Base.PrintFormat
import Mos.User.Readline
import Mos.User.Gettoken
import Mos.User.Shell
import Mos.User.ShellArgs
import Mos.User.ShellWait
import Mos.Fs.Ide
import Mos.Kern.Panics
import Mos.Kern.Tlb
import Mos.Kern.TrapNest
import Mos.Kern.Waiting
import Mos.Tools.FormatPaths
import Mos.User.FsTree
import Mos.User.FsRestart
