import SolarisXorg.Lib.Run
import SolarisXorg.Lib.Ring
import SolarisXorg.Lib.Loop
import SolarisXorg.Lib.I2cLine
import SolarisXorg.Lib.Act
import SolarisXorg.Lib.CStr
import SolarisXorg.Lib.Sim
import SolarisXorg.Lib.Chain
import SolarisXorg.Lib.Holders
import SolarisXorg.Lib.Poll
import SolarisXorg.Lib.Fit
import SolarisXorg.Lib.Fills
import SolarisXorg.Lib.SortedInsert
import SolarisXorg.Lib.Assign
import SolarisXorg.Lib.Block
import SolarisXorg.Lib.Backtrack
import SolarisXorg.Drm.Idr
import SolarisXorg.Drm.Proof.IdrRanges
import SolarisXorg.Drm.Proof.IdrRun
import SolarisXorg.Drm.Proof.IdrCalls
import SolarisXorg.Drm.Mm
import SolarisXorg.Drm.Proof.MmInv
import SolarisXorg.Drm.Proof.MmRun
import SolarisXorg.Drm.MmScan
import SolarisXorg.Drm.Proof.MmScan
import SolarisXorg.Drm.Proof.MmSearch
import SolarisXorg.Drm.MmTable
import SolarisXorg.Drm.Proof.MmTable
import SolarisXorg.Drm.Gem
import SolarisXorg.Drm.Proof.GemTables
import SolarisXorg.Drm.Proof.GemRefs
import SolarisXorg.Drm.Proof.GemRun
import SolarisXorg.Drm.GemRace
import SolarisXorg.Drm.Proof.GemRace
import SolarisXorg.Drm.IdrLists
import SolarisXorg.Drm.Proof.IdrLists
import SolarisXorg.Drm.Bufs
import SolarisXorg.Drm.Proof.Bufs
import SolarisXorg.Drm.Proof.BufsPlaced
import SolarisXorg.Drm.Lock
import SolarisXorg.Drm.Proof.Lock
import SolarisXorg.Drm.Proof.LockCall
import SolarisXorg.Drm.Vblank
import SolarisXorg.Drm.Proof.Vblank
import SolarisXorg.Drm.Proof.VblankCount
import SolarisXorg.Drm.VblankTime
import SolarisXorg.Drm.Proof.VblankTime
import SolarisXorg.Drm.Files
import SolarisXorg.Drm.Proof.Files
import SolarisXorg.Drm.Proof.Masters
import SolarisXorg.Drm.Proof.OpenClose
import SolarisXorg.Drm.I2c
import SolarisXorg.Drm.Proof.I2c
import SolarisXorg.Drm.Proof.I2cTransfer
import SolarisXorg.Drm.I2cFault
import SolarisXorg.Drm.Proof.I2cFault
import SolarisXorg.Drm.Ioctl
import SolarisXorg.Drm.Proof.Ioctl
import SolarisXorg.Drm.Read
import SolarisXorg.Drm.Proof.Read
import SolarisXorg.Drm.Magic
import SolarisXorg.Drm.Proof.Magic
import SolarisXorg.Drm.Context
import SolarisXorg.Drm.Proof.Context
import SolarisXorg.Drm.Maps
import SolarisXorg.Drm.Proof.Maps
import SolarisXorg.Drm.Proof.MapTokens
import SolarisXorg.Drm.Rect
import SolarisXorg.Drm.Proof.Rect
import SolarisXorg.Drm.VblankWait
import SolarisXorg.Drm.Proof.VblankWait
import SolarisXorg.Drm.Stub
import SolarisXorg.Drm.Proof.IdrLost
import SolarisXorg.Drm.Proof.Stub
import SolarisXorg.Drm.FbHelper
import SolarisXorg.Drm.Proof.FbHelper
import SolarisXorg.Drm.Proof.FbSetup
import SolarisXorg.Drm.Framebuffer
import SolarisXorg.Drm.Proof.Framebuffer
import SolarisXorg.Drm.Proof.FramebufferStep
import SolarisXorg.Drm.Proof.FramebufferCall
import SolarisXorg.Drm.Proof.FramebufferRun
import SolarisXorg.I915.Ring
import SolarisXorg.I915.Proof.RingPos
import SolarisXorg.I915.Proof.Ring
import SolarisXorg.I915.Seqno
import SolarisXorg.I915.Proof.SeqnoRing
import SolarisXorg.I915.Proof.Seqno
import SolarisXorg.I915.Execbuffer
import SolarisXorg.I915.Proof.ExecFrame
import SolarisXorg.I915.Proof.ExecReloc
import SolarisXorg.I915.Proof.ExecBalance
import SolarisXorg.I915.Proof.ExecTargets
import SolarisXorg.I915.RelocChunks
import SolarisXorg.I915.Proof.RelocChunks
import SolarisXorg.I915.Swizzle
import SolarisXorg.I915.Proof.Swizzle
import SolarisXorg.I915.Modeset
import SolarisXorg.I915.Proof.Modeset
import SolarisXorg.I915.Proof.ModesetSet
import SolarisXorg.I915.Proof.ModesetConfig
import SolarisXorg.I915.Proof.ModesetRun
import SolarisXorg.I915.Proof.ModesetCheck
import SolarisXorg.Gfx.GammaPack
import SolarisXorg.Gfx.Proof.GammaInt
import SolarisXorg.Gfx.Proof.GammaTable
import SolarisXorg.Gfx.IntCodec
import SolarisXorg.Gfx.Proof.IntCodec
import SolarisXorg.Gfx.UnpackRun
import SolarisXorg.Gfx.Proof.UnpackRun
import SolarisXorg.Fbconf.LineEr
import SolarisXorg.Fbconf.Scan
import SolarisXorg.Fbconf.WriteConfig
import SolarisXorg.Fbconf.Proof.ConfigFile
import SolarisXorg.Fbconf.UseModes
import SolarisXorg.Fbconf.Proof.LineEr
import SolarisXorg.Fbconf.Edid
import SolarisXorg.Fbconf.Proof.Edid
import SolarisXorg.Fbconf.EditConfig
import SolarisXorg.Fbconf.Proof.EditHeap
import SolarisXorg.Fbconf.Proof.EditConfig
import SolarisXorg.Fbconf.EdidArray
import SolarisXorg.Fbconf.Proof.EdidArray
import SolarisXorg.Fbconf.ResCompatible
import SolarisXorg.Fbconf.Proof.ResCompatible
import SolarisXorg.Fbconf.ResLookup
import SolarisXorg.Fbconf.Proof.ResLookup
import SolarisXorg.Fbconf.ModeList
import SolarisXorg.Fbconf.Proof.ModeList
import SolarisXorg.Fbconf.DisplayModes
import SolarisXorg.Fbconf.Proof.DisplayModes
import SolarisXorg.Fbconf.Fields
import SolarisXorg.Fbconf.Proof.Fields
import SolarisXorg.Fbconf.Keywds
import SolarisXorg.Fbconf.Getargs
import SolarisXorg.Fbconf.Synonyms
import SolarisXorg.Fbconf.Proof.Getargs
import SolarisXorg.Fbconf.Proof.Synonyms
import SolarisXorg.Fbconf.MeasureBuf
import SolarisXorg.Fbconf.Proof.MeasureBuf
import SolarisXorg.Xserver.Dtlogin
import SolarisXorg.Xserver.Proof.DtloginParse
import SolarisXorg.Xserver.Proof.DtloginStream
import SolarisXorg.Xserver.Proof.DtloginGroups
import SolarisXorg.Xserver.DtloginCred
import SolarisXorg.Xserver.Proof.DtloginCred
import SolarisXorg.Xserver.Proof.DtloginRecord
import SolarisXorg.Xserver.Interactive
import SolarisXorg.Xserver.Proof.Interactive
import SolarisXorg.Xserver.InteractiveQuery
import SolarisXorg.Xserver.Proof.InteractiveQuery
import SolarisXorg.Xserver.Proof.InteractiveSets
import SolarisXorg.Dga.WinGrab
import SolarisXorg.Dga.Update
import SolarisXorg.Dga.Proof.Lists
import SolarisXorg.Dga.Proof.WinGrab
import SolarisXorg.Dga.Proof.MbsInv
import SolarisXorg.Dga.Proof.Mbufset
import SolarisXorg.Dga.Phase
import SolarisXorg.Dga.Proof.PhaseFrame
import SolarisXorg.Dga.Proof.PhaseReport
import SolarisXorg.Dga.Proof.PhaseTracks
import SolarisXorg.Dga.Proof.PhaseSubject
import SolarisXorg.Dga.Proof.PhaseLock
import SolarisXorg.Dga.ClipUpdate
import SolarisXorg.Dga.Proof.ClipUpdate
import SolarisXorg.Dga.MbReason
import SolarisXorg.Dga.Proof.MbReason
import SolarisXorg.Dga.Cmap
import SolarisXorg.Dga.Proof.Cmap
import SolarisXorg.Dga.Proof.CmapRange
import SolarisXorg.Dga.Proof.CmapShadow
import SolarisXorg.X11.Gb18030
import SolarisXorg.X11.Gb18030Ct
import SolarisXorg.X11.Gb18030Text
import SolarisXorg.X11.Gb18030Units
import SolarisXorg.X11.Gb18030Cursor
import SolarisXorg.X11.Gb18030Bounds
import SolarisXorg.X11.Gb18030Wide
import SolarisXorg.X11.Proof.Gb18030Char
import SolarisXorg.X11.Proof.Gb18030Cs
import SolarisXorg.X11.Proof.Gb18030Ct
import SolarisXorg.X11.Proof.Gb18030Room
import SolarisXorg.X11.Proof.Gb18030Cursor
import SolarisXorg.X11.Proof.Gb18030Bounds
import SolarisXorg.X11.Proof.Gb18030Wide
import SolarisXorg.X11.CmapEquiv
import SolarisXorg.X11.Proof.CmapEquiv
