import LBMacTwo.Foundation.Clocked
import LBMacTwo.Scsi.Recovery
import LBMacTwo.Scsi.WriteStream
import LBMacTwo.Scsi.DeferredReq
import LBMacTwo.Scsi.DataLength
import LBMacTwo.Pram.Mount
import LBMacTwo.Asc.Status
import LBMacTwo.Swim.ReadPath
import LBMacTwo.Rtc.Refinement
import LBMacTwo.Cpu.BusError
import LBMacTwo.Nubus.ExactlyOnce
import LBMacTwo.Adb.Keyboard
import LBMacTwo.Adb.ShiftIn
import LBMacTwo.Memory.Download
import LBMacTwo.Cpu.SdramWrite
import LBMacTwo.Floppy.MfmReader
import LBMacTwo.Floppy.GcrReader
import LBMacTwo.Floppy.GcrSeeks
import LBMacTwo.Asc.Wavetable
import LBMacTwo.Adb.Mouse
import LBMacTwo.Nubus.Palette
import LBMacTwo.Swim.Sessions
import LBMacTwo.Swim.ByteLanes
import LBMacTwo.Nubus.Scanout
import LBMacTwo.Swim.Verdict
import LBMacTwo.Scc.Writes
import LBMacTwo.Scc.Receive
import LBMacTwo.Scc.Transmit
import LBMacTwo.Scsi.Window
import LBMacTwo.Pram.Persistence
import LBMacTwo.Uart.Loopback
import LBMacTwo.Via.Flags
import LBMacTwo.Via.Timers
import LBMacTwo.Fpu.Multiply
import LBMacTwo.Fpu.AddSub
import LBMacTwo.Fpu.Divide
import LBMacTwo.Fpu.Sqrt
import LBMacTwo.Fpu.Interchange
