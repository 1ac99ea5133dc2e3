import Nes.Main
import Nes.Proofs.Step
import Nes.Proofs.FaultFrame
import Nes.Proofs.Tracing
import Nes.Proofs.Stack
import Nes.Proofs.Subroutine
import Nes.Proofs.HiddenFlags
import Nes.Proofs.Command
import Nes.Proofs.Image
import Nes.Proofs.CartridgeView
import Nes.Proofs.Lifecycle
import Nes.Proofs.PictureMemory
import Nes.Proofs.ReadBuffer
import Nes.Proofs.PicturePorts
import Nes.Proofs.BusMirrors
import Nes.Proofs.Checked
import Nes.Proofs.CheckedMachine
import Nes.Proofs.CheckedCommand
import Nes.Proofs.WriteFrame
import Nes.Proofs.RegisterFrame
import Nes.Proofs.ImageFormat
import Nes.Proofs.ProgramCounter
import Nes.Proofs.LongArithmetic
import Nes.Proofs.LongShift
import Nes.Proofs.Requests
import Nes.Proofs.CombinedOperations
import Nes.Proofs.AccessOutcome
import Nes.Proofs.PointerCounter
import Nes.Proofs.BlockLoad
import Nes.Proofs.Bootstrap
import Nes.Proofs.ImageChecks
import Nes.Proofs.Reporting
import Nes.Proofs.HexText
import Nes.Proofs.TraceLine
import Nes.Proofs.InstructionTable
import Nes.Proofs.ObjectMemory
import Nes.Proofs.Transcript
import Nes.Proofs.Interruption
import Nes.Proofs.VerticalBlank
