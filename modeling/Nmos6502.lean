import Nmos6502.Bus.Board
import Nmos6502.Bus.Image
import Nmos6502.Machine
import Nmos6502.Proofs.Arithmetic
import Nmos6502.Proofs.DeadFlags
import Nmos6502.Proofs.Destination
import Nmos6502.Proofs.Footprint
import Nmos6502.Proofs.Frame
import Nmos6502.Proofs.Multibyte
import Nmos6502.Proofs.Operand
import Nmos6502.Proofs.Safety
import Nmos6502.Proofs.SavedStatus
import Nmos6502.Proofs.Simulation
import Nmos6502.Proofs.Slices
import Nmos6502.Proofs.Subroutine
import Nmos6502.Session
import Nmos6502.Proofs.Unsupported
import Nmos6502.Life
import Nmos6502.Proofs.GoldenTrace
import Nmos6502.Proofs.Lifetime
import Nmos6502.Proofs.Prediction
import Nmos6502.Proofs.ResultFlags
import Nmos6502.Proofs.Comparison
import Nmos6502.Proofs.Placement
import Nmos6502.Proofs.Replacement
import Nmos6502.Proofs.Accounting
import Nmos6502.Proofs.MultibyteShift
import Nmos6502.Proofs.Display
import Nmos6502.Proofs.Countdown
import Nmos6502.Proofs.SavedProcessor
import Nmos6502.Proofs.WellFormedSnapshot
