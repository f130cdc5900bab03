import Nmos6502.Session

/-!
The life of a processor: besides the calls, it is replaced by a new one, and its registers are
assigned directly. It may be on another bus every time.
-/

namespace Nmos6502

/-- A change of the registers that no instruction makes. -/
inductive Assignment where
  | register (target : Register) (value : Byte)
  | counter (address : Address)
  | flag (flag : Flag) (value : Bool)
  | flags (flags : Flags)
  | status (status : Byte)
  deriving DecidableEq

def Processor.assign (processor : Processor) : Assignment → Processor
  | .register target value => processor.set target value
  | .counter address => { processor with pc := address }
  | .flag flag value => processor.withFlag flag value
  | .flags flags => { processor with flags := flags }
  | .status status => processor.withStatus status

inductive Event where
  | renewed
  | assigned (change : Assignment)
  | called (call : Call)
  deriving DecidableEq

/-- An event with the bus that the processor is on when it comes about. -/
structure Episode where
  Store : Type
  bus : Bus Store
  store : Store
  event : Event

namespace Processor

/-- A fault leaves the processor as far as the call had come. -/
def meet (processor : Processor) (episode : Episode) :
    Except (Fault × Processor) (Answer × Processor) :=
  match episode.event with
  | .renewed => .ok (.done, startingAt 0)
  | .assigned change => .ok (.done, processor.assign change)
  | .called call =>
      have := episode.bus
      match (Machine.mk processor episode.store).call call with
      | .ok (reply, next) => .ok (reply.answer, next.processor)
      | .error ⟨fault, progress⟩ => .error (fault, progress.processor)

def live (processor : Processor) :
    List Episode → Except (Fault × Processor) (List Answer × Processor)
  | [] => .ok ([], processor)
  | first :: rest =>
      match processor.meet first with
      | .ok (answer, next) => (next.live rest).map fun done => (answer :: done.1, done.2)
      | .error left => .error left

end Processor

end Nmos6502
