import Nmos6502.Snapshot
import Nmos6502.Bus.Image
import Nmos6502.Proofs.Contents
import Nmos6502.Proofs.PlainLibrary

/-!
Processors that are saved and restored by a library that does what is documented. Main statement: a
snapshot holds the whole processor, so that a machine goes on from it as if it had never stopped
(`restores_everything`).
-/

namespace Nmos6502

namespace Snapshot

variable {library : Library}

theorem nodup_flagKeys : (flagFields library).keys.Nodup := by
  change (["carry", "zero", "interrupt_disable", "decimal", "break_command", "unused", "overflow",
    "negative"].map Json.Text.ofString).Nodup
  decide +kernel

theorem nodup_processorKeys : (processorFields library).keys.Nodup := by
  change (["a", "x", "y", "pc", "sp", "flags", "total_cycles"].map Json.Text.ofString).Nodup
  decide +kernel

section

variable (documented : library.IsDocumented)

include documented

theorem isRecord_flags : (flags library).IsRecord (flagFields library) Flags.mk :=
  documented.record _ _

theorem isRecord_processor : (processor library).IsRecord (processorFields library) Processor.mk :=
  documented.record _ _

theorem roundTrips_flags : (flags library).RoundTrips := by
  have bool := documented.bool.roundTrips
  exact (isRecord_flags documented).roundTrips nodup_flagKeys
    ⟨bool, bool, bool, bool, bool, bool, bool, bool, trivial⟩ fun _ => rfl

theorem roundTrips_processor : (processor library).RoundTrips := by
  have byte := documented.byte.roundTrips UInt8.toNat_lt fun _ => UInt8.ofNat_toNat
  have address := documented.address.roundTrips UInt16.toNat_lt fun _ => UInt16.ofNat_toNat
  have total := documented.total.roundTrips UInt64.toNat_lt fun _ => UInt64.ofNat_toNat
  exact (isRecord_processor documented).roundTrips nodup_processorKeys
    ⟨byte, byte, byte, address, byte, roundTrips_flags documented, total, trivial⟩ fun _ => rfl

theorem writesPortable_flags (depth : Nat) : (flags library).WritesPortable (depth + 1) := by
  have bool := documented.bool.writesPortable depth
  exact (isRecord_flags documented).writesPortable nodup_flagKeys
    ⟨bool, bool, bool, bool, bool, bool, bool, bool, trivial⟩

theorem writesPortable_processor (depth : Nat) :
    (processor library).WritesPortable (depth + 2) := by
  have byte := documented.byte.writesPortable
    (fun word => word.toNat_lt.trans (by decide)) (depth + 1)
  have address := documented.address.writesPortable
    (fun word => word.toNat_lt.trans (by decide)) (depth + 1)
  have total := documented.total.writesPortable UInt64.toNat_lt (depth + 1)
  exact (isRecord_processor documented).writesPortable nodup_processorKeys
    ⟨byte, byte, byte, address, byte, writesPortable_flags documented depth, total, trivial⟩

theorem read?_write (saved : Processor) : read? library (write library saved) = some saved := by
  rw [read?, write, documented.parse?_print _ (writesPortable_processor documented 125 saved),
    Option.bind_eq_bind, Option.bind_some, roundTrips_processor documented]

theorem write_injective : Function.Injective (write library) := by
  intro first second same
  have read : some first = some second := by
    rw [← read?_write documented first, same, read?_write documented]
  exact Option.some.inj read

theorem restore_write (saved other : Processor) :
    restore library other (write library saved) = saved := by
  rw [restore, read?_write documented]
  rfl

/-- A snapshot is read back as the processor it was taken of and of no other one. A machine that is
stopped, saved, and restored into whatever processor goes on as if nothing had happened. -/
theorem restores_everything :
    (∀ saved, read? library (write library saved) = some saved) ∧
    Function.Injective (write library) ∧
    ∀ (σ : Type) [Bus σ] (machine : Machine σ) (first second : Nat) (other : Processor),
      ∃ history saved more last,
        machine.steps first = .ok (history, saved) ∧
        (Machine.mk (restore library other (write library saved.processor)) saved.bus).steps
          second = .ok (more, last) ∧
        machine.steps (first + second) = .ok (history ++ more, last) := by
  refine ⟨read?_write documented, write_injective documented, ?_⟩
  intro σ _ machine first second other
  let saved := machine.after first
  have resumed : (Machine.mk (restore library other (write library saved.processor))
      saved.bus).steps second = .ok (saved.trace second, saved.after second) := by
    rw [restore_write documented]
    exact saved.steps_eq second
  have whole : machine.steps (first + second) =
      .ok (machine.trace first ++ saved.trace second, saved.after second) := by
    rw [machine.steps_eq, machine.trace_add, machine.after_add]
  exact ⟨machine.trace first, saved, _, _, machine.steps_eq first, resumed, whole⟩

end

def wornProcessor : Processor where
  a := 0xFF
  x := 0
  y := 0x80
  pc := 0xFFFF
  sp := 0xFD
  flags := .ofByte 0xB1
  total := 0xFFFFFFFFFFFFFFFF

/-- A program that goes round the end of memory, run by a processor whose counter is full. -/
def wornMachine : Machine View where
  processor := wornProcessor
  bus := Bus.writeAll (fun _ => 0xEA) (Image.writes ⟨0xFFFF, [0xE8, 0x08, 0x4C, 0xFF, 0xFF]⟩)

theorem restores_everything_wornMachine :
    read? .plain (write .plain wornProcessor) = some wornProcessor ∧
    ∃ history saved more last,
      wornMachine.steps 2 = .ok (history, saved) ∧
      (Machine.mk (restore .plain (.startingAt 0) (write .plain saved.processor)) saved.bus).steps
        3 = .ok (more, last) ∧
      wornMachine.steps 5 = .ok (history ++ more, last) := by
  obtain ⟨readBack, _, resumes⟩ := restores_everything isDocumented_plain
  exact ⟨readBack wornProcessor, resumes View wornMachine 2 3 (.startingAt 0)⟩

end Snapshot

end Nmos6502
