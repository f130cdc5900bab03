import Nmos6502.Proofs.Effect

/-!
The instruction set fits the actions: no byte decodes to an operation that its family refuses, or to
a mode that its action cannot use. Main statement: every decoded instruction that is supported is
carried out to its end (`perform_decode`).
-/

namespace Nmos6502

/-- What holds of every documented form, and of the meaning that all other bytes share, holds of
every decoded instruction. -/
theorem forall_decode (property : Instruction → Bool)
    (documented : ∀ operation : Operation, (operation.encodings.all fun encoding =>
      property ⟨operation, encoding.mode, encoding.cycles⟩) = true)
    (unassigned : property .unassigned = true) (opcode : Byte) :
    property (decode opcode) = true := by
  rw [decode_eq_search, Instruction.search]
  cases found : Operation.all.findSome? fun operation =>
      (operation.encodings.find? (·.opcode == opcode)).map fun encoding =>
        (⟨operation, encoding.mode, encoding.cycles⟩ : Instruction) with
  | none => exact unassigned
  | some instruction =>
      obtain ⟨operation, _, encoded⟩ := List.exists_of_findSome?_eq_some found
      obtain ⟨encoding, encodes, rfl⟩ := Option.map_eq_some_iff.mp encoded
      exact List.all_eq_true.mp (documented operation) encoding
        (List.mem_of_find?_eq_some encodes)

theorem exists_action {operation : Operation} (supported : operation.isSupported = true) :
    ∃ action, operation.action = .ok action := by
  rw [← Operation.isOk_action] at supported
  cases sorted : operation.action with
  | ok action => exact ⟨action, rfl⟩
  | error fault =>
      rw [sorted] at supported
      contradiction

namespace Instruction

def isSound (instruction : Instruction) : Bool :=
  match instruction.operation.action with
  | .ok action => action.admits instruction.mode
  | .error _ => true

theorem isSound_decode (opcode : Byte) : (decode opcode).isSound = true :=
  forall_decode isSound (fun operation => by cases operation <;> rfl) rfl opcode

theorem admits_decode {opcode : Byte} {action : Action}
    (sorted : (decode opcode).operation.action = .ok action) :
    action.admits (decode opcode).mode = true := by
  have sound := isSound_decode opcode
  rwa [isSound, sorted] at sound

theorem perform_decode {σ : Type} [Bus σ] (progress : Progress σ) {opcode : Byte}
    {action : Action} (sorted : (decode opcode).operation.action = .ok action) :
    (decode opcode).perform progress =
      .ok () (progress.commit
        (action.effect (decode opcode).mode (decode opcode).operation.indexCharge
          (Bus.read progress.bus) progress.processor)) := by
  rw [perform, sorted]
  exact Action.perform_of_admits progress _ (admits_decode sorted)

end Instruction

end Nmos6502
