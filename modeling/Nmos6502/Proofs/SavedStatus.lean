import Nmos6502.Proofs.StackDiscipline

/-!
The status on the stack. It is pushed with break and unused set, and pulled as it lies there. Main
statement: the pull that finds a pushed status on top brings its flags back, alone or together with
an address below it (`status_comes_back`).
-/

namespace Nmos6502

theorem Flags.ofByte_toByte_or (flags : Flags) :
    ofByte (flags.toByte ||| 0x30) = { flags with breakCommand := true, unused := true } := by
  rw [← toStackByte_eq, ofByte_toStackByte]

namespace Machine

section

variable {σ : Type} [Bus σ] {machine : Machine σ} {count : Nat} {saved : Pushed}
  {rest : List Pushed}

theorem pushes_of_php (php : machine.operation = .php) :
    machine.pushes = [machine.processor.status ||| 0x30] := by
  rw [pushes, php]
  rfl

/-- Under the single byte of a push lies what was outstanding before it. -/
theorem eq_outstanding_of_single {value : Byte}
    (below : saved :: rest <:+ machine.outstanding count)
    (single : (machine.after saved.origin).pushes = [value]) :
    saved.value = value ∧ rest = machine.outstanding saved.origin := by
  have atOrigin := (suffix_at_origin below).2
  have pushing : (machine.after saved.origin).pushes ≠ [] := by simp [single]
  rw [outstanding, pulls_eq_zero pushing, single, List.drop_zero] at atOrigin
  rcases List.suffix_cons_iff.mp atOrigin with same | older
  · obtain ⟨same, under⟩ := List.cons.inj same
    exact ⟨congrArg Pushed.value same, under⟩
  · exact absurd (suffix_at_origin older).1 (Nat.lt_irrefl _)

end

variable {machine : Machine Memory} {count : Nat} {saved : Pushed} {rest : List Pushed}

/-- The pull that finds a saved status on top of the stack restores its flags: by itself it leaves
the stack pointer as it was before the push, and over the two bytes of an address it resumes there.
-/
theorem status_comes_back (disciplined : machine.Disciplined count)
    (onTop : machine.outstanding count = saved :: rest)
    (saving : (machine.after saved.origin).operation = .php) :
    saved.origin < count ∧
    machine.steps (count + 1) = .ok (machine.trace (count + 1), machine.after (count + 1)) ∧
    (machine.after (saved.origin + 1)).processor.flags =
      (machine.after saved.origin).processor.flags ∧
    ((machine.after count).operation = .plp →
      (machine.after (count + 1)).processor.flags =
        { (machine.after saved.origin).processor.flags with
          breakCommand := true, unused := true } ∧
      (machine.after (count + 1)).processor.sp = (machine.after saved.origin).processor.sp) ∧
    ∀ (address : Address) low high below,
      rest = low :: high :: below →
      low.value = lowByte address →
      high.value = highByte address →
      (machine.after count).operation = .rti →
        (machine.after (count + 1)).processor.pc = address ∧
        (machine.after (count + 1)).processor.flags =
          { (machine.after saved.origin).processor.flags with
            breakCommand := true, unused := true } ∧
        (machine.after (count + 1)).processor.sp = (machine.after count).processor.sp + 3 := by
  have below : saved :: rest <:+ machine.outstanding count := onTop ▸ List.suffix_refl _
  have earlier := (suffix_at_origin below).1
  obtain ⟨pushed, under⟩ := eq_outstanding_of_single below (pushes_of_php saving)
  have flags : Flags.ofByte saved.value =
      { (machine.after saved.origin).processor.flags with
        breakCommand := true, unused := true } := by
    rw [pushed]
    exact Flags.ofByte_toByte_or _
  refine ⟨earlier, machine.steps_eq (count + 1), ?_, ?_, ?_⟩
  · rw [after_succ]
    exact flags_next_of_php _ saving
  · intro plp
    have deeper : machine.depth count = machine.depth saved.origin + 1 := by
      rw [depth, onTop, under, List.length_cons, depth]
    have pointer : (machine.after (count + 1)).processor.sp =
        (machine.after count).processor.sp + 1 := by
      rw [after_succ, sp_next, plp]
      rfl
    refine ⟨(disciplined.flags_after_plp plp onTop).trans flags, ?_⟩
    rw [pointer, sp_after disciplined, sp_after (disciplined.of_le (Nat.le_of_lt earlier)), deeper,
      UInt8.ofNat_add]
    grind
  · intro address low high deeper three lowSame highSame rti
    rw [three] at onTop
    rw [disciplined.after_rti rti onTop, lowSame, highSame, word_lowByte_highByte]
    exact ⟨rfl, flags, rfl⟩

theorem saved_nestedFrames :
    nestedFrames.Disciplined 7 ∧
    nestedFrames.outstanding 4 =
      [⟨3, 0x71⟩, ⟨2, 0x07⟩, ⟨2, 0xEA⟩, ⟨1, 0x03⟩, ⟨1, 0xEA⟩, ⟨0, 0x71⟩] ∧
    nestedFrames.outstanding 7 = [⟨0, 0x71⟩] ∧
    nestedFrames.operation = .php ∧
    (nestedFrames.after 3).operation = .php ∧
    (nestedFrames.after 4).operation = .rti ∧
    (nestedFrames.after 7).operation = .plp ∧
    (nestedFrames.after 3).processor.flags = .ofByte 0x41 := by
  decide +kernel

theorem status_comes_back_nestedFrames :
    nestedFrames.inMemory.Disciplined 7 ∧
    (nestedFrames.inMemory.after 5).processor.pc = 0xEA07 ∧
    (nestedFrames.inMemory.after 5).processor.flags = .ofByte 0x71 ∧
    (nestedFrames.inMemory.after 8).processor.flags = .ofByte 0x71 ∧
    (nestedFrames.inMemory.after 8).processor.sp = 1 := by
  obtain ⟨disciplined, above, alone, first, inner, leaving, last, flags⟩ := saved_nestedFrames
  rw [← operation_inMemory] at first
  rw [← operation_inMemory, ← after_inMemory] at inner leaving last
  rw [← outstanding_inMemory] at above alone
  have flags : (nestedFrames.inMemory.after 3).processor.flags = .ofByte 0x41 := by
    rw [after_inMemory]
    exact flags
  have disciplined := disciplined.inMemory
  obtain ⟨_, _, _, _, resumed⟩ :=
    status_comes_back (disciplined.of_le (by decide : 4 ≤ 7)) above inner
  obtain ⟨address, restored, _⟩ := resumed 0xEA07 _ _ _ rfl rfl rfl leaving
  obtain ⟨_, _, _, pulled, _⟩ := status_comes_back disciplined alone first
  obtain ⟨outer, pointer⟩ := pulled last
  rw [flags] at restored
  exact ⟨disciplined, address, restored, outer, pointer⟩

end Machine

end Nmos6502
