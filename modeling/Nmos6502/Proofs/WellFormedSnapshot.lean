import Nmos6502.Proofs.SavedProcessor

/-!
Which objects are snapshots. Every field must be there with a value of its own kind and range; the
order of the members does not matter, nor does what else an object holds. Main statement: an object
is decoded exactly when it is well-formed, to the processor that it tells of
(`accepts_exactly_wellFormed`).
-/

namespace Nmos6502

def Flag.member : Flag → String
  | carry => "carry"
  | zero => "zero"
  | interruptDisable => "interrupt_disable"
  | decimal => "decimal"
  | breakCommand => "break_command"
  | unused => "unused"
  | overflow => "overflow"
  | negative => "negative"

namespace Snapshot

/-- The keys are distinct, also those of the flags, and the flags are not an array. -/
structure IsParsed (members : List (Json.Text × Json)) : Prop where
  keyed : Json.Keyed members
  flagsKeyed : ∀ inner, Holds members "flags" (.object inner) → Json.Keyed inner
  unlisted : ∀ items, ¬Holds members "flags" (.array items)

structure IsWellFormed (members : List (Json.Text × Json)) : Prop where
  bytes : ∀ name ∈ ["a", "x", "y", "sp"], ∃ value < UInt8.size, Holds members name (.natural value)
  counter : ∃ value < UInt16.size, Holds members "pc" (.natural value)
  flags : ∃ inner, Holds members "flags" (.object inner) ∧
    ∀ flag : Flag, ∃ value, Holds inner flag.member (.bool value)
  total : ∃ value < UInt64.size, Holds members "total_cycles" (.natural value)

def TellsFlags (members : List (Json.Text × Json)) (flags : Flags) : Prop :=
  ∀ flag : Flag, Holds members flag.member (.bool (flags.get flag))

structure Tells (members : List (Json.Text × Json)) (processor : Processor) : Prop where
  a : Holds members "a" (.natural processor.a.toNat)
  x : Holds members "x" (.natural processor.x.toNat)
  y : Holds members "y" (.natural processor.y.toNat)
  pc : Holds members "pc" (.natural processor.pc.toNat)
  sp : Holds members "sp" (.natural processor.sp.toNat)
  flags : ∃ inner, Holds members "flags" (.object inner) ∧ TellsFlags inner processor.flags
  total : Holds members "total_cycles" (.natural processor.total.toNat)

/-- Another object holds the same under the names of a snapshot, in whatever order and among
whatever other members. -/
structure Includes (others members : List (Json.Text × Json)) : Prop where
  numbers : ∀ name ∈ ["a", "x", "y", "pc", "sp", "total_cycles"], ∀ value,
    Holds members name value → Holds others name value
  flags : ∀ inner, Holds members "flags" (.object inner) →
    ∃ other, Holds others "flags" (.object other) ∧
      ∀ (flag : Flag) (value : Json), Holds inner flag.member value → Holds other flag.member value

section

variable {library : Library} (documented : library.IsDocumented)

include documented

section

variable {members : List (Json.Text × Json)} {name : String}

theorem shows_bool_iff {flag : Bool} :
    library.bool.Shows members name flag ↔ Holds members name (.bool flag) :=
  Codec.shows_iff fun _ => documented.bool.decode?_eq_some_iff

theorem shows_byte_iff {byte : Byte} :
    library.byte.Shows members name byte ↔ Holds members name (.natural byte.toNat) :=
  Codec.shows_iff fun _ => documented.byte.decode?_eq_some_iff UInt8.toNat_lt
    (fun _ => UInt8.ofNat_toNat) fun _ => UInt8.toNat_ofNat_of_lt'

theorem shows_address_iff {address : Address} :
    library.address.Shows members name address ↔ Holds members name (.natural address.toNat) :=
  Codec.shows_iff fun _ => documented.address.decode?_eq_some_iff UInt16.toNat_lt
    (fun _ => UInt16.ofNat_toNat) fun _ => UInt16.toNat_ofNat_of_lt'

theorem shows_total_iff {total : UInt64} :
    library.total.Shows members name total ↔ Holds members name (.natural total.toNat) :=
  Codec.shows_iff fun _ => documented.total.decode?_eq_some_iff UInt64.toNat_lt
    (fun _ => UInt64.ofNat_toNat) fun _ => UInt64.toNat_ofNat_of_lt'

end

theorem allRequired_flagFields : (flagFields library).AllRequired := by
  have bool := documented.bool.refusesOthers .null nofun
  exact ⟨bool, bool, bool, bool, bool, bool, bool, bool, trivial⟩

theorem allRequired_processorFields : (processorFields library).AllRequired := by
  have byte := documented.byte.refusesOthers .null nofun
  have address := documented.address.refusesOthers .null nofun
  have flags := (isRecord_flags documented).refusesOthers .null nofun nofun
  have total := documented.total.refusesOthers .null nofun
  exact ⟨byte, byte, byte, address, byte, flags, total, trivial⟩

theorem flags?_object_eq_some_iff {inner : List (Json.Text × Json)} (keyed : Json.Keyed inner)
    {told : Flags} :
    (flags library).decode? (.object inner) = some told ↔ TellsFlags inner told := by
  rw [(isRecord_flags documented).decode?_object_eq_some_iff (allRequired_flagFields documented)
    nodup_flagKeys keyed]
  simp only [flagFields, Fields.Tells, shows_bool_iff documented]
  constructor
  · rintro ⟨_, carry, _, zero, _, interruptDisable, _, decimal, _, breakCommand, _, unused,
      _, overflow, _, negative, rfl⟩ flag
    cases flag with
    | carry => exact carry
    | zero => exact zero
    | interruptDisable => exact interruptDisable
    | decimal => exact decimal
    | breakCommand => exact breakCommand
    | unused => exact unused
    | overflow => exact overflow
    | negative => exact negative
  · intro held
    exact ⟨_, held .carry, _, held .zero, _, held .interruptDisable, _, held .decimal,
      _, held .breakCommand, _, held .unused, _, held .overflow, _, held .negative, rfl⟩

variable {members : List (Json.Text × Json)} (parsed : IsParsed members)

include parsed

/-- Only an object is read as flags, since the flags are not an array. -/
theorem shows_flags_iff {told : Flags} :
    (flags library).Shows members "flags" told ↔
      ∃ inner, Holds members "flags" (.object inner) ∧ TellsFlags inner told := by
  constructor
  · rintro ⟨value, held, read⟩
    by_cases written : ∃ inner, value = .object inner
    · obtain ⟨inner, rfl⟩ := written
      have keyed := parsed.flagsKeyed inner held
      exact ⟨inner, held, (flags?_object_eq_some_iff documented keyed).mp read⟩
    · have unlisted : ∀ items, value ≠ .array items := by
        rintro items rfl
        exact parsed.unlisted items held
      rw [(isRecord_flags documented).refusesOthers value (not_exists.mp written) unlisted] at read
      contradiction
  · rintro ⟨inner, held, toldFlags⟩
    have keyed := parsed.flagsKeyed inner held
    exact ⟨.object inner, held, (flags?_object_eq_some_iff documented keyed).mpr toldFlags⟩

theorem decode?_object_eq_some_iff {told : Processor} :
    (processor library).decode? (.object members) = some told ↔ Tells members told := by
  rw [(isRecord_processor documented).decode?_object_eq_some_iff
    (allRequired_processorFields documented) nodup_processorKeys parsed.keyed]
  simp only [processorFields, Fields.Tells, shows_byte_iff documented,
    shows_address_iff documented, shows_total_iff documented, shows_flags_iff documented parsed]
  constructor
  · rintro ⟨_, a, _, x, _, y, _, pc, _, sp, _, flags, _, total, rfl⟩
    exact ⟨a, x, y, pc, sp, flags, total⟩
  · rintro ⟨a, x, y, pc, sp, flags, total⟩
    exact ⟨_, a, _, x, _, y, _, pc, _, sp, _, flags, _, total, rfl⟩

end

theorem exists_tellsFlags {inner : List (Json.Text × Json)}
    (named : ∀ flag : Flag, ∃ value, Holds inner flag.member (.bool value)) :
    ∃ flags, TellsFlags inner flags := by
  choose value held using named
  refine ⟨⟨value .carry, value .zero, value .interruptDisable, value .decimal,
    value .breakCommand, value .unused, value .overflow, value .negative⟩, ?_⟩
  intro flag
  cases flag <;> exact held _

theorem isWellFormed_iff {members : List (Json.Text × Json)} :
    IsWellFormed members ↔ ∃ processor, Tells members processor := by
  constructor
  · rintro ⟨bytes, ⟨pc, pcBound, pcHeld⟩, ⟨inner, flagsHeld, named⟩, ⟨total, totalBound, totalHeld⟩⟩
    simp only [List.forall_mem_cons] at bytes
    obtain ⟨⟨a, aBound, aHeld⟩, ⟨x, xBound, xHeld⟩, ⟨y, yBound, yHeld⟩, ⟨sp, spBound, spHeld⟩, _⟩ :=
      bytes
    obtain ⟨flags, told⟩ := exists_tellsFlags named
    refine ⟨⟨.ofNat a, .ofNat x, .ofNat y, .ofNat pc, .ofNat sp, flags, .ofNat total⟩, ?_⟩
    constructor
    · rwa [UInt8.toNat_ofNat_of_lt' aBound]
    · rwa [UInt8.toNat_ofNat_of_lt' xBound]
    · rwa [UInt8.toNat_ofNat_of_lt' yBound]
    · rwa [UInt16.toNat_ofNat_of_lt' pcBound]
    · rwa [UInt8.toNat_ofNat_of_lt' spBound]
    · exact ⟨inner, flagsHeld, told⟩
    · rwa [UInt64.toNat_ofNat_of_lt' totalBound]
  · rintro ⟨processor, a, x, y, pc, sp, ⟨inner, held, told⟩, total⟩
    constructor
    · simp only [List.forall_mem_cons]
      exact ⟨⟨_, processor.a.toNat_lt, a⟩, ⟨_, processor.x.toNat_lt, x⟩,
        ⟨_, processor.y.toNat_lt, y⟩, ⟨_, processor.sp.toNat_lt, sp⟩, List.forall_mem_nil _⟩
    · exact ⟨_, processor.pc.toNat_lt, pc⟩
    · exact ⟨inner, held, fun flag => ⟨_, told flag⟩⟩
    · exact ⟨_, processor.total.toNat_lt, total⟩

theorem IsParsed.of_perm {members others : List (Json.Text × Json)} (parsed : IsParsed members)
    (perm : others.Perm members) : IsParsed others where
  keyed := parsed.keyed.of_perm perm
  flagsKeyed := fun inner held => parsed.flagsKeyed inner (perm.mem_iff.mp held)
  unlisted := fun items held => parsed.unlisted items (perm.mem_iff.mp held)

theorem Includes.of_subset {members others : List (Json.Text × Json)} (subset : members ⊆ others) :
    Includes others members where
  numbers := fun _ _ _ held => subset held
  flags := fun inner held => ⟨inner, subset held, fun _ _ among => among⟩

theorem Tells.mono {members others : List (Json.Text × Json)} {processor : Processor}
    (told : Tells members processor) (includes : Includes others members) :
    Tells others processor := by
  have numbers := includes.numbers
  simp only [List.forall_mem_cons] at numbers
  obtain ⟨a, x, y, pc, sp, total, _⟩ := numbers
  obtain ⟨inner, held, toldFlags⟩ := told.flags
  obtain ⟨other, heldOther, among⟩ := includes.flags inner held
  constructor
  · exact a _ told.a
  · exact x _ told.x
  · exact y _ told.y
  · exact pc _ told.pc
  · exact sp _ told.sp
  · exact ⟨other, heldOther, fun flag => among flag _ (toldFlags flag)⟩
  · exact total _ told.total

/-- An object is decoded to the processor whose values it holds, and to none if a value is missing,
of another kind or out of its range. Objects that hold the same values under the names of a
snapshot are decoded alike. -/
theorem accepts_exactly_wellFormed {library : Library} (documented : library.IsDocumented)
    {members : List (Json.Text × Json)} (parsed : IsParsed members) :
    (∀ told, (processor library).decode? (.object members) = some told ↔ Tells members told) ∧
    (((processor library).decode? (.object members)).isSome = true ↔ IsWellFormed members) ∧
    ∀ others, IsParsed others → Includes others members → Includes members others →
      (processor library).decode? (.object others) =
        (processor library).decode? (.object members) := by
  refine ⟨fun told => decode?_object_eq_some_iff documented parsed, ?_, ?_⟩
  · rw [Option.isSome_iff_exists, isWellFormed_iff]
    exact exists_congr fun told => decode?_object_eq_some_iff documented parsed
  · intro others parsedOthers forth back
    apply Option.ext
    intro told
    rw [decode?_object_eq_some_iff documented parsedOthers,
      decode?_object_eq_some_iff documented parsed]
    exact ⟨fun among => among.mono back, fun among => among.mono forth⟩

/-- The flags from the last to the first, behind a member without a meaning. -/
def wornFlags : List (Json.Text × Json) :=
  (Json.Text.ofString "note", .null) :: Flag.all.reverse.map fun flag =>
    (Json.Text.ofString flag.member, .bool (wornProcessor.flags.get flag))

def wornMembers : List (Json.Text × Json) :=
  [("total_cycles", .natural 0xFFFFFFFFFFFFFFFF), ("title", .string []), ("x", .natural 0),
    ("flags", .object wornFlags), ("pc", .natural 0xFFFF), ("a", .natural 0xFF),
    ("b", .natural 256), ("sp", .natural 0xFD), ("y", .natural 0x80)].map fun member =>
      (Json.Text.ofString member.1, member.2)

theorem tells_wornMembers : Tells wornMembers wornProcessor where
  a := List.mem_of_getElem? (i := 5) rfl
  x := List.mem_of_getElem? (i := 2) rfl
  y := List.mem_of_getElem? (i := 8) rfl
  pc := List.mem_of_getElem? (i := 4) rfl
  sp := List.mem_of_getElem? (i := 7) rfl
  flags := by
    refine ⟨wornFlags, List.mem_of_getElem? (i := 3) rfl, fun flag => ?_⟩
    apply List.mem_cons_of_mem
    exact List.mem_map_of_mem (List.mem_reverse.mpr flag.mem_all)
  total := List.mem_of_getElem? (i := 0) rfl

theorem isParsed_wornMembers : IsParsed wornMembers := by
  have keyed : Json.Keyed wornMembers := ⟨by decide +kernel, by decide +kernel⟩
  have held : Holds wornMembers "flags" (.object wornFlags) := List.mem_of_getElem? (i := 3) rfl
  refine ⟨keyed, fun inner found => ?_, fun items found => ?_⟩
  · cases eq_of_holds keyed held found
    exact ⟨by decide +kernel, by decide +kernel⟩
  · cases eq_of_holds keyed held found

/-- Every value is the largest of its kind or near to it, and members without a meaning stand in
between. -/
theorem accepts_exactly_wellFormed_wornMembers :
    (processor .plain).decode? (.object wornMembers) = some wornProcessor ∧
    (processor .plain).decode? (.object wornMembers.reverse) = some wornProcessor := by
  obtain ⟨exact, _, alike⟩ := accepts_exactly_wellFormed isDocumented_plain isParsed_wornMembers
  have decoded := (exact wornProcessor).mpr tells_wornMembers
  have reversed := alike wornMembers.reverse
    (isParsed_wornMembers.of_perm wornMembers.reverse_perm)
    (.of_subset fun _ => List.mem_reverse.mpr) (.of_subset fun _ => List.mem_reverse.mp)
  exact ⟨decoded, reversed.trans decoded⟩

end Snapshot

end Nmos6502
