import Minimk.Socket.Handle.Theorems

namespace Minimk.Socket

-- The parts of a handle; one with a generation that `makeHandle` refuses cannot be built.
@[ext] structure HandleFields where
  type : UInt8
  generation : UInt64
  index : UInt8
  valid : handleGenerationValid generation

theorem handleGenerationValid_handleGeneration (handle : UInt64) :
    handleGenerationValid (handleGeneration handle) := by
  rw [handleGenerationValid_iff, toNat_handleGeneration]
  exact Nat.mod_lt _ (by decide)

-- `handleIndex` returns a word, but the word is a byte.
theorem toNat_handleIndex_toUInt8 (handle : UInt64) :
    (handleIndex handle).toUInt8.toNat = handle.toNat % 256 := by
  rw [UInt64.toNat_toUInt8, toNat_handleIndex]
  omega

def fieldsOf (handle : UInt64) : HandleFields where
  type := handleType handle
  generation := handleGeneration handle
  index := (handleIndex handle).toUInt8
  valid := handleGenerationValid_handleGeneration handle

theorem makeHandle_fieldsOf (handle : UInt64) :
    makeHandle (handleType handle) (handleGeneration handle) (handleIndex handle).toUInt8 =
      .ok handle := by
  have hvalid := (handleGenerationValid_iff _).mp (handleGenerationValid_handleGeneration handle)
  obtain ⟨made, hmade, hnat⟩ :=
    @makeHandle_eq_ok (handleType handle) (handleGeneration handle)
      (handleIndex handle).toUInt8 hvalid
  have hlt := handle.toNat_lt
  have he : made = handle := by
    apply UInt64.toNat_inj.mp
    rw [hnat, toNat_handleType, toNat_handleGeneration, toNat_handleIndex_toUInt8]
    omega
  rw [hmade, he]

theorem makeHandle_of_valid (type : UInt8) {generation : UInt64} (index : UInt8)
    (hvalid : handleGenerationValid generation) :
    ∃ handle, makeHandle type generation index = .ok handle ∧ handleType handle = type ∧
      handleGeneration handle = generation ∧ handleIndex handle = index.toUInt64 := by
  obtain ⟨handle, hmade, -⟩ :=
    @makeHandle_eq_ok type generation index ((handleGenerationValid_iff generation).mp hvalid)
  obtain ⟨htype, hgeneration, hindex⟩ := makeHandle_fields hmade
  refine ⟨handle, hmade, htype, hgeneration, ?_⟩
  apply UInt64.toNat_inj.mp
  rw [hindex, UInt8.toNat_toUInt64]

theorem fieldsOf_bijective : Function.Bijective fieldsOf := by
  refine ⟨?_, ?_⟩
  · intro left right h
    have hleft := makeHandle_fieldsOf left
    have hright := makeHandle_fieldsOf right
    simp only [fieldsOf, HandleFields.mk.injEq] at h
    rw [h.1, h.2.1, h.2.2, hright, Except.ok.injEq] at hleft
    exact hleft.symm
  · intro fields
    obtain ⟨handle, -, htype, hgeneration, hindex⟩ :=
      makeHandle_of_valid fields.type fields.index fields.valid
    refine ⟨handle, ?_⟩
    apply HandleFields.ext
    · exact htype
    · exact hgeneration
    · show (handleIndex handle).toUInt8 = fields.index
      rw [hindex, UInt8.toUInt8_toUInt64]

theorem handle_codec :
    (∀ type generation index, handleGenerationValid generation →
      ∃ handle, makeHandle type generation index = .ok handle ∧ handleType handle = type ∧
        handleGeneration handle = generation ∧ handleIndex handle = index.toUInt64) ∧
    (∀ handle, handleGenerationValid (handleGeneration handle) ∧
      (handleIndex handle).toUInt8.toUInt64 = handleIndex handle ∧
      makeHandle (handleType handle) (handleGeneration handle) (handleIndex handle).toUInt8 =
        .ok handle) ∧
    ∀ left right, left = right ↔ handleType left = handleType right ∧
      handleGeneration left = handleGeneration right ∧ handleIndex left = handleIndex right := by
  refine ⟨fun type generation index => makeHandle_of_valid type index, ?_, ?_⟩
  · intro handle
    refine ⟨handleGenerationValid_handleGeneration handle, ?_, makeHandle_fieldsOf handle⟩
    apply UInt64.toNat_inj.mp
    rw [UInt8.toNat_toUInt64, toNat_handleIndex_toUInt8, toNat_handleIndex]
  · intro left right
    constructor
    · rintro rfl
      exact ⟨rfl, rfl, rfl⟩
    · rintro ⟨htype, hgeneration, hindex⟩
      apply fieldsOf_bijective.1
      apply HandleFields.ext
      · exact htype
      · exact hgeneration
      · exact congrArg UInt64.toUInt8 hindex

end Minimk.Socket
