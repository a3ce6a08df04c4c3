import Borked3DS.Interface.CommandLists

/-!
# Which command lists stay in bounds

Every table but those of the lighting is indexed by a field that is checked, reduced or too short to
leave it, and a queue of uniform words never holds four. So a register may be written whenever the
lighting table is one of the 24 and the queue of the default attributes is not full; and a list that
makes no jump ends, as every round takes words from it.
-/

set_option autoImplicit false

namespace Borked3DS.Analysis

open Borked3DS.Library Borked3DS.Model Borked3DS.Interface

/-! ## Registers -/

section Registers

variable {s : PicaCore} {id id' value : ℕ}

theorem reg_setReg_ne (h : id' ≠ id) : (s.setReg id value).reg id' = s.reg id' := by
  unfold PicaCore.reg PicaCore.setReg Table.read
  by_cases hid : id' < NUM_REGS
  · rw [dif_pos hid, dif_pos hid]
    exact if_neg h
  · rw [dif_neg hid, dif_neg hid]

/-- The index register of the default attributes has a case of its own. -/
theorem ne_defaultAttributeIndex (h : registerCase id ≠ .defaultAttributeIndex) :
    PicaReg.defaultAttributeIndex ≠ id := by
  rintro rfl
  exact h rfl

theorem ne_lutConfig (h : registerCase id = .lutData) : PicaReg.lutConfig ≠ id := by
  rintro rfl
  cases h

end Registers

/-! ## The invariant -/

/-- The queues, and the attribute that is next, leave room for what comes. -/
structure InBounds (s : PicaCore) : Prop where
  vsQueue : s.vsSetup.uniformQueue.index ≤ 3
  gsQueue : s.gsSetup.uniformQueue.index ≤ 3
  currentAttribute : s.immediate.currentAttribute ≤ 15
  queue : s.immediate.queue.index ≤ 4
  packed : s.reg PicaReg.defaultAttributeIndex ≤ 0xF → s.immediate.queue.index ≤ 2

/-- A queue with room takes a word. -/
theorem exists_push {q : PackedAttribute} (h : q.index < 4) (word : ℕ) (isFloat32 : Bool) :
    ∃ buffer, q.push word isFloat32 =
      .ok ((decide (4 ≤ q.index + 1) && isFloat32) || (decide (3 ≤ q.index + 1) && !isFloat32),
        ⟨buffer, q.index + 1⟩) := by
  obtain ⟨buffer, hbuffer⟩ := Table.exists_write Fault.undefined q.buffer word h
  refine ⟨buffer, ?_⟩
  unfold PackedAttribute.push
  rw [hbuffer, ok_bind, u32_of_lt (by omega)]
  rfl

/-- A full one does not. -/
theorem push_of_le {q : PackedAttribute} {word : ℕ} {isFloat32 : Bool} (h : 4 ≤ q.index) :
    q.push word isFloat32 = .error .undefined := by
  unfold PackedAttribute.push
  rw [Table.write_of_le h, error_bind]

/-! ## Shader setups -/

section Setups

variable (setup : ShaderSetup)

theorem exists_writeUniform {index : ℕ} (h : index < 96) (value : Vec4 F24) :
    ∃ setup', setup.writeUniform index value = .ok setup' ∧
      setup'.uniformQueue = setup.uniformQueue := by
  obtain ⟨f, hf⟩ := Table.exists_write Fault.undefined setup.uniforms.f value h
  refine ⟨{ setup with uniforms := { setup.uniforms with f := f } }, ?_, rfl⟩
  unfold ShaderSetup.writeUniform
  rw [hf, ok_bind]
  rfl

theorem exists_writeUniformIntReg {index : ℕ} (h : index < 4) (values : Vec4 ℕ) :
    ∃ setup', setup.writeUniformIntReg index values = .ok setup' ∧
      setup'.uniformQueue = setup.uniformQueue := by
  obtain ⟨i, hi⟩ := Table.exists_write Fault.undefined setup.uniforms.i values h
  have hassert : assert (index < 4) .intUniform = .ok () := assert_eq_ok.mpr h
  refine ⟨{ setup with uniforms := { setup.uniforms with i := i } }, ?_, rfl⟩
  unfold ShaderSetup.writeUniformIntReg
  rw [hassert, ok_bind, hi, ok_bind]
  rfl

theorem exists_writeProgram {offset : ℕ} (h : offset < 4096) (value : ℕ) :
    ∃ setup', setup.writeProgram offset value = .ok setup' ∧
      setup'.uniformQueue = setup.uniformQueue := by
  obtain ⟨programCode, hcode⟩ := Table.exists_write Fault.undefined setup.programCode value h
  refine ⟨{ setup with programCode := programCode }, ?_, rfl⟩
  unfold ShaderSetup.writeProgram
  rw [hcode, ok_bind]
  rfl

theorem exists_writeSwizzle {offset : ℕ} (h : offset < 4096) (value : ℕ) :
    ∃ setup', setup.writeSwizzle offset value = .ok setup' ∧
      setup'.uniformQueue = setup.uniformQueue := by
  obtain ⟨swizzleData, hdata⟩ := Table.exists_write Fault.undefined setup.swizzleData value h
  refine ⟨{ setup with swizzleData := swizzleData }, ?_, rfl⟩
  unfold ShaderSetup.writeSwizzle
  rw [hdata, ok_bind]
  rfl

/-- A queue of uniform words never holds four: the third or the fourth one empties it.
SOURCE: shader_setup.cpp:34-52 -/
theorem exists_writeUniformFloatReg (s : PicaCore) (unit value : ℕ)
    (hqueue : setup.uniformQueue.index ≤ 3) :
    ∃ index setup' s', s.writeUniformFloatReg setup unit value = .ok (index, setup', s') ∧
      setup'.uniformQueue.index ≤ 3 ∧ (∀ i, index = some i → i < 96) ∧
      (s' = s ∨ ∃ v, s' = s.setReg (unit + PicaReg.uniformIndex) v) := by
  obtain ⟨buffer, hpush⟩ := exists_push (q := setup.uniformQueue) (by omega) value
    (decide (bitField 31 1 (s.reg (unit + PicaReg.uniformIndex)) = 1))
  unfold PicaCore.writeUniformFloatReg
  dsimp only
  rw [hpush, ok_bind]
  generalize hisFloat : decide (bitField 31 1 (s.reg (unit + PicaReg.uniformIndex)) = 1) = isFloat32
  generalize hfull : ((decide (4 ≤ setup.uniformQueue.index + 1) && isFloat32) ||
    (decide (3 ≤ setup.uniformQueue.index + 1) && !isFloat32)) = full
  cases full with
  | true =>
    by_cases hindex : 96 ≤ bitField 0 7 (s.reg (unit + PicaReg.uniformIndex))
    · refine ⟨none, { setup with uniformQueue := ⟨buffer, 0⟩ }, s, ?_, Nat.zero_le _, ?_,
        Or.inl rfl⟩
      · dsimp only
        rw [if_pos rfl, if_pos hindex]
        rfl
      · intro i hi
        cases hi
    · obtain ⟨setup', hsetup', hkept⟩ := exists_writeUniform
        { setup with uniformQueue := ⟨buffer, 0⟩ } (Nat.lt_of_not_le hindex)
        (PackedAttribute.get ⟨buffer, setup.uniformQueue.index + 1⟩ isFloat32).1
      refine ⟨some (bitField 0 7 (s.reg (unit + PicaReg.uniformIndex))), setup',
        s.assignReg (unit + PicaReg.uniformIndex) 0 7
          (bitField 0 7 (s.reg (unit + PicaReg.uniformIndex)) + 1), ?_, ?_, ?_, Or.inr ⟨_, rfl⟩⟩
      · dsimp only
        rw [if_pos rfl, if_neg hindex]
        exact bind_eq_ok.mpr ⟨setup', hsetup', rfl⟩
      · rw [hkept]
        exact Nat.zero_le _
      · intro i hi
        cases hi
        omega
  | false =>
    refine ⟨none, { setup with uniformQueue := ⟨buffer, setup.uniformQueue.index + 1⟩ }, s, ?_,
      ?_, ?_, Or.inl rfl⟩
    · rw [if_neg Bool.false_ne_true]
      rfl
    · dsimp only
      cases isFloat32 with
      | true =>
        simp at hfull
        omega
      | false =>
        simp at hfull
        omega
    · intro i hi
      cases hi

end Setups

/-! ## What a register does -/

section Effects

variable {render : PicaEvent → PicaCore → Rendered} {s : PicaCore} {value : ℕ}

/-- The effect succeeds, within bounds, and the list stays the one it was. -/
def Succeeds (s : PicaCore) (r : Exec PicaCore) : Prop :=
  ∃ s', r = .ok s' ∧ InBounds s' ∧ s'.cmdList = s.cmdList

/-- What neither touches the immediate mode nor its index register, and leaves room in the two
queues, stays in bounds. -/
theorem inBounds_of_setups {s' : PicaCore} (h : InBounds s)
    (hvs : s'.vsSetup.uniformQueue.index ≤ 3) (hgs : s'.gsSetup.uniformQueue.index ≤ 3)
    (himmediate : s'.immediate = s.immediate)
    (hindex : s'.reg PicaReg.defaultAttributeIndex = s.reg PicaReg.defaultAttributeIndex) :
    InBounds s' := by
  refine ⟨hvs, hgs, ?_, ?_, ?_⟩
  · rw [himmediate]
    exact h.currentAttribute
  · rw [himmediate]
    exact h.queue
  · rw [himmediate, hindex]
    exact h.packed

theorem inBounds_setReg {id : ℕ} (h : InBounds s) (hid : PicaReg.defaultAttributeIndex ≠ id) :
    InBounds (s.setReg id value) :=
  inBounds_of_setups h h.vsQueue h.gsQueue rfl (reg_setReg_ne hid)

variable (render) in
theorem inBounds_draw (event : PicaEvent) (h : InBounds s) : InBounds (s.draw render event) :=
  inBounds_of_setups h h.vsQueue h.gsQueue rfl rfl

theorem inBounds_drawImmediate (h : InBounds s) : InBounds (s.drawImmediate render) := by
  have hdraw := inBounds_draw render .drawImmediate h
  exact ⟨hdraw.vsQueue, hdraw.gsQueue, Nat.zero_le _, hdraw.queue, hdraw.packed⟩

/-- A word of a default attribute or of a vertex.
SOURCE: pica_core.cpp:1946-1973 -/
theorem submitImmediate_succeeds (h : InBounds s)
    (hroom : s.reg PicaReg.defaultAttributeIndex ≤ 0xF ∨ s.immediate.queue.index < 4) :
    Succeeds s (s.submitImmediate render value) := by
  have hpacked := h.packed
  have hcurrent := h.currentAttribute
  have hlt : s.immediate.queue.index < 4 := by omega
  obtain ⟨buffer, hpush⟩ := exists_push hlt value false
  unfold PicaCore.submitImmediate
  rw [hpush, ok_bind]
  dsimp only
  by_cases hfull : 2 ≤ s.immediate.queue.index
  · have hfull' : ((decide (4 ≤ s.immediate.queue.index + 1) && false) ||
        (decide (3 ≤ s.immediate.queue.index + 1) && !false)) = true := by
      simp
      omega
    rw [if_pos hfull']
    by_cases hinvalid : 0xF < s.reg PicaReg.defaultAttributeIndex
    · rw [if_pos hinvalid]
      refine ⟨_, rfl, ⟨h.vsQueue, h.gsQueue, hcurrent, ?_, ?_⟩, rfl⟩
      · exact hlt
      · intro hle
        exact absurd hle (Nat.not_le.mpr hinvalid)
    · rw [if_neg hinvalid]
      by_cases hdefault : s.reg PicaReg.defaultAttributeIndex < 0xF
      · obtain ⟨attributes, hattributes⟩ := Table.exists_write Fault.undefined
          s.inputDefaultAttributes (PackedAttribute.get ⟨buffer, _⟩ false).1
          (Nat.lt_trans hdefault (by decide : 0xF < 16))
        rw [if_pos hdefault]
        refine ⟨_, bind_eq_ok.mpr ⟨attributes, hattributes, rfl⟩,
          ⟨h.vsQueue, h.gsQueue, hcurrent, ?_, ?_⟩, rfl⟩
        · exact Nat.zero_le _
        · exact fun _ => Nat.zero_le _
      · rw [if_neg hdefault]
        obtain ⟨vertex, hvertex⟩ := Table.exists_write Fault.undefined s.immediate.inputVertex
          (PackedAttribute.get ⟨buffer, _⟩ false).1 (Nat.lt_succ_of_le hcurrent)
        have hmax : bitField 0 4 (s.reg PicaReg.maxInputAttribIndex) < 16 := bitField_lt _ _ _
        let s' : PicaCore := { s with
          immediate := { s.immediate with inputVertex := vertex, queue := ⟨buffer, 0⟩ } }
        have hs' : InBounds s' :=
          ⟨h.vsQueue, h.gsQueue, hcurrent, Nat.zero_le _, fun _ => Nat.zero_le _⟩
        by_cases hmore : s.immediate.currentAttribute <
            bitField 0 4 (s.reg PicaReg.maxInputAttribIndex)
        · refine ⟨{ s' with immediate := { s'.immediate with
              currentAttribute := u32 (s.immediate.currentAttribute + 1) } },
            bind_eq_ok.mpr ⟨vertex, hvertex, if_pos hmore⟩,
            ⟨h.vsQueue, h.gsQueue, ?_, Nat.zero_le _, fun _ => Nat.zero_le _⟩, rfl⟩
          dsimp only
          rw [u32_of_lt (by omega)]
          omega
        · exact ⟨s'.drawImmediate render, bind_eq_ok.mpr ⟨vertex, hvertex, if_neg hmore⟩,
            inBounds_drawImmediate hs', rfl⟩
  · have hfull' : ((decide (4 ≤ s.immediate.queue.index + 1) && false) ||
        (decide (3 ≤ s.immediate.queue.index + 1) && !false)) = false := by
      simp
      omega
    rw [hfull', if_neg Bool.false_ne_true]
    refine ⟨_, rfl, ⟨h.vsQueue, h.gsQueue, hcurrent, ?_, ?_⟩, rfl⟩
    · exact hlt
    · intro _
      dsimp only
      omega

/-- A fifth word for an invalid default attribute is written behind the queue. -/
theorem submitImmediate_of_full (h : 4 ≤ s.immediate.queue.index) :
    s.submitImmediate render value = .error .undefined := by
  unfold PicaCore.submitImmediate
  rw [push_of_le h, error_bind]

/-- A word of a lighting table.
SOURCE: pica_core.cpp:1857-1894 -/
theorem writeLightingLut_succeeds (h : InBounds s)
    (htype : bitField 8 5 (s.reg PicaReg.lutConfig) < 24) :
    Succeeds s (s.writeLightingLut value) := by
  have hindex : bitField 0 8 (s.reg PicaReg.lutConfig) < 256 := bitField_lt _ _ _
  have hassert : assert (bitField 0 8 (s.reg PicaReg.lutConfig) < 256) .lutIndex = .ok () :=
    assert_eq_ok.mpr hindex
  obtain ⟨lut, hlut⟩ := Table.exists_write Fault.undefined
    (Table.read s.lightingLuts (bitField 8 5 (s.reg PicaReg.lutConfig))) value hindex
  obtain ⟨luts, hluts⟩ := Table.exists_write Fault.undefined s.lightingLuts lut htype
  unfold PicaCore.writeLightingLut
  dsimp only
  rw [hassert, ok_bind, hlut, ok_bind, hluts, ok_bind]
  exact ⟨_, rfl, inBounds_of_setups h h.vsQueue h.gsQueue rfl (reg_setReg_ne (by decide)), rfl⟩

/-- A table that there is not is written behind the last one. -/
theorem writeLightingLut_of_le (htype : 24 ≤ bitField 8 5 (s.reg PicaReg.lutConfig)) :
    s.writeLightingLut value = .error .undefined := by
  have hindex : bitField 0 8 (s.reg PicaReg.lutConfig) < 256 := bitField_lt _ _ _
  have hassert : assert (bitField 0 8 (s.reg PicaReg.lutConfig) < 256) .lutIndex = .ok () :=
    assert_eq_ok.mpr hindex
  obtain ⟨lut, hlut⟩ := Table.exists_write Fault.undefined
    (Table.read s.lightingLuts (bitField 8 5 (s.reg PicaReg.lutConfig))) value hindex
  unfold PicaCore.writeLightingLut
  dsimp only
  rw [hassert, ok_bind, hlut, ok_bind, Table.write_of_le htype, error_bind]

/-- A word of the fog table. Its place is reduced to the table. -/
theorem writeFogLut_succeeds (h : InBounds s) : Succeeds s (s.writeFogLut value) := by
  obtain ⟨lut, hlut⟩ := Table.exists_write Fault.undefined s.fogLut value
    (Nat.mod_lt (bitField 0 16 (s.reg PicaReg.fogLutOffset)) (by decide : 0 < 128))
  unfold PicaCore.writeFogLut
  dsimp only
  rw [hlut, ok_bind]
  exact ⟨_, rfl, inBounds_of_setups h h.vsQueue h.gsQueue rfl (reg_setReg_ne (by decide)), rfl⟩

/-- A word of a procedural texture's table. Its place is reduced to the table. -/
theorem writeProcTexLut_succeeds (h : InBounds s) : Succeeds s (s.writeProcTexLut value) := by
  have hsmall : ∀ t : Table 128 ℕ, ∃ t', Table.write Fault.undefined t
      (bitField 0 8 (s.reg PicaReg.proctexLutConfig) % 128) value = .ok t' := fun t =>
    Table.exists_write Fault.undefined t value (Nat.mod_lt _ (by decide))
  have hlarge : ∀ t : Table 256 ℕ, ∃ t', Table.write Fault.undefined t
      (bitField 0 8 (s.reg PicaReg.proctexLutConfig) % 256) value = .ok t' := fun t =>
    Table.exists_write Fault.undefined t value (Nat.mod_lt _ (by decide))
  have hdone : ∀ proctex : ProcTex, Succeeds s (.ok ({ s with proctex := proctex }.assignReg
      PicaReg.proctexLutConfig 0 8 (bitField 0 8 (s.reg PicaReg.proctexLutConfig) + 1))) :=
    fun proctex => ⟨_, rfl, inBounds_of_setups h h.vsQueue h.gsQueue rfl
      (reg_setReg_ne (by decide)), rfl⟩
  unfold PicaCore.writeProcTexLut
  dsimp only
  split
  · obtain ⟨t, ht⟩ := hsmall s.proctex.noiseTable
    rw [ht, ok_bind]
    exact hdone _
  · obtain ⟨t, ht⟩ := hsmall s.proctex.colorMapTable
    rw [ht, ok_bind]
    exact hdone _
  · obtain ⟨t, ht⟩ := hsmall s.proctex.alphaMapTable
    rw [ht, ok_bind]
    exact hdone _
  · obtain ⟨t, ht⟩ := hlarge s.proctex.colorTable
    rw [ht, ok_bind]
    exact hdone _
  · obtain ⟨t, ht⟩ := hlarge s.proctex.colorDiffTable
    rw [ht, ok_bind]
    exact hdone _
  · exact hdone _

/-- A word of the vertex shader's program. -/
theorem writeVsProgram_succeeds (h : InBounds s) : Succeeds s (s.writeVsProgram value) := by
  unfold PicaCore.writeVsProgram
  dsimp only
  by_cases hoffset : 512 ≤ s.reg (PicaReg.vs + PicaReg.programOffset)
  · rw [if_pos hoffset]
    exact ⟨s, rfl, h, rfl⟩
  · have hlt : s.reg (PicaReg.vs + PicaReg.programOffset) < 4096 := by omega
    obtain ⟨vsSetup, hvs, hvsQueue⟩ := exists_writeProgram s.vsSetup hlt value
    obtain ⟨gsSetup, hgs, hgsQueue⟩ := exists_writeProgram s.gsSetup hlt value
    rw [if_neg hoffset, hvs, ok_bind]
    by_cases hshares : s.sharesConfiguration = true
    · rw [if_pos hshares, hgs, ok_bind]
      refine ⟨_, rfl, inBounds_of_setups h ?_ ?_ rfl (reg_setReg_ne (by decide)), rfl⟩
      · exact hvsQueue ▸ h.vsQueue
      · exact hgsQueue ▸ h.gsQueue
    · rw [if_neg hshares, pure_eq_ok, ok_bind]
      refine ⟨_, rfl, inBounds_of_setups h ?_ h.gsQueue rfl (reg_setReg_ne (by decide)), rfl⟩
      exact hvsQueue ▸ h.vsQueue

/-- A swizzle pattern of the vertex shader. -/
theorem writeVsSwizzle_succeeds (h : InBounds s) : Succeeds s (s.writeVsSwizzle value) := by
  unfold PicaCore.writeVsSwizzle
  dsimp only
  by_cases hoffset : 4096 ≤ s.reg (PicaReg.vs + PicaReg.swizzleOffset)
  · rw [if_pos hoffset]
    exact ⟨s, rfl, h, rfl⟩
  · have hlt : s.reg (PicaReg.vs + PicaReg.swizzleOffset) < 4096 := Nat.lt_of_not_le hoffset
    obtain ⟨vsSetup, hvs, hvsQueue⟩ := exists_writeSwizzle s.vsSetup hlt value
    obtain ⟨gsSetup, hgs, hgsQueue⟩ := exists_writeSwizzle s.gsSetup hlt value
    rw [if_neg hoffset, hvs, ok_bind]
    by_cases hshares : s.sharesConfiguration = true
    · rw [if_pos hshares, hgs, ok_bind]
      refine ⟨_, rfl, inBounds_of_setups h ?_ ?_ rfl (reg_setReg_ne (by decide)), rfl⟩
      · exact hvsQueue ▸ h.vsQueue
      · exact hgsQueue ▸ h.gsQueue
    · rw [if_neg hshares, pure_eq_ok, ok_bind]
      refine ⟨_, rfl, inBounds_of_setups h ?_ h.gsQueue rfl (reg_setReg_ne (by decide)), rfl⟩
      exact hvsQueue ▸ h.vsQueue

variable (render value) in
/-- What a register does, when it is written where it may be. -/
theorem registerEffect_succeeds {id : ℕ} (hsetup : registerCase id ≠ .defaultAttributeIndex →
      InBounds s) (hvs : s.vsSetup.uniformQueue.index ≤ 3) (hgs : s.gsSetup.uniformQueue.index ≤ 3)
    (hfits : CaseFits s (registerCase id)) :
    ∃ s', s.registerEffect render value (registerCase id) = .ok s' ∧ InBounds s' ∧
      ((∀ index, registerCase id ≠ .commandBufferTrigger index) → s'.cmdList = s.cmdList) := by
  generalize registerCase id = c at *
  have hkept : Succeeds s (s.registerEffect render value c) →
      ∃ s', s.registerEffect render value c = .ok s' ∧ InBounds s' ∧
        ((∀ index, c ≠ .commandBufferTrigger index) → s'.cmdList = s.cmdList) := by
    rintro ⟨s', hs', hbounds, hlist⟩
    exact ⟨s', hs', hbounds, fun _ => hlist⟩
  cases c with
  | defaultAttributeIndex =>
    exact ⟨_, rfl, ⟨hvs, hgs, Nat.zero_le _, Nat.zero_le _, fun _ => Nat.zero_le _⟩, fun _ => rfl⟩
  | commandBufferTrigger index =>
    have h := hsetup (by simp)
    exact ⟨_, rfl, inBounds_of_setups h h.vsQueue h.gsQueue rfl rfl, fun hne => absurd rfl (hne index)⟩
  | triggerIrq | triangleTopology | restartPrimitive =>
    have h := hsetup (by simp)
    exact hkept ⟨_, rfl, inBounds_of_setups h h.vsQueue h.gsQueue rfl rfl, rfl⟩
  | defaultAttributeValue => exact hkept (submitImmediate_succeeds (hsetup (by simp)) hfits)
  | triggerDraw isIndexed => exact hkept ⟨_, rfl, inBounds_draw _ _ (hsetup (by simp)), rfl⟩
  | gsBoolUniforms =>
    have h := hsetup (by simp)
    exact hkept ⟨_, rfl, inBounds_of_setups h h.vsQueue h.gsQueue rfl rfl, rfl⟩
  | gsIntUniforms index =>
    have h := hsetup (by simp)
    obtain ⟨gsSetup, hsetup', hqueue⟩ := exists_writeUniformIntReg s.gsSetup
      index.isLt (s.getIntUniform PicaReg.gs index)
    apply hkept
    unfold PicaCore.registerEffect
    dsimp only
    rw [hsetup', ok_bind]
    exact ⟨_, rfl, inBounds_of_setups h h.vsQueue (hqueue ▸ h.gsQueue) rfl rfl, rfl⟩
  | gsUniformValue =>
    have h := hsetup (by simp)
    obtain ⟨index, gsSetup, s', hwrite, hqueue, -, hs'⟩ := exists_writeUniformFloatReg
      s.gsSetup s PicaReg.gs value h.gsQueue
    apply hkept
    unfold PicaCore.registerEffect
    rw [hwrite, ok_bind]
    rcases hs' with rfl | ⟨v, rfl⟩
    · exact ⟨_, rfl, inBounds_of_setups h h.vsQueue hqueue rfl rfl, rfl⟩
    · exact ⟨_, rfl, inBounds_of_setups h h.vsQueue hqueue rfl (reg_setReg_ne (by decide)), rfl⟩
  | gsProgramWord =>
    have h := hsetup (by simp)
    apply hkept
    unfold PicaCore.registerEffect
    dsimp only
    by_cases hoffset : 4096 ≤ s.reg (PicaReg.gs + PicaReg.programOffset)
    · rw [if_pos hoffset]
      exact ⟨s, rfl, h, rfl⟩
    · obtain ⟨gsSetup, hwrite, hqueue⟩ := exists_writeProgram s.gsSetup
        (Nat.lt_of_not_le hoffset) value
      rw [if_neg hoffset, hwrite, ok_bind]
      exact ⟨_, rfl, inBounds_of_setups h h.vsQueue (hqueue ▸ h.gsQueue) rfl
        (reg_setReg_ne (by decide)), rfl⟩
  | gsSwizzleWord =>
    have h := hsetup (by simp)
    apply hkept
    unfold PicaCore.registerEffect
    dsimp only
    by_cases hoffset : 4096 ≤ s.reg (PicaReg.gs + PicaReg.swizzleOffset)
    · rw [if_pos hoffset]
      exact ⟨s, rfl, h, rfl⟩
    · obtain ⟨gsSetup, hwrite, hqueue⟩ := exists_writeSwizzle s.gsSetup
        (Nat.lt_of_not_le hoffset) value
      rw [if_neg hoffset, hwrite, ok_bind]
      exact ⟨_, rfl, inBounds_of_setups h h.vsQueue (hqueue ▸ h.gsQueue) rfl
        (reg_setReg_ne (by decide)), rfl⟩
  | vsOutputMask =>
    have h := hsetup (by simp)
    apply hkept
    unfold PicaCore.registerEffect
    dsimp only
    split
    · exact ⟨_, rfl, inBounds_setReg h (by decide), rfl⟩
    · exact ⟨s, rfl, h, rfl⟩
  | vsBoolUniforms =>
    have h := hsetup (by simp)
    apply hkept
    unfold PicaCore.registerEffect
    dsimp only
    split
    · exact ⟨_, rfl, inBounds_of_setups h h.vsQueue h.gsQueue rfl rfl, rfl⟩
    · exact ⟨_, rfl, inBounds_of_setups h h.vsQueue h.gsQueue rfl rfl, rfl⟩
  | vsIntUniforms index =>
    have h := hsetup (by simp)
    obtain ⟨vsSetup, hvsWrite, hvsQueue⟩ := exists_writeUniformIntReg s.vsSetup index.isLt
      (s.getIntUniform PicaReg.vs index)
    obtain ⟨gsSetup, hgsWrite, hgsQueue⟩ := exists_writeUniformIntReg s.gsSetup index.isLt
      (s.getIntUniform PicaReg.vs index)
    apply hkept
    unfold PicaCore.registerEffect
    dsimp only
    rw [hvsWrite, ok_bind]
    by_cases hshares : s.sharesConfiguration = true
    · rw [if_pos hshares, hgsWrite, ok_bind]
      exact ⟨_, rfl, inBounds_of_setups h (hvsQueue ▸ h.vsQueue) (hgsQueue ▸ h.gsQueue) rfl rfl, rfl⟩
    · rw [if_neg hshares, pure_eq_ok, ok_bind]
      exact ⟨_, rfl, inBounds_of_setups h (hvsQueue ▸ h.vsQueue) h.gsQueue rfl rfl, rfl⟩
  | vsUniformValue =>
    have h := hsetup (by simp)
    obtain ⟨index, vsSetup, s', hwrite, hqueue, hindex, hs'⟩ := exists_writeUniformFloatReg
      s.vsSetup s PicaReg.vs value h.vsQueue
    apply hkept
    unfold PicaCore.registerEffect
    rw [hwrite, ok_bind]
    dsimp only
    have hs'' : InBounds { s' with vsSetup := vsSetup } ∧ s'.cmdList = s.cmdList := by
      rcases hs' with rfl | ⟨v, rfl⟩
      · exact ⟨inBounds_of_setups h hqueue h.gsQueue rfl rfl, rfl⟩
      · exact ⟨inBounds_of_setups h hqueue h.gsQueue rfl (reg_setReg_ne (by decide)), rfl⟩
    obtain ⟨hbounds, hlist⟩ := hs''
    cases index with
    | none => exact ⟨_, rfl, hbounds, hlist⟩
    | some index =>
      dsimp only
      split
      · obtain ⟨gsSetup, hgsWrite, hgsQueue⟩ := exists_writeUniform s'.gsSetup
          (hindex index rfl) (Table.read vsSetup.uniforms.f index)
        rw [hgsWrite, ok_bind]
        exact ⟨_, rfl, inBounds_of_setups hbounds hbounds.vsQueue (hgsQueue ▸ hbounds.gsQueue)
          rfl rfl, hlist⟩
      · exact ⟨_, rfl, hbounds, hlist⟩
  | vsProgramWord => exact hkept (writeVsProgram_succeeds (hsetup (by simp)))
  | vsSwizzleWord => exact hkept (writeVsSwizzle_succeeds (hsetup (by simp)))
  | lutData => exact hkept (writeLightingLut_succeeds (hsetup (by simp)) hfits)
  | fogLutData => exact hkept (writeFogLut_succeeds (hsetup (by simp)))
  | proctexLutData => exact hkept (writeProcTexLut_succeeds (hsetup (by simp)))
  | other => exact hkept ⟨s, rfl, hsetup (by simp), rfl⟩

/-- Setting a register does not change whether it may be written. -/
theorem caseFits_setReg (id value : ℕ) :
    CaseFits (s.setReg id value) (registerCase id) ↔ CaseFits s (registerCase id) := by
  cases hcase : registerCase id with
  | lutData =>
    unfold CaseFits
    rw [reg_setReg_ne (ne_lutConfig hcase)]
  | defaultAttributeValue =>
    have hne : registerCase id ≠ .defaultAttributeIndex := by
      rw [hcase]
      decide
    unfold CaseFits
    rw [reg_setReg_ne (ne_defaultAttributeIndex hne)]
    rfl
  | _ => exact Iff.rfl

variable (render value) in
/-- A register that may be written is.
SOURCE: pica_core.cpp:1399-1944 -/
theorem writeInternalReg_succeeds (mask : ℕ) {id : ℕ} (h : InBounds s) (hfits : RegisterFits s id) :
    ∃ s', s.writeInternalReg render id value mask = .ok s' ∧ InBounds s' ∧
      ((∀ index, registerCase id ≠ .commandBufferTrigger index) → s'.cmdList = s.cmdList) := by
  unfold PicaCore.writeInternalReg
  by_cases hid : NUM_REGS ≤ id
  · rw [if_pos hid]
    exact ⟨s, rfl, h, fun _ => rfl⟩
  · rw [if_neg hid]
    dsimp only
    obtain ⟨s', hs', hbounds, hlist⟩ := registerEffect_succeeds render value
      (s := s.setReg id ((s.reg id &&& (0xffffffff ^^^ PicaCore.expandBitsToBytes mask)) |||
        (value &&& PicaCore.expandBitsToBytes mask)))
      (fun hne => inBounds_setReg h (ne_defaultAttributeIndex hne)) h.vsQueue h.gsQueue
      ((caseFits_setReg _ _).mpr (hfits.resolve_left hid))
    rw [hs', ok_bind]
    exact ⟨_, rfl, inBounds_of_setups hbounds hbounds.vsQueue hbounds.gsQueue rfl rfl, hlist⟩

/-- One that may not be writes outside of a table or of the queue. -/
theorem writeInternalReg_fails {id mask : ℕ} (hfits : ¬ RegisterFits s id) :
    s.writeInternalReg render id value mask = .error .undefined := by
  obtain ⟨hid, hcase⟩ := not_or.mp hfits
  rw [← caseFits_setReg id ((s.reg id &&& (0xffffffff ^^^
    PicaCore.expandBitsToBytes mask)) ||| (value &&& PicaCore.expandBitsToBytes mask))] at hcase
  unfold PicaCore.writeInternalReg
  rw [if_neg hid]
  dsimp only
  generalize s.setReg id _ = s' at hcase ⊢
  generalize registerCase id = c at hcase ⊢
  cases c with
  | lutData =>
    rw [show s'.registerEffect render value .lutData = s'.writeLightingLut value from rfl,
      writeLightingLut_of_le (Nat.le_of_not_lt hcase), error_bind]
  | defaultAttributeValue =>
    have hfull : 4 ≤ s'.immediate.queue.index := Nat.le_of_not_lt (not_or.mp hcase).2
    rw [show s'.registerEffect render value .defaultAttributeValue =
      s'.submitImmediate render value from rfl, submitImmediate_of_full hfull, error_bind]
  | _ => exact absurd trivial hcase

end Effects

/-! ## A round of the loops -/

section Passes

variable {render : PicaEvent → PicaCore → Rendered} {s : PicaCore} {l : CommandLoop}

/-- The command processor with the list at another word. -/
def atIndex (s : PicaCore) (index : ℕ) : PicaCore :=
  { s with cmdList := { s.cmdList with currentIndex := index } }

theorem inBounds_atIndex (index : ℕ) (h : InBounds s) : InBounds (atIndex s index) :=
  inBounds_of_setups h h.vsQueue h.gsQueue rfl rfl

/-- Where the list is does not matter to the registers. -/
theorem registerFits_atIndex {index id : ℕ} : RegisterFits (atIndex s index) id ↔
    RegisterFits s id := by
  apply or_congr_right
  cases registerCase id <;> exact Iff.rfl

theorem alignReadPointer_eq : CommandLoop.alignReadPointer s =
    atIndex s (s.cmdList.currentIndex + s.cmdList.currentIndex % 2) := by
  unfold CommandLoop.alignReadPointer
  by_cases hodd : s.cmdList.currentIndex % 2 = 0
  · rw [if_neg (not_not_intro hodd), hodd]
    rfl
  · rw [if_pos hodd, Nat.mod_two_ne_zero.mp hodd]
    rfl

/-- A word of the list is read. -/
theorem nextWord_of_hasWords {head : ℕ} (hhead : s.cmdList.head = some head)
    (hlt : s.cmdList.currentIndex < s.cmdList.length) :
    s.nextWord = .ok ((s.memory.word (head + 4 * s.cmdList.currentIndex)).toNat,
      atIndex s (s.cmdList.currentIndex + 1)) := by
  unfold PicaCore.nextWord
  rw [hhead]
  exact if_pos hlt

/-- Only such a word is. -/
theorem hasWords_of_nextWord {r : ℕ × PicaCore} (h : s.nextWord = .ok r) : HasWords s 1 := by
  unfold PicaCore.nextWord at h
  cases hhead : s.cmdList.head with
  | none =>
    rw [hhead] at h
    cases h
  | some head =>
    rw [hhead] at h
    dsimp only at h
    by_cases hlt : s.cmdList.currentIndex < s.cmdList.length
    · refine ⟨?_, hlt⟩
      rw [hhead]
      rfl
    · rw [if_neg hlt] at h
      cases h

variable (render) in
/-- A round that fits succeeds, and unless it goes on to another list it takes words from this one.
SOURCE: pica_core.cpp:1286-1376 -/
theorem pass_succeeds (h : InBounds l.core) (hfits : PassFits l) :
    ∃ l', l.pass render = .ok l' ∧ InBounds l'.core ∧
      ((∀ index, registerCase (nextRegister l) ≠ .commandBufferTrigger index) →
        l'.core.cmdList.length = l.core.cmdList.length ∧
          l.core.cmdList.currentIndex < l'.core.cmdList.currentIndex ∧
          l'.core.cmdList.currentIndex ≤ l.core.cmdList.length) := by
  obtain ⟨s, extra⟩ := l
  obtain ⟨hwords, hregister⟩ := hfits
  cases extra with
  | none =>
    dsimp only at h hwords
    rw [alignReadPointer_eq] at hwords
    obtain ⟨hsome, hlength⟩ := hwords
    obtain ⟨head, hhead⟩ := Option.isSome_iff_exists.mp hsome
    generalize hindex : s.cmdList.currentIndex + s.cmdList.currentIndex % 2 = index at hlength hhead
    change index + 2 ≤ s.cmdList.length at hlength
    have hvalue := nextWord_of_hasWords (s := atIndex s index) hhead
      (show index < s.cmdList.length by omega)
    have hheader := nextWord_of_hasWords (s := atIndex s (index + 1)) hhead
      (show index + 1 < s.cmdList.length from hlength)
    have hid : nextRegister ⟨s, none⟩ =
        CommandHeader.cmdId ⟨(s.memory.word (head + 4 * (index + 1))).toNat⟩ := by
      unfold nextRegister
      dsimp only
      rw [alignReadPointer_eq, hindex, hhead]
      rfl
    rw [hid] at hregister ⊢
    obtain ⟨s', hs', hbounds, hlist⟩ := writeInternalReg_succeeds render
      (s.memory.word (head + 4 * index)).toNat
      (CommandHeader.parameterMask ⟨(s.memory.word (head + 4 * (index + 1))).toNat⟩)
      (inBounds_atIndex (index + 2) h) (registerFits_atIndex.mpr hregister)
    let header : CommandHeader := ⟨(s.memory.word (head + 4 * (index + 1))).toNat⟩
    refine ⟨⟨s', if 0 < header.extraDataLength then some (header, 0) else none⟩, ?_, hbounds, ?_⟩
    · unfold CommandLoop.pass
      dsimp only
      rw [alignReadPointer_eq, hindex, hvalue, ok_bind]
      dsimp only
      rw [show atIndex (atIndex s index) ((atIndex s index).cmdList.currentIndex + 1) =
        atIndex s (index + 1) from rfl, hheader, ok_bind]
      exact bind_eq_ok.mpr ⟨s', hs', rfl⟩
    · intro hjump
      dsimp only
      rw [hlist hjump]
      refine ⟨rfl, ?_, hlength⟩
      show s.cmdList.currentIndex < index + 2
      omega
  | some extra =>
    obtain ⟨header, i⟩ := extra
    obtain ⟨hsome, hlength⟩ := hwords
    obtain ⟨head, hhead⟩ := Option.isSome_iff_exists.mp hsome
    dsimp only at h hhead hlength
    have hvalue := nextWord_of_hasWords hhead hlength
    obtain ⟨s', hs', hbounds, hlist⟩ := writeInternalReg_succeeds render
      (s.memory.word (head + 4 * s.cmdList.currentIndex)).toNat header.parameterMask
      (inBounds_atIndex (s.cmdList.currentIndex + 1) h)
      (registerFits_atIndex.mpr hregister)
    refine ⟨⟨s', if i + 1 < header.extraDataLength then some (header, i + 1) else none⟩, ?_,
      hbounds, ?_⟩
    · unfold CommandLoop.pass
      dsimp only
      rw [hvalue, ok_bind]
      exact bind_eq_ok.mpr ⟨s', hs', rfl⟩
    · intro hjump
      dsimp only
      rw [hlist hjump]
      exact ⟨rfl, Nat.lt_succ_self _, hlength⟩

/-- A round that does not fit fails. -/
theorem passFits_of_pass {l' : CommandLoop} (h : l.pass render = .ok l') : PassFits l := by
  obtain ⟨s, extra⟩ := l
  unfold CommandLoop.pass at h
  cases extra with
  | none =>
    dsimp only at h
    obtain ⟨⟨value, s₁⟩, hvalue, h⟩ := bind_eq_ok.mp h
    obtain ⟨⟨hex, s₂⟩, hhex, h⟩ := bind_eq_ok.mp h
    obtain ⟨s₃, hwrite, -⟩ := bind_eq_ok.mp h
    rw [alignReadPointer_eq] at hvalue
    generalize hindex : s.cmdList.currentIndex + s.cmdList.currentIndex % 2 = index at hvalue
    obtain ⟨hsome, hlength⟩ := hasWords_of_nextWord hvalue
    obtain ⟨head, hhead⟩ := Option.isSome_iff_exists.mp hsome
    rw [nextWord_of_hasWords hhead hlength] at hvalue
    cases hvalue
    change (atIndex s (index + 1)).nextWord = .ok (hex, s₂) at hhex
    obtain ⟨-, hlength'⟩ := hasWords_of_nextWord hhex
    rw [nextWord_of_hasWords (s := atIndex s (index + 1)) hhead hlength'] at hhex
    cases hhex
    refine ⟨?_, ?_⟩
    · dsimp only
      rw [alignReadPointer_eq, hindex]
      exact ⟨hsome, hlength'⟩
    · have hid : nextRegister ⟨s, none⟩ =
          CommandHeader.cmdId ⟨(s.memory.word (head + 4 * (index + 1))).toNat⟩ := by
        unfold nextRegister
        dsimp only
        rw [alignReadPointer_eq, hindex, hhead]
        rfl
      rw [hid]
      by_contra hnot
      rw [writeInternalReg_fails] at hwrite
      · cases hwrite
      · exact fun hfits => hnot (registerFits_atIndex.mp hfits)
  | some extra =>
    obtain ⟨header, i⟩ := extra
    dsimp only at h
    obtain ⟨⟨value, s₁⟩, hvalue, h⟩ := bind_eq_ok.mp h
    obtain ⟨s₂, hwrite, -⟩ := bind_eq_ok.mp h
    have hwords := hasWords_of_nextWord hvalue
    obtain ⟨head, hhead⟩ := Option.isSome_iff_exists.mp hwords.1
    rw [nextWord_of_hasWords hhead hwords.2] at hvalue
    cases hvalue
    refine ⟨hwords, ?_⟩
    by_contra hnot
    rw [writeInternalReg_fails] at hwrite
    · cases hwrite
    · exact fun hfits => hnot (registerFits_atIndex.mp hfits)

end Passes

/-! ## Runs -/

section Runs

variable {render : PicaEvent → PicaCore → Rendered} {l : CommandLoop}

theorem inBounds_of_isIdle (h : IsIdle l) : InBounds l.core := by
  refine ⟨?_, ?_, ?_, ?_, ?_⟩
  · rw [h.vsQueue]
    exact Nat.zero_le _
  · rw [h.gsQueue]
    exact Nat.zero_le _
  · rw [h.currentAttribute]
    exact Nat.zero_le _
  · rw [h.queue]
    exact Nat.zero_le _
  · rw [h.queue]
    exact fun _ => Nat.zero_le _

variable (render) in
/-- A turn that fits keeps the bounds. -/
theorem gpuStep_succeeds {turn : GpuTurn} (h : InBounds l.core) (hfits : TurnFits l turn) :
    ∃ l', gpuStep render l turn = .ok l' ∧ InBounds l'.core := by
  cases turn with
  | submit list size ignoreList =>
    unfold gpuStep
    by_cases hfinished : l.Finished
    · refine ⟨_, if_pos hfinished, ?_⟩
      unfold CommandLoop.begin
      cases ignoreList with
      | true => exact inBounds_of_setups h h.vsQueue h.gsQueue rfl rfl
      | false => exact inBounds_of_setups h h.vsQueue h.gsQueue rfl rfl
    · exact ⟨l, if_neg hfinished, h⟩
  | pass =>
    unfold gpuStep
    by_cases hfinished : l.Finished
    · exact ⟨l, if_pos hfinished, h⟩
    · obtain ⟨l', hl', hbounds, -⟩ := pass_succeeds render h
        (hfits.resolve_left hfinished)
      exact ⟨l', (if_neg hfinished).trans hl', hbounds⟩

/-- One that does not fit fails. -/
theorem turnFits_of_gpuStep {turn : GpuTurn} {l' : CommandLoop}
    (h : gpuStep render l turn = .ok l') : TurnFits l turn := by
  cases turn with
  | submit list size ignoreList => trivial
  | pass =>
    unfold gpuStep at h
    by_cases hfinished : l.Finished
    · exact Or.inl hfinished
    · rw [if_neg hfinished] at h
      exact Or.inr (passFits_of_pass h)

/-- When the loops are over nothing happens. -/
theorem run_of_finished (h : l.Finished) (n : ℕ) :
    run (gpuStep render) l (List.replicate n .pass) = .ok l := by
  induction n with
  | zero => rfl
  | succ n ih =>
    rw [List.replicate_succ, run]
    unfold gpuStep
    rw [if_pos h, pure_eq_ok, ok_bind]
    exact ih

/-- The rounds of a call that ends all fit. -/
theorem everyStep_of_run {n : ℕ} {u : CommandLoop}
    (hrun : run (gpuStep render) l (List.replicate n .pass) = .ok u) (hu : u.Finished) (k : ℕ) :
    EveryStep (gpuStep render) TurnFits l (List.replicate k .pass) := by
  induction k generalizing l n with
  | zero => trivial
  | succ k ih =>
    cases n with
    | zero =>
      cases hrun
      refine ⟨Or.inl hu, fun t ht => ?_⟩
      have hsame : gpuStep render u .pass = .ok u := if_pos hu
      rw [hsame] at ht
      cases ht
      exact @ih u 0 rfl
    | succ n =>
      obtain ⟨t, ht, hrest⟩ := bind_eq_ok.mp hrun
      refine ⟨turnFits_of_gpuStep ht, fun t' ht' => ?_⟩
      rw [ht] at ht'
      cases ht'
      exact ih hrest

/-- Without a jump every round brings the end of the list nearer. -/
theorem exists_finished (h : InBounds l.core)
    (hfits : ∀ n, EveryStep (gpuStep render) TurnFits l (List.replicate n .pass))
    (hjumps : ∀ n u, run (gpuStep render) l (List.replicate n .pass) = .ok u → ¬ Jumps u)
    {d : ℕ} (hd : l.core.cmdList.length - l.core.cmdList.currentIndex ≤ d) :
    ∃ n u, run (gpuStep render) l (List.replicate n .pass) = .ok u ∧ u.Finished := by
  induction d generalizing l with
  | zero =>
    by_cases hfinished : l.Finished
    · exact ⟨0, l, rfl, hfinished⟩
    · have hpass := ((hfits 1).1).resolve_left hfinished
      obtain ⟨l', -, -, hnext⟩ := pass_succeeds render h hpass
      obtain ⟨-, hlt, hle⟩ := hnext fun index hindex => hjumps 0 l rfl ⟨hfinished, index, hindex⟩
      omega
  | succ d ih =>
    by_cases hfinished : l.Finished
    · exact ⟨0, l, rfl, hfinished⟩
    · have hpass := ((hfits 1).1).resolve_left hfinished
      obtain ⟨l', hl', hbounds, hnext⟩ := pass_succeeds render h hpass
      obtain ⟨hlength, hlt, hle⟩ := hnext fun index hindex =>
        hjumps 0 l rfl ⟨hfinished, index, hindex⟩
      have hstep : gpuStep render l .pass = .ok l' := (if_neg hfinished).trans hl'
      obtain ⟨n, u, hrun, hu⟩ := ih hbounds (fun n => (hfits (n + 1)).2 l' hstep)
        (fun n u hrun => hjumps (n + 1) u (bind_eq_ok.mpr ⟨l', hstep, hrun⟩)) (by omega)
      exact ⟨n + 1, u, bind_eq_ok.mpr ⟨l', hstep, hrun⟩, hu⟩

/-- Rounds that all fit lead somewhere, within bounds. -/
theorem exists_run_of_everyStep {turns : List GpuTurn} (h : InBounds l.core)
    (hfits : EveryStep (gpuStep render) TurnFits l turns) :
    ∃ t, run (gpuStep render) l turns = .ok t ∧ InBounds t.core := by
  induction turns generalizing l with
  | nil => exact ⟨l, rfl, h⟩
  | cons turn turns ih =>
    obtain ⟨l', hl', hbounds⟩ := gpuStep_succeeds render h hfits.1
    obtain ⟨t, ht, hkept⟩ := ih hbounds (hfits.2 l' hl')
    exact ⟨t, bind_eq_ok.mpr ⟨l', hl', ht⟩, hkept⟩

theorem replicate_pass_add (m n : ℕ) : List.replicate (m + n) GpuTurn.pass =
    List.replicate m .pass ++ List.replicate n .pass := List.replicate_add m n _

/-- Rounds that all fit, behind others. -/
theorem everyStep_of_add {m n : ℕ} {t : CommandLoop}
    (hfits : EveryStep (gpuStep render) TurnFits l (List.replicate (m + n) .pass))
    (hrun : run (gpuStep render) l (List.replicate m .pass) = .ok t) :
    EveryStep (gpuStep render) TurnFits t (List.replicate n .pass) := by
  induction m generalizing l with
  | zero =>
    cases hrun
    rwa [Nat.zero_add] at hfits
  | succ m ih =>
    obtain ⟨l', hl', hrest⟩ := bind_eq_ok.mp hrun
    rw [Nat.succ_add] at hfits
    exact ih (hfits.2 l' hl') hrest

end Runs

/-- Drawing that leaves everything alone. -/
def renderNothing (_ : PicaEvent) (s : PicaCore) : Rendered := ⟨s.memory, s.gsSetup.uniforms⟩

/-- A memory of a few words, from the beginning of FCRAM on. -/
def memoryOf (words : List UInt32) : PhysicalMemory where
  known := fun addr => decide (0x20000000 ≤ addr)
  word := fun addr => words.getD ((addr - 0x20000000) / 4) 0

theorem isIdle_init (memory : PhysicalMemory) : IsIdle (.init memory) :=
  ⟨⟨rfl, Nat.le_refl _⟩, rfl, rfl, rfl, rfl⟩

/-- Four words that set the address and the size of the next list, and a list of one command that
goes on to it. -/
def selfJump : PhysicalMemory :=
  memoryOf [1, 0x000f0238, 0x4000002, 0x000f023a, 0, 0x000f023c]

/-- The command processor at the beginning of that list. -/
structure AtSelfJump (l : CommandLoop) : Prop where
  extra : l.extra = none
  memory : l.core.memory = selfJump
  cmdList : l.core.cmdList = ⟨0x20000010, some 0x20000010, 0, 2⟩
  size : l.core.reg 0x238 = 1
  addr : l.core.reg 0x23a = 0x4000002

theorem not_finished_of_atSelfJump {l : CommandLoop} (h : AtSelfJump l) : ¬ l.Finished := by
  rintro ⟨-, hend⟩
  rw [h.cmdList] at hend
  exact absurd hend (by decide)

/-- After a round it is there again. -/
theorem gpuStep_atSelfJump {l : CommandLoop} (h : AtSelfJump l) :
    ∃ l', gpuStep renderNothing l .pass = .ok l' ∧ AtSelfJump l' := by
  have hnot := not_finished_of_atSelfJump h
  obtain ⟨hextra, hmemory, hlist, hsize, haddr⟩ := h
  obtain ⟨s, extra⟩ := l
  cases hextra
  dsimp only at hmemory hlist hsize haddr
  have hhead : s.cmdList.head = some 0x20000010 := by rw [hlist]
  have hindex : s.cmdList.currentIndex = 0 := by rw [hlist]
  have hlength : s.cmdList.length = 2 := by rw [hlist]
  have halign : CommandLoop.alignReadPointer s = s := by
    unfold CommandLoop.alignReadPointer
    rw [hindex, if_neg (by decide)]
  have hvalue : s.nextWord = .ok (0, atIndex s 1) := by
    rw [nextWord_of_hasWords hhead (by omega), hindex, hmemory]
    rfl
  have hheader : (atIndex s 1).nextWord = .ok (0x000f023c, atIndex s 2) := by
    rw [nextWord_of_hasWords (s := atIndex s 1) hhead (show 1 < s.cmdList.length by omega)]
    show Except.ok ((s.memory.word 0x20000014).toNat, atIndex s 2) = _
    rw [hmemory]
    rfl
  obtain ⟨s₁, hs₁⟩ : ∃ s₁, s₁ = (atIndex s 2).setReg 0x23c
      (((atIndex s 2).reg 0x23c &&& (0xffffffff ^^^ PicaCore.expandBitsToBytes 0xf)) |||
        (0 &&& PicaCore.expandBitsToBytes 0xf)) := ⟨_, rfl⟩
  have hsize₁ : s₁.reg 0x238 = 1 := by
    rw [hs₁, reg_setReg_ne (by decide)]
    exact hsize
  have haddr₁ : s₁.reg 0x23a = 0x4000002 := by
    rw [hs₁, reg_setReg_ne (by decide)]
    exact haddr
  have hmemory₁ : s₁.memory = selfJump := by
    rw [hs₁]
    exact hmemory
  have hwrite : (atIndex s 2).writeInternalReg renderNothing 0x23c 0 0xf =
      .ok ((s₁.resetCmdList (8 * bitField 0 28 (s₁.reg 0x23a))
        (8 * bitField 0 20 (s₁.reg 0x238))).emit (.registerChanged 0x23c)) := by
    rw [hs₁]
    rfl
  rw [hsize₁, haddr₁] at hwrite
  refine ⟨⟨(s₁.resetCmdList (8 * bitField 0 28 0x4000002) (8 * bitField 0 20 1)).emit
    (.registerChanged 0x23c), none⟩, (if_neg hnot).trans ?_, rfl, hmemory₁, ?_, hsize₁, haddr₁⟩
  · have hid : CommandHeader.cmdId ⟨0x000f023c⟩ = 0x23c := rfl
    have hmask : CommandHeader.parameterMask ⟨0x000f023c⟩ = 0xf := rfl
    have hextra : CommandHeader.extraDataLength ⟨0x000f023c⟩ = 0 := rfl
    unfold CommandLoop.pass
    dsimp only
    rw [halign, hvalue, ok_bind, hheader, ok_bind]
    dsimp only
    rw [hid, hmask, hextra, hwrite, ok_bind]
    rfl
  · show CommandList.mk _ (if s₁.memory.known _ then some _ else none) 0 _ = _
    rw [hmemory₁]
    rfl

end Borked3DS.Analysis
