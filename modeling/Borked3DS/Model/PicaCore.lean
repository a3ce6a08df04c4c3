import Borked3DS.Library.Registers
import Borked3DS.Model.Basic

/-!
# The command processor of the GPU

`ProcessCmdList`, `WriteInternalReg` and what they write: the internal registers, the tables of the
lighting, the fog and the procedural texture, the shader setups and the default attributes. The two
loops over a command list are one machine that handles a word at a time. What drawing does to
memory and to the uniforms of the geometry shader is an argument (`render`).
-/

set_option autoImplicit false

namespace Borked3DS.Model

open Borked3DS.Library

/-! ## State -/

/-- Physical memory: which addresses `GetPhysicalPointer` knows, and the word at an address. -/
structure PhysicalMemory where
  known : ℕ → Bool
  word : ℕ → UInt32

/-- A 24-bit float, by what it is made from. -/
inductive F24
  | fromRaw (hex : ℕ)
  | fromFloat32 (bits : ℕ)
  deriving DecidableEq, Repr, Inhabited

/-- `Common::Vec4`. -/
structure Vec4 (α : Type) where
  x : α
  y : α
  z : α
  w : α
  deriving DecidableEq, Repr, Inhabited

/-- `PackedAttribute`. -/
structure PackedAttribute where
  buffer : Table 4 ℕ
  index : ℕ

/-- `Uniforms`. -/
structure Uniforms where
  f : Table 96 (Vec4 F24)
  b : Table 16 Bool
  i : Table 4 (Vec4 ℕ)

/-- `ShaderSetup`, without the hashes of its arrays. -/
structure ShaderSetup where
  uniforms : Uniforms
  uniformQueue : PackedAttribute
  programCode : Table 4096 ℕ
  swizzleData : Table 4096 ℕ

/-- `PicaCore::ProcTex`. -/
structure ProcTex where
  noiseTable : Table 128 ℕ
  colorMapTable : Table 128 ℕ
  alphaMapTable : Table 128 ℕ
  colorTable : Table 256 ℕ
  colorDiffTable : Table 256 ℕ

/-- `PicaCore::ImmediateModeState`. -/
structure ImmediateModeState where
  inputVertex : Table 16 (Vec4 F24)
  currentAttribute : ℕ
  resetGeometryPipeline : Bool
  queue : PackedAttribute

/-- `PicaCore::CommandList`; `head` is where the words lie, if the address is known. -/
structure CommandList where
  addr : ℕ
  head : Option ℕ
  currentIndex : ℕ
  length : ℕ

/-- What the command processor asks of the other components. -/
inductive PicaEvent
  | signalInterrupt
  | reconfigureAssembler (topology : ℕ)
  | resetAssembler
  | drawImmediate
  | drawArrays (isIndexed : Bool)
  | registerChanged (id : ℕ)
  deriving DecidableEq, Repr

/-- `RegsInternal::NUM_REGS`. -/
def NUM_REGS : ℕ := 0x300

/-- `PicaCore`, and the memory that it reads. -/
structure PicaCore where
  memory : PhysicalMemory
  regs : Table NUM_REGS ℕ
  vsSetup : ShaderSetup
  gsSetup : ShaderSetup
  proctex : ProcTex
  lightingLuts : Table 24 (Table 256 ℕ)
  fogLut : Table 128 ℕ
  inputDefaultAttributes : Table 16 (Vec4 F24)
  immediate : ImmediateModeState
  cmdList : CommandList
  events : List PicaEvent

/-- What a draw leaves of the memory, and of the uniforms of the geometry shader. -/
structure Rendered where
  memory : PhysicalMemory
  gsUniforms : Uniforms

/-! ## Registers -/

namespace PicaReg

def triggerIrq : ℕ := 0x10
def proctexLutConfig : ℕ := 0xaf
def proctexLutData : ℕ := 0xb0
def fogLutOffset : ℕ := 0xe6
def fogLutData : ℕ := 0xe8
def lutConfig : ℕ := 0x1c5
def lutData : ℕ := 0x1c8
def useGs : ℕ := 0x229
def triggerDraw : ℕ := 0x22e
def triggerDrawIndexed : ℕ := 0x22f
def defaultAttributeIndex : ℕ := 0x232
def defaultAttributeValue : ℕ := 0x233
def commandBufferSize : ℕ := 0x238
def commandBufferAddr : ℕ := 0x23a
def commandBufferTrigger : ℕ := 0x23c
def maxInputAttribIndex : ℕ := 0x242
def gsUnitExclusiveConfiguration : ℕ := 0x244
def triangleTopology : ℕ := 0x25e
def restartPrimitive : ℕ := 0x25f

/-- Where the registers of the geometry shader begin. -/
def gs : ℕ := 0x280

/-- Where those of the vertex shader begin. -/
def vs : ℕ := 0x2b0

/-- The places of the registers of a shader among them. -/
def boolUniforms : ℕ := 0x0
def intUniforms : ℕ := 0x1
def inputBufferConfig : ℕ := 0x9
def outputMask : ℕ := 0xd
def uniformIndex : ℕ := 0x10
def uniformValue : ℕ := 0x11
def programOffset : ℕ := 0x1b
def programWord : ℕ := 0x1c
def swizzleOffset : ℕ := 0x25
def swizzleWord : ℕ := 0x26

end PicaReg

/-- The cases that `WriteInternalReg` tells apart. -/
inductive RegisterCase
  | triggerIrq
  | triangleTopology
  | restartPrimitive
  | defaultAttributeIndex
  | defaultAttributeValue
  | commandBufferTrigger (index : Fin 2)
  | triggerDraw (isIndexed : Bool)
  | gsBoolUniforms
  | gsIntUniforms (index : Fin 4)
  | gsUniformValue
  | gsProgramWord
  | gsSwizzleWord
  | vsOutputMask
  | vsBoolUniforms
  | vsIntUniforms (index : Fin 4)
  | vsUniformValue
  | vsProgramWord
  | vsSwizzleWord
  | lutData
  | fogLutData
  | proctexLutData
  | other
  deriving DecidableEq, Repr

/-- `id` is one of `n` registers from `first` on. -/
def InRegisters (id first n : ℕ) : Prop := first ≤ id ∧ id < first + n

instance (id first n : ℕ) : Decidable (InRegisters id first n) :=
  inferInstanceAs (Decidable (_ ∧ _))

theorem InRegisters.sub_lt {id first n : ℕ} (h : InRegisters id first n) : id - first < n := by
  obtain ⟨hfirst, hlast⟩ := h
  omega

open PicaReg in
/-- The case of a register.
SOURCE: pica_core.cpp:1461-1941 -/
def registerCase (id : ℕ) : RegisterCase :=
  if id = PicaReg.triggerIrq then .triggerIrq
  else if id = PicaReg.triangleTopology then .triangleTopology
  else if id = PicaReg.restartPrimitive then .restartPrimitive
  else if id = PicaReg.defaultAttributeIndex then .defaultAttributeIndex
  else if InRegisters id PicaReg.defaultAttributeValue 3 then .defaultAttributeValue
  else if h : InRegisters id PicaReg.commandBufferTrigger 2 then
    .commandBufferTrigger ⟨id - PicaReg.commandBufferTrigger, h.sub_lt⟩
  else if id = PicaReg.triggerDraw then .triggerDraw false
  else if id = triggerDrawIndexed then .triggerDraw true
  else if id = gs + boolUniforms then .gsBoolUniforms
  else if h : InRegisters id (gs + intUniforms) 4 then .gsIntUniforms ⟨_, h.sub_lt⟩
  else if InRegisters id (gs + uniformValue) 8 then .gsUniformValue
  else if InRegisters id (gs + programWord) 8 then .gsProgramWord
  else if InRegisters id (gs + swizzleWord) 8 then .gsSwizzleWord
  else if id = vs + outputMask then .vsOutputMask
  else if id = vs + boolUniforms then .vsBoolUniforms
  else if h : InRegisters id (vs + intUniforms) 4 then .vsIntUniforms ⟨_, h.sub_lt⟩
  else if InRegisters id (vs + uniformValue) 8 then .vsUniformValue
  else if InRegisters id (vs + programWord) 8 then .vsProgramWord
  else if InRegisters id (vs + swizzleWord) 8 then .vsSwizzleWord
  else if InRegisters id PicaReg.lutData 8 then .lutData
  else if InRegisters id PicaReg.fogLutData 8 then .fogLutData
  else if InRegisters id PicaReg.proctexLutData 8 then .proctexLutData
  else .other

/-! ## The queue of packed words -/

namespace PackedAttribute

/-- `Push`: place a word, and whether the queue is full then.
SOURCE: packed_attribute.h:26-29 -/
def push (q : PackedAttribute) (word : ℕ) (isFloat32 : Bool) : Exec (Bool × PackedAttribute) := do
  let buffer ← Table.write Fault.undefined q.buffer q.index word
  let q : PackedAttribute := { buffer := buffer, index := u32 (q.index + 1) }
  pure ((decide (4 ≤ q.index) && isFloat32) || (decide (3 ≤ q.index) && !isFloat32), q)

/-- `Reset`. -/
def reset (q : PackedAttribute) : PackedAttribute := { q with index := 0 }

/-- `AsFloat24`.
SOURCE: packed_attribute.h:46-54 -/
def asFloat24 (q : PackedAttribute) : Vec4 F24 where
  x := .fromRaw (bitField 0 24 (q.buffer 2))
  y := .fromRaw (bitField 0 16 (q.buffer 1) * 2 ^ 8 + bitField 24 8 (q.buffer 2))
  z := .fromRaw (bitField 0 8 (q.buffer 0) * 2 ^ 16 + bitField 16 16 (q.buffer 1))
  w := .fromRaw (bitField 8 24 (q.buffer 0))

/-- `AsFloat32`.
SOURCE: packed_attribute.h:57-64 -/
def asFloat32 (q : PackedAttribute) : Vec4 F24 where
  x := .fromFloat32 (q.buffer 3)
  y := .fromFloat32 (q.buffer 2)
  z := .fromFloat32 (q.buffer 1)
  w := .fromFloat32 (q.buffer 0)

/-- `Get`: the contents; the queue is empty after it. -/
def get (q : PackedAttribute) (isFloat32 : Bool) : Vec4 F24 × PackedAttribute :=
  (if isFloat32 then q.asFloat32 else q.asFloat24, q.reset)

end PackedAttribute

/-! ## Shader setups -/

namespace ShaderSetup

/-- `WriteUniformBoolReg`.
SOURCE: shader_setup.cpp:22-27 -/
def writeUniformBoolReg (setup : ShaderSetup) (value : ℕ) : ShaderSetup :=
  { setup with uniforms := { setup.uniforms with b := fun i => value.testBit i } }

/-- `WriteUniformIntReg`.
SOURCE: shader_setup.cpp:29-32 -/
def writeUniformIntReg (setup : ShaderSetup) (index : ℕ) (values : Vec4 ℕ) :
    Exec ShaderSetup := do
  assert (index < 4) .intUniform
  let i ← Table.write Fault.undefined setup.uniforms.i index values
  pure { setup with uniforms := { setup.uniforms with i := i } }

/-- Write a uniform vector. -/
def writeUniform (setup : ShaderSetup) (index : ℕ) (value : Vec4 F24) : Exec ShaderSetup := do
  let f ← Table.write Fault.undefined setup.uniforms.f index value
  pure { setup with uniforms := { setup.uniforms with f := f } }

/-- Write a word of the program. -/
def writeProgram (setup : ShaderSetup) (offset value : ℕ) : Exec ShaderSetup := do
  let programCode ← Table.write Fault.undefined setup.programCode offset value
  pure { setup with programCode := programCode }

/-- Write a swizzle pattern. -/
def writeSwizzle (setup : ShaderSetup) (offset value : ℕ) : Exec ShaderSetup := do
  let swizzleData ← Table.write Fault.undefined setup.swizzleData offset value
  pure { setup with swizzleData := swizzleData }

end ShaderSetup

/-- `ImmediateModeState::Reset`.
SOURCE: pica_core.h:93-97 -/
def ImmediateModeState.reset (immediate : ImmediateModeState) : ImmediateModeState :=
  { immediate with
    currentAttribute := 0
    resetGeometryPipeline := true
    queue := immediate.queue.reset }

/-! ## Writing registers -/

namespace PicaCore

/-- The value of a register. -/
def reg (s : PicaCore) (id : ℕ) : ℕ := Table.read s.regs id

/-- Set a register. -/
def setReg (s : PicaCore) (id value : ℕ) : PicaCore :=
  { s with regs := fun i => if i.val = id then value else s.regs i }

/-- `Assign` a field of a register. -/
def assignReg (s : PicaCore) (id position width value : ℕ) : PicaCore :=
  s.setReg id (assignField position width (s.reg id) value)

/-- Call another component. -/
def emit (s : PicaCore) (event : PicaEvent) : PicaCore := { s with events := s.events ++ [event] }

/-- `CommandList::Reset`, with the pointer that `GetPhysicalPointer` has for the address.
SOURCE: pica_core.h:75-80 -/
def resetCmdList (s : PicaCore) (addr size : ℕ) : PicaCore :=
  { s with cmdList := {
      addr := addr
      head := if s.memory.known addr then some addr else none
      currentIndex := 0
      length := size / 4 } }

/-- The geometry shader unit shares the configuration of the vertex shader. -/
def sharesConfiguration (s : PicaCore) : Bool :=
  decide (bitField 0 1 (s.reg PicaReg.gsUnitExclusiveConfiguration) = 0 ∧
    bitField 0 2 (s.reg PicaReg.useGs) = 0)

/-- `GetIntUniform`. -/
def getIntUniform (s : PicaCore) (unit index : ℕ) : Vec4 ℕ :=
  let values := s.reg (unit + PicaReg.intUniforms + index)
  { x := bitField 0 8 values
    y := bitField 8 8 values
    z := bitField 16 8 values
    w := bitField 24 8 values }

/-- `WriteUniformFloatReg` for the setup of a unit, and the index of the vector that it wrote.
SOURCE: shader_setup.cpp:34-52 -/
def writeUniformFloatReg (s : PicaCore) (setup : ShaderSetup) (unit value : ℕ) :
    Exec (Option ℕ × ShaderSetup × PicaCore) := do
  let config := s.reg (unit + PicaReg.uniformIndex)
  let isFloat32 := decide (bitField 31 1 config = 1)
  let (full, queue) ← setup.uniformQueue.push value isFloat32
  if full then
    let (uniform, queue) := queue.get isFloat32
    let index := bitField 0 7 config
    if 96 ≤ index then pure (none, { setup with uniformQueue := queue }, s)
    else do
      let setup ← { setup with uniformQueue := queue }.writeUniform index uniform
      pure (some index, setup, s.assignReg (unit + PicaReg.uniformIndex) 0 7 (index + 1))
  else pure (none, { setup with uniformQueue := queue }, s)

section Draw

variable (render : PicaEvent → PicaCore → Rendered)

/-- A draw, and what it leaves. -/
def draw (s : PicaCore) (event : PicaEvent) : PicaCore :=
  let s := s.emit event
  let rendered := render event s
  { s with
    memory := rendered.memory
    gsSetup := { s.gsSetup with uniforms := rendered.gsUniforms } }

/-- `DrawImmediate`.
SOURCE: pica_core.cpp:1975-2014 -/
def drawImmediate (s : PicaCore) : PicaCore :=
  let s := s.draw render .drawImmediate
  { s with immediate := { s.immediate with resetGeometryPipeline := false, currentAttribute := 0 } }

/-- `SubmitImmediate`.
SOURCE: pica_core.cpp:1946-1973 -/
def submitImmediate (s : PicaCore) (value : ℕ) : Exec PicaCore := do
  let (full, queue) ← s.immediate.queue.push value false
  if full then
    let index := s.reg PicaReg.defaultAttributeIndex
    if 0xF < index then pure { s with immediate := { s.immediate with queue := queue } }
    else
      let (vector, queue) := queue.get false
      if index < 0xF then do
        let attributes ← Table.write Fault.undefined s.inputDefaultAttributes index vector
        pure ({ s with
          inputDefaultAttributes := attributes
          immediate := { s.immediate with queue := queue }
          }.setReg PicaReg.defaultAttributeIndex (u32 (index + 1)))
      else do
        let vertex ← Table.write Fault.undefined s.immediate.inputVertex
          s.immediate.currentAttribute vector
        let s := { s with immediate := { s.immediate with inputVertex := vertex, queue := queue } }
        if s.immediate.currentAttribute < bitField 0 4 (s.reg PicaReg.maxInputAttribIndex) then
          pure { s with immediate := { s.immediate with
            currentAttribute := u32 (s.immediate.currentAttribute + 1) } }
        else pure (s.drawImmediate render)
  else pure { s with immediate := { s.immediate with queue := queue } }

/-- Write a word of the lighting table that `lut_config` names.
SOURCE: pica_core.cpp:1857-1894 -/
def writeLightingLut (s : PicaCore) (value : ℕ) : Exec PicaCore := do
  let config := s.reg PicaReg.lutConfig
  let index := bitField 0 8 config
  let type := bitField 8 5 config
  assert (index < 256) .lutIndex
  let lut ← Table.write Fault.undefined (Table.read s.lightingLuts type) index value
  let luts ← Table.write Fault.undefined s.lightingLuts type lut
  pure ({ s with lightingLuts := luts }.assignReg PicaReg.lutConfig 0 8 (index + 1))

/-- Write a word of the fog table.
SOURCE: pica_core.cpp:1896-1906 -/
def writeFogLut (s : PicaCore) (value : ℕ) : Exec PicaCore := do
  let offset := bitField 0 16 (s.reg PicaReg.fogLutOffset)
  let lut ← Table.write Fault.undefined s.fogLut (offset % 128) value
  pure ({ s with fogLut := lut }.assignReg PicaReg.fogLutOffset 0 16 (offset + 1))

/-- Write a word of the procedural texture's table that `ref_table` names.
SOURCE: pica_core.cpp:1908-1938 -/
def writeProcTexLut (s : PicaCore) (value : ℕ) : Exec PicaCore := do
  let config := s.reg PicaReg.proctexLutConfig
  let index := bitField 0 8 config
  let proctex ← match bitField 8 4 config with
    | 0 => do
        let t ← Table.write Fault.undefined s.proctex.noiseTable (index % 128) value
        pure { s.proctex with noiseTable := t }
    | 2 => do
        let t ← Table.write Fault.undefined s.proctex.colorMapTable (index % 128) value
        pure { s.proctex with colorMapTable := t }
    | 3 => do
        let t ← Table.write Fault.undefined s.proctex.alphaMapTable (index % 128) value
        pure { s.proctex with alphaMapTable := t }
    | 4 => do
        let t ← Table.write Fault.undefined s.proctex.colorTable (index % 256) value
        pure { s.proctex with colorTable := t }
    | 5 => do
        let t ← Table.write Fault.undefined s.proctex.colorDiffTable (index % 256) value
        pure { s.proctex with colorDiffTable := t }
    | _ => pure s.proctex
  pure ({ s with proctex := proctex }.assignReg PicaReg.proctexLutConfig 0 8 (index + 1))

/-- Write a word of the vertex shader's program; the geometry shader may share it.
SOURCE: pica_core.cpp:1803-1829 -/
def writeVsProgram (s : PicaCore) (value : ℕ) : Exec PicaCore := do
  let offset := s.reg (PicaReg.vs + PicaReg.programOffset)
  if 512 ≤ offset then pure s
  else do
    let vsSetup ← s.vsSetup.writeProgram offset value
    let gsSetup ← if s.sharesConfiguration then s.gsSetup.writeProgram offset value
      else pure s.gsSetup
    pure ({ s with vsSetup := vsSetup, gsSetup := gsSetup }.setReg
      (PicaReg.vs + PicaReg.programOffset) (u32 (offset + 1)))

/-- Write a swizzle pattern of the vertex shader; the geometry shader may share it.
SOURCE: pica_core.cpp:1831-1855 -/
def writeVsSwizzle (s : PicaCore) (value : ℕ) : Exec PicaCore := do
  let offset := s.reg (PicaReg.vs + PicaReg.swizzleOffset)
  if 4096 ≤ offset then pure s
  else do
    let vsSetup ← s.vsSetup.writeSwizzle offset value
    let gsSetup ← if s.sharesConfiguration then s.gsSetup.writeSwizzle offset value
      else pure s.gsSetup
    pure ({ s with vsSetup := vsSetup, gsSetup := gsSetup }.setReg
      (PicaReg.vs + PicaReg.swizzleOffset) (u32 (offset + 1)))

/-- What writing a register does beyond its new value.
SOURCE: pica_core.cpp:1461-1941 -/
def registerEffect (s : PicaCore) (value : ℕ) : RegisterCase → Exec PicaCore
  | .triggerIrq => pure (s.emit .signalInterrupt)
  | .triangleTopology =>
      pure (s.emit (.reconfigureAssembler (bitField 8 2 (s.reg PicaReg.triangleTopology))))
  | .restartPrimitive => pure (s.emit .resetAssembler)
  | .defaultAttributeIndex => pure { s with immediate := s.immediate.reset }
  | .defaultAttributeValue => s.submitImmediate render value
  | .commandBufferTrigger index =>
      let addr := 8 * bitField 0 28 (s.reg (PicaReg.commandBufferAddr + index))
      let size := 8 * bitField 0 20 (s.reg (PicaReg.commandBufferSize + index))
      pure (s.resetCmdList addr size)
  | .triggerDraw isIndexed => pure (s.draw render (.drawArrays isIndexed))
  | .gsBoolUniforms =>
      let bits := bitField 0 16 (s.reg (PicaReg.gs + PicaReg.boolUniforms))
      pure { s with gsSetup := s.gsSetup.writeUniformBoolReg bits }
  | .gsIntUniforms index => do
      let gsSetup ← s.gsSetup.writeUniformIntReg index (s.getIntUniform PicaReg.gs index)
      pure { s with gsSetup := gsSetup }
  | .gsUniformValue => do
      let (_, gsSetup, s) ← s.writeUniformFloatReg s.gsSetup PicaReg.gs value
      pure { s with gsSetup := gsSetup }
  | .gsProgramWord => do
      let offset := s.reg (PicaReg.gs + PicaReg.programOffset)
      if 4096 ≤ offset then pure s
      else do
        let gsSetup ← s.gsSetup.writeProgram offset value
        pure ({ s with gsSetup := gsSetup }.setReg (PicaReg.gs + PicaReg.programOffset)
          (u32 (offset + 1)))
  | .gsSwizzleWord => do
      let offset := s.reg (PicaReg.gs + PicaReg.swizzleOffset)
      if 4096 ≤ offset then pure s
      else do
        let gsSetup ← s.gsSetup.writeSwizzle offset value
        pure ({ s with gsSetup := gsSetup }.setReg (PicaReg.gs + PicaReg.swizzleOffset)
          (u32 (offset + 1)))
  | .vsOutputMask =>
      if s.sharesConfiguration then
        pure (s.assignReg (PicaReg.gs + PicaReg.outputMask) 0 16 value)
      else pure s
  | .vsBoolUniforms =>
      let bits := bitField 0 16 (s.reg (PicaReg.vs + PicaReg.boolUniforms))
      let s := { s with vsSetup := s.vsSetup.writeUniformBoolReg bits }
      if s.sharesConfiguration then
        pure { s with gsSetup := s.gsSetup.writeUniformBoolReg bits }
      else pure s
  | .vsIntUniforms index => do
      let values := s.getIntUniform PicaReg.vs index
      let vsSetup ← s.vsSetup.writeUniformIntReg index values
      let gsSetup ← if s.sharesConfiguration then s.gsSetup.writeUniformIntReg index values
        else pure s.gsSetup
      pure { s with vsSetup := vsSetup, gsSetup := gsSetup }
  | .vsUniformValue => do
      let (index, vsSetup, s) ← s.writeUniformFloatReg s.vsSetup PicaReg.vs value
      let s := { s with vsSetup := vsSetup }
      match index with
      | some index =>
          if s.sharesConfiguration then do
            let gsSetup ← s.gsSetup.writeUniform index (Table.read vsSetup.uniforms.f index)
            pure { s with gsSetup := gsSetup }
          else pure s
      | none => pure s
  | .vsProgramWord => s.writeVsProgram value
  | .vsSwizzleWord => s.writeVsSwizzle value
  | .lutData => s.writeLightingLut value
  | .fogLutData => s.writeFogLut value
  | .proctexLutData => s.writeProcTexLut value
  | .other => pure s

/-- `ExpandBitsToBytes`: a 4-bit mask as a mask of bytes. -/
def expandBitsToBytes (mask : ℕ) : ℕ :=
  (if mask.testBit 0 then 0xff else 0) + (if mask.testBit 1 then 0xff00 else 0) +
    (if mask.testBit 2 then 0xff0000 else 0) + (if mask.testBit 3 then 0xff000000 else 0)

/-- `WriteInternalReg`.
SOURCE: pica_core.cpp:1399-1944 -/
def writeInternalReg (s : PicaCore) (id value mask : ℕ) : Exec PicaCore := do
  if NUM_REGS ≤ id then pure s
  else do
    let writeMask := expandBitsToBytes mask
    let s := s.setReg id ((s.reg id &&& (0xffffffff ^^^ writeMask)) ||| (value &&& writeMask))
    let s ← s.registerEffect render value (registerCase id)
    pure (s.emit (.registerChanged id))

end Draw

/-- `cmd_list.head[cmd_list.current_index++]`. A word that is not one of the list is a fault. -/
def nextWord (s : PicaCore) : Exec (ℕ × PicaCore) :=
  match s.cmdList.head with
  | none => .error .undefined
  | some head =>
      if s.cmdList.currentIndex < s.cmdList.length then
        pure ((s.memory.word (head + 4 * s.cmdList.currentIndex)).toNat,
          { s with cmdList := { s.cmdList with currentIndex := s.cmdList.currentIndex + 1 } })
      else .error .undefined

end PicaCore

/-! ## Command lists -/

/-- The fields of `CommandHeader`.
SOURCE: pica_core.cpp:135-142 -/
structure CommandHeader where
  hex : ℕ

namespace CommandHeader

def cmdId (h : CommandHeader) : ℕ := bitField 0 16 h.hex
def parameterMask (h : CommandHeader) : ℕ := bitField 16 4 h.hex
def extraDataLength (h : CommandHeader) : ℕ := bitField 20 8 h.hex
def groupCommands (h : CommandHeader) : Bool := decide (bitField 31 1 h.hex = 1)

end CommandHeader

/-- The command processor, and where its loops are: at a command, or at the extra words of one of
which so many have been written. -/
structure CommandLoop where
  core : PicaCore
  extra : Option (CommandHeader × ℕ)

namespace CommandLoop

/-- The command processor as it is made.
SOURCE: pica_core.cpp:1166-1194 -/
def init (memory : PhysicalMemory) : CommandLoop :=
  let zero : Vec4 F24 := ⟨.fromRaw 0, .fromRaw 0, .fromRaw 0, .fromRaw 0⟩
  let queue : PackedAttribute := ⟨fun _ => 0, 0⟩
  let setup : ShaderSetup :=
    { uniforms := ⟨fun _ => zero, fun _ => false, fun _ => ⟨0, 0, 0, 0⟩⟩
      uniformQueue := queue
      programCode := fun _ => 0
      swizzleData := fun _ => 0 }
  { core :=
      { memory := memory
        regs := fun i => if i.val = PicaReg.gs + PicaReg.inputBufferConfig then 0xa0000001 else 0
        vsSetup := setup
        gsSetup := setup
        proctex := ⟨fun _ => 0, fun _ => 0, fun _ => 0, fun _ => 0, fun _ => 0⟩
        lightingLuts := fun _ _ => 0
        fogLut := fun _ => 0
        inputDefaultAttributes := fun _ => zero
        immediate := ⟨fun _ => zero, 0, true, queue⟩
        cmdList := ⟨0, none, 0, 0⟩
        events := [] }
    extra := none }

/-- Both loops are over. -/
def Finished (l : CommandLoop) : Prop :=
  l.extra = none ∧ l.core.cmdList.length ≤ l.core.cmdList.currentIndex

instance (l : CommandLoop) : Decidable l.Finished :=
  decidable_of_iff (l.extra.isNone = true ∧ l.core.cmdList.length ≤ l.core.cmdList.currentIndex)
    (by rw [Option.isNone_iff_eq_none]; exact Iff.rfl)

variable (render : PicaEvent → PicaCore → Rendered)

/-- The read pointer of a command is aligned to eight bytes. -/
def alignReadPointer (s : PicaCore) : PicaCore :=
  if s.cmdList.currentIndex % 2 ≠ 0 then
    { s with cmdList := { s.cmdList with currentIndex := s.cmdList.currentIndex + 1 } }
  else s

/-- A round of one of the loops: the two words of a command, or an extra word.
SOURCE: pica_core.cpp:1286-1376 -/
def pass (l : CommandLoop) : Exec CommandLoop :=
  match l.extra with
  | none => do
      let (value, s) ← (alignReadPointer l.core).nextWord
      let (hex, s) ← s.nextWord
      let header : CommandHeader := ⟨hex⟩
      let s ← s.writeInternalReg render header.cmdId value header.parameterMask
      pure { core := s, extra := if 0 < header.extraDataLength then some (header, 0) else none }
  | some (header, i) => do
      let cmd := header.cmdId + if header.groupCommands then i + 1 else 0
      let (extraValue, s) ← l.core.nextWord
      let s ← s.writeInternalReg render cmd extraValue header.parameterMask
      pure { core := s, extra := if i + 1 < header.extraDataLength then some (header, i + 1)
        else none }

/-- `ProcessCmdList` up to its loop.
SOURCE: pica_core.cpp:1204-1284 -/
def begin (s : PicaCore) (list size : ℕ) (ignoreList : Bool) : CommandLoop :=
  if ignoreList then { core := s.emit .signalInterrupt, extra := none }
  else { core := s.resetCmdList list size, extra := none }

end CommandLoop

end Borked3DS.Model
