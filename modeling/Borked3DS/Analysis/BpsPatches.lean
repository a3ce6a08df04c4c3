import Borked3DS.Analysis.BpsCommands

/-!
# Applying a BPS patch

The loop over the commands carries the meaning of the actions that are read so far; around it stand
the header and the checksums. A patch is applied within its bounds exactly when it has room for
what is read unchecked and no action that is reached escapes.
-/

set_option autoImplicit false

namespace Borked3DS.Analysis

open Borked3DS.Library Borked3DS.Model Borked3DS.Model.Bps Borked3DS.Interface

section Loop

variable {source patch rest : List UInt8} {a : PatchApplier} {s : BpsState}

/-- An action takes at least a byte. -/
theorem decodeAction_length {action : BpsAction} {mid : List UInt8} (hrest : rest ≠ [])
    (hhead : decodeAction rest = some (action, mid)) : mid.length < rest.length := by
  have hpos := List.length_pos_of_ne_nil hrest
  have hnumber := length_numberRest rest
  have hsecond := length_numberRest (numberRest rest)
  unfold decodeAction decodeNumber at hhead
  dsimp only at hhead
  split at hhead
  · cases hhead
    omega
  · split at hhead
    · cases hhead
      rw [List.length_drop]
      omega
    · cases hhead
  · cases hhead
    omega
  · cases hhead
    omega

/-- No action that is reached from a state escapes. -/
def NoneEscapes (source : List UInt8) (s : BpsState) (bytes : List UInt8) : Prop :=
  ∀ actions action rest s', ReadsActions bytes (actions ++ [action]) rest →
    performAll source source.length s actions = some s' → ¬ action.Escapes source.length s'

theorem performAll_cons {source : List UInt8} {size : ℕ} {s s' : BpsState} {action : BpsAction}
    (actions : List BpsAction) (h : action.perform source size s = some s') :
    performAll source size s (action :: actions) = performAll source size s' actions := by
  unfold performAll
  rw [List.foldlM_cons, h]
  rfl

/-- The loop goes on as long as the unread bytes hold more than the footer. -/
theorem offset_lt_iff (h : Represents source patch a s rest) (hfooter : FooterSize ≤ patch.length) :
    a.patch.offset < patch.length - FooterSize ↔ FooterSize < rest.length := by
  have hoffset := offset_eq a.patch
  have hle : (unread a.patch).length ≤ patch.length := by
    rw [length_unread, h.patch_data]
    omega
  rw [h.patch_data, h.unread_patch] at hoffset
  rw [h.unread_patch] at hle
  omega

/-- A loop that meets no escaping action ends; if it succeeds, with the meaning of the actions. The
induction is on the fuel, of which every action takes some. -/
theorem handleCommands_safe {fuel : ℕ} (hsource : source.length < 2 ^ 63)
    (hpatch : patch.length < 2 ^ 63) (hfooter : FooterSize ≤ patch.length)
    (h : Represents source patch a s rest) (hfuel : rest.length < fuel)
    (hsafe : NoneEscapes source s rest) :
    ∃ ok a', a.handleCommands (patch.length - FooterSize) fuel = .ok (ok, a') ∧
      (ok = true → ∃ actions rest' s', ReadsActions rest actions rest' ∧
        rest'.length ≤ FooterSize ∧ performAll source source.length s actions = some s' ∧
        Represents source patch a' s' rest') := by
  induction fuel generalizing a s rest with
  | zero => omega
  | succ fuel ih =>
      rw [PatchApplier.handleCommands]
      by_cases hmore : FooterSize < rest.length
      · rw [if_pos ((offset_lt_iff h hfooter).mpr hmore)]
        have hturn := handleCommand_handles h hsource hpatch fun action mid hhead =>
          hsafe [] action mid s (.cons hmore hhead (.nil mid)) rfl
        cases hhead : decodeAction rest with
        | none =>
            unfold nextState at hturn
            rw [hhead] at hturn
            obtain ⟨a', ha'⟩ := hturn
            rw [ha', ok_bind]
            exact ⟨false, a', rfl, fun hfalse => nomatch hfalse⟩
        | some next =>
            obtain ⟨action, mid⟩ := next
            rw [nextState_of_decode hhead] at hturn
            cases hperform : action.perform source source.length s with
            | none =>
                rw [hperform] at hturn
                obtain ⟨a', ha'⟩ := hturn
                rw [ha', ok_bind]
                exact ⟨false, a', rfl, fun hfalse => nomatch hfalse⟩
            | some s' =>
                rw [hperform] at hturn
                obtain ⟨a', ha', hnext⟩ := hturn
                have hshorter : mid.length < rest.length :=
                  decodeAction_length (by rintro rfl; cases hmore) hhead
                have hsafe' : NoneEscapes source s' mid := by
                  intro actions last rest' s'' hreads hall
                  apply hsafe (action :: actions) last rest' s'' (.cons hmore hhead hreads)
                  rw [performAll_cons actions hperform]
                  exact hall
                obtain ⟨ok, a'', hloop, hdone⟩ := ih hnext (by omega) hsafe'
                rw [ha', ok_bind]
                dsimp only
                rw [if_pos rfl]
                refine ⟨ok, a'', hloop, ?_⟩
                intro hok
                obtain ⟨actions, rest', s'', hreads, hend, hall, hrep⟩ := hdone hok
                refine ⟨action :: actions, rest', s'', .cons hmore hhead hreads, hend, ?_, hrep⟩
                rw [performAll_cons actions hperform]
                exact hall
      · rw [if_neg (fun hc => hmore ((offset_lt_iff h hfooter).mp hc))]
        exact ⟨true, a, rfl, fun _ =>
          ⟨[], rest, s, .nil rest, Nat.le_of_not_lt hmore, rfl, h⟩⟩

/-- A loop that reaches an escaping action faults. The induction is on the actions before it. -/
theorem handleCommands_fault {fuel : ℕ} {actions : List BpsAction} {action : BpsAction}
    {rest' : List UInt8} {s' : BpsState} (hsource : source.length < 2 ^ 63)
    (hpatch : patch.length < 2 ^ 63) (hfooter : FooterSize ≤ patch.length)
    (h : Represents source patch a s rest) (hfuel : rest.length < fuel)
    (hreads : ReadsActions rest (actions ++ [action]) rest')
    (hall : performAll source source.length s actions = some s')
    (hescape : action.Escapes source.length s') :
    a.handleCommands (patch.length - FooterSize) fuel = .error .undefined := by
  induction actions generalizing a s rest fuel with
  | nil =>
      cases hall
      cases hreads with
      | cons hmore hhead htail =>
          cases fuel with
          | zero => omega
          | succ fuel =>
              rw [PatchApplier.handleCommands, if_pos ((offset_lt_iff h hfooter).mpr hmore),
                handleCommand_fault h hsource hpatch hhead hescape]
              rfl
  | cons first actions ih =>
      cases hreads with
      | @cons _ mid _ _ _ hmore hhead htail =>
          cases fuel with
          | zero => omega
          | succ fuel =>
              rw [PatchApplier.handleCommands, if_pos ((offset_lt_iff h hfooter).mpr hmore)]
              by_cases hfirst : first.Escapes source.length s
              · rw [handleCommand_fault h hsource hpatch hhead hfirst]
                rfl
              · have hturn := handleCommand_handles h hsource hpatch fun other mid' hother => by
                  rw [hhead] at hother
                  cases hother
                  exact hfirst
                rw [nextState_of_decode hhead] at hturn
                cases hperform : first.perform source source.length s with
                | none =>
                    unfold performAll at hall
                    rw [List.foldlM_cons, hperform] at hall
                    cases hall
                | some s₁ =>
                    rw [hperform] at hturn
                    obtain ⟨a', ha', hnext⟩ := hturn
                    have hshorter : mid.length < rest.length :=
                      decodeAction_length (by rintro rfl; cases hmore) hhead
                    rw [performAll_cons actions hperform] at hall
                    rw [ha', ok_bind]
                    dsimp only
                    rw [if_pos rfl]
                    exact ih hnext (by omega) htail hall

end Loop

section Header

variable {crc32 : List UInt8 → ℕ} {patch source : List UInt8}

/-- A stream behind the magic of a patch reads the three numbers of its header. -/
theorem readHeader_eq {p : Stream} (hpatch : patch.length < 2 ^ 63) (hdata : p.data = patch)
    (hunread : unread p = patch.drop MagicSize) :
    ∃ p₁ p₂ p₃, p.readNumber = .ok ((readHeader patch).sourceSize, p₁) ∧
      p₁.readNumber = .ok ((readHeader patch).targetSize, p₂) ∧
      p₂.readNumber = .ok ((readHeader patch).metadataSize, p₃) ∧
      p₁.data = patch ∧ p₂.data = patch ∧ p₃.data = patch ∧
      unread p₃ = (readHeader patch).body := by
  have holds : ∀ {t : Stream}, t.data = patch → Holds t := by
    intro t ht
    unfold Holds
    rw [ht]
    exact hpatch
  obtain ⟨p₁, hread₁, hdata₁, hunread₁⟩ := readNumber_eq (holds hdata)
  obtain ⟨p₂, hread₂, hdata₂, hunread₂⟩ := readNumber_eq (holds (hdata₁.trans hdata))
  obtain ⟨p₃, hread₃, hdata₃, hunread₃⟩ :=
    readNumber_eq (holds (hdata₂.trans (hdata₁.trans hdata)))
  rw [hunread] at hread₁ hunread₁
  rw [hunread₁] at hread₂ hunread₂
  rw [hunread₂] at hread₃ hunread₃
  exact ⟨p₁, p₂, p₃, hread₁, hread₂, hread₃, hdata₁.trans hdata,
    hdata₂.trans (hdata₁.trans hdata), hdata₃.trans (hdata₂.trans (hdata₁.trans hdata)), hunread₃⟩

/-- The header takes seven bytes, or all of a shorter patch. -/
theorem length_body (patch : List UInt8) : (readHeader patch).body.length ≤ patch.length - 7 := by
  have h₁ := length_numberRest (patch.drop MagicSize)
  have h₂ := length_numberRest (numberRest (patch.drop MagicSize))
  have h₃ := length_numberRest (numberRest (numberRest (patch.drop MagicSize)))
  rw [List.length_drop] at h₁
  unfold MagicSize at *
  show (numberRest (numberRest (numberRest (patch.drop 4)))).length ≤ _
  omega

/-- The applier that `ApplyBpsPatch` makes. -/
def applierOf (source patch : List UInt8) : PatchApplier :=
  { source := Stream.ofBytes source, target := Stream.ofBytes source,
    patch := Stream.ofBytes patch }

/-- A header as `Apply` checks it, against the buffer it works on. -/
def Accepts (source patch : List UInt8) : Prop :=
  (readHeader patch).sourceSize ≤ source.length ∧ (readHeader patch).targetSize ≤ source.length ∧
    (readHeader patch).metadataSize = 0

/-- A patch without room for a magic. -/
theorem apply_short (hshort : patch.length < MagicSize) :
    (applierOf source patch).apply crc32 = .error .undefined := by
  unfold MagicSize at hshort
  have hholds : Holds (Stream.ofBytes patch) := by
    show patch.length < 2 ^ 63
    omega
  have hread : (Stream.ofBytes patch).read MagicSize = .ok (none, Stream.ofBytes patch) :=
    read_of_lt hholds (by decide) (by rw [length_unread]; exact hshort)
  unfold PatchApplier.apply applierOf
  dsimp only
  rw [hread]
  rfl

theorem readMagic (hpatch : patch.length < 2 ^ 63) (hlong : MagicSize ≤ patch.length) :
    ∃ p, (Stream.ofBytes patch).read MagicSize = .ok (some (patch.take MagicSize), p) ∧
      p.data = patch ∧ unread p = patch.drop MagicSize := by
  obtain ⟨p, hread, hdata, hunread⟩ := read_of_le (s := Stream.ofBytes patch) (n := MagicSize) hpatch
    (by decide) (by rw [length_unread]; exact hlong)
  exact ⟨p, hread, hdata, hunread⟩

theorem apply_magic (crc32 : List UInt8 → ℕ) (source : List UInt8) (hpatch : patch.length < 2 ^ 63) (hlong : MagicSize ≤ patch.length)
    (hmagic : patch.take MagicSize ≠ bpsMagic) :
    ∃ a, (applierOf source patch).apply crc32 = .ok (false, a) := by
  obtain ⟨p, hread, -, -⟩ := readMagic hpatch hlong
  unfold PatchApplier.apply applierOf
  dsimp only
  rw [hread, ok_bind]
  dsimp only
  rw [deref_some, ok_bind, if_pos hmagic]
  exact ⟨_, rfl⟩

theorem apply_rejected (crc32 : List UInt8 → ℕ) (hpatch : patch.length < 2 ^ 63) (hlong : MagicSize ≤ patch.length)
    (hmagic : patch.take MagicSize = bpsMagic) (hsizes : ¬ Accepts source patch) :
    ∃ a, (applierOf source patch).apply crc32 = .ok (false, a) := by
  obtain ⟨p, hread, hdata, hunread⟩ := readMagic hpatch hlong
  obtain ⟨p₁, p₂, p₃, hread₁, hread₂, hread₃, -, -, -, -⟩ := readHeader_eq hpatch hdata hunread
  have hcheck : (Stream.ofBytes source).size < (readHeader patch).sourceSize ∨
      (Stream.ofBytes source).size < (readHeader patch).targetSize ∨
      (readHeader patch).metadataSize ≠ 0 := by
    unfold Accepts at hsizes
    show source.length < _ ∨ source.length < _ ∨ _
    omega
  unfold PatchApplier.apply applierOf
  dsimp only
  rw [hread, ok_bind]
  dsimp only
  rw [deref_some, ok_bind, if_neg (fun h => h hmagic), hread₁, ok_bind]
  dsimp only
  rw [hread₂, ok_bind]
  dsimp only
  rw [hread₃, ok_bind]
  dsimp only
  rw [if_pos hcheck]
  exact ⟨_, rfl⟩

/-- An accepted header in a patch without room for a footer: the seek to it fails, and the second
checksum is not there. -/
theorem apply_noFooter (hlong : MagicSize ≤ patch.length) (hshort : patch.length < FooterSize)
    (hmagic : patch.take MagicSize = bpsMagic) (hsizes : Accepts source patch) :
    (applierOf source patch).apply crc32 = .error .undefined := by
  have hpatch : patch.length < 2 ^ 63 := by
    unfold FooterSize at hshort
    omega
  obtain ⟨p, hread, hdata, hunread⟩ := readMagic hpatch hlong
  obtain ⟨p₁, p₂, p₃, hread₁, hread₂, hread₃, -, -, hdata₃, hbody⟩ :=
    readHeader_eq hpatch hdata hunread
  have hlen := length_body patch
  have hholds : Holds p₃ := by
    unfold Holds
    rw [hdata₃]
    exact hpatch
  have hcheck : ¬ ((Stream.ofBytes source).size < (readHeader patch).sourceSize ∨
      (Stream.ofBytes source).size < (readHeader patch).targetSize ∨
      (readHeader patch).metadataSize ≠ 0) := by
    unfold Accepts at hsizes
    show ¬ (source.length < _ ∨ source.length < _ ∨ _)
    omega
  have hseek : p₃.seek (u64Sub p₃.size FooterSize) = (false, p₃) := by
    apply seek_of_lt
    unfold Stream.size
    rw [hdata₃, u64Sub_of_lt hshort]
    unfold FooterSize at hshort ⊢
    omega
  unfold FooterSize at hshort
  unfold PatchApplier.apply applierOf
  dsimp only
  rw [hread, ok_bind]
  dsimp only
  rw [deref_some, ok_bind, if_neg (fun h => h hmagic), hread₁, ok_bind]
  dsimp only
  rw [hread₂, ok_bind]
  dsimp only
  rw [hread₃, ok_bind]
  dsimp only
  rw [if_neg hcheck, hseek]
  dsimp only
  by_cases hfirst : 4 ≤ (unread p₃).length
  · obtain ⟨t, hcrc, htdata, htrest⟩ := readU32_of_le hholds hfirst
    have htholds : Holds t := by
      unfold Holds
      rw [htdata]
      exact hholds
    have hnone : t.readU32 = .ok (none, t) := by
      apply readU32_of_lt htholds
      rw [htrest, List.length_drop, hbody]
      omega
    rw [hcrc, ok_bind]
    dsimp only
    rw [deref_some, ok_bind, hnone, ok_bind]
    rfl
  · rw [readU32_of_lt hholds (by omega), ok_bind]
    rfl

/-- The commands and the check of the target behind them. -/
def commandsAndCheck (crc32 : List UInt8 → ℕ) (patch : List UInt8) (targetCrc32 : ℕ)
    (a : PatchApplier) : Exec (Bool × PatchApplier) := do
  let (ok, a) ← a.handleCommands (patch.length - FooterSize) (patch.length + 1)
  if ok then
    let targetBytes ← readRun .undefined a.target.data 0 (readHeader patch).targetSize
    pure (decide (crc32 targetBytes = targetCrc32), a)
  else pure (false, a)

/-- With an accepted header and a footer, `Apply` goes to the commands if the source is the one the
patch is for. -/
theorem apply_commands (crc32 : List UInt8 → ℕ) (hpatch : patch.length < 2 ^ 63)
    (hfooter : FooterSize ≤ patch.length) (hmagic : patch.take MagicSize = bpsMagic)
    (hsizes : Accepts source patch) :
    ∃ p targetCrc32, Represents source patch
        { applierOf source patch with patch := p, target := (Stream.ofBytes source).clear } {}
        (readHeader patch).body ∧
      (applierOf source patch).apply crc32 =
        if crc32 (source.take (readHeader patch).sourceSize) ≠ footerSourceCrc patch then
          .ok (false, { applierOf source patch with patch := p })
        else commandsAndCheck crc32 patch targetCrc32
          { applierOf source patch with patch := p, target := (Stream.ofBytes source).clear } := by
  have hlong : MagicSize ≤ patch.length := Nat.le_trans (by decide) hfooter
  obtain ⟨p, hread, hdata, hunread⟩ := readMagic hpatch hlong
  obtain ⟨p₁, p₂, p₃, hread₁, hread₂, hread₃, -, -, hdata₃, hbody⟩ :=
    readHeader_eq hpatch hdata hunread
  have hcheck : ¬ ((Stream.ofBytes source).size < (readHeader patch).sourceSize ∨
      (Stream.ofBytes source).size < (readHeader patch).targetSize ∨
      (readHeader patch).metadataSize ≠ 0) := by
    unfold Accepts at hsizes
    show ¬ (source.length < _ ∨ source.length < _ ∨ _)
    omega
  have hend : u64Sub p₃.size FooterSize = patch.length - FooterSize := by
    unfold Stream.size
    rw [hdata₃]
    exact u64Sub_of_le hfooter (by omega)
  obtain ⟨t, hseek, htdata, htrest, -⟩ :=
    seek_of_le (s := p₃) (n := patch.length - FooterSize) (by rw [hdata₃]; omega)
  rw [hdata₃] at htdata htrest
  have hleft : (unread t).length = FooterSize := by
    rw [htrest, List.length_drop]
    omega
  have htholds : Holds t := by
    unfold Holds
    rw [htdata]
    exact hpatch
  obtain ⟨t', hcrc, htdata', htrest'⟩ := readU32_of_le htholds (by rw [hleft]; decide)
  have htholds' : Holds t' := by
    unfold Holds
    rw [htdata', htdata]
    exact hpatch
  obtain ⟨t'', hcrc', htdata'', -⟩ := readU32_of_le htholds'
    (by rw [htrest', List.length_drop, hleft]; decide)
  have hdata'' : t''.data = patch := htdata''.trans (htdata'.trans htdata)
  have hstart : p₃.offset ≤ t''.data.length := by
    rw [hdata'', ← hdata₃]
    exact p₃.offset_le
  obtain ⟨q, hback, hqdata, hqrest, -⟩ := seek_of_le hstart
  have hqbody : unread q = (readHeader patch).body := by
    rw [hqrest, hdata'', ← hbody]
    unfold unread
    rw [hdata₃]
  have hbytes : readRun Fault.undefined source 0 (readHeader patch).sourceSize =
      .ok (source.take (readHeader patch).sourceSize) :=
    if_pos (by rw [Nat.zero_add]; exact hsizes.1)
  have hqsize : q.size = patch.length := by
    unfold Stream.size
    rw [hqdata, hdata'']
  refine ⟨q, ofLittleEndian ((unread t').take 4), ?_, ?_⟩
  · exact
      { source_data := rfl
        patch_data := hqdata.trans hdata''
        unread_patch := hqbody
        out_le := Nat.zero_le _
        target_data := rfl
        target_offset := rfl
        source_copy := rfl
        target_copy := rfl
        sourceOffset_le := Nat.zero_le _
        targetOffset_le := Nat.zero_le _ }
  · unfold PatchApplier.apply applierOf
    dsimp only
    rw [hread, ok_bind]
    dsimp only
    rw [deref_some, ok_bind, if_neg (fun h => h hmagic), hread₁, ok_bind]
    dsimp only
    rw [hread₂, ok_bind]
    dsimp only
    rw [hread₃, ok_bind]
    dsimp only
    rw [if_neg hcheck, hend, hseek]
    dsimp only
    rw [hcrc, ok_bind]
    dsimp only
    rw [deref_some, ok_bind, hcrc', ok_bind]
    dsimp only
    rw [deref_some, ok_bind, hback]
    dsimp only
    rw [hqsize]
    unfold Stream.ofBytes
    dsimp only
    rw [hbytes, ok_bind, htrest]
    rfl

end Header

section Patch

variable {crc32 : List UInt8 → ℕ} {patch buffer : List UInt8}

/-- The patcher starts over at the head of the patch, on a buffer made large enough. -/
theorem applyBpsPatch_eq (crc32 : List UInt8 → ℕ) (buffer : List UInt8) (hpatch : patch.length < 2 ^ 63) :
    ∃ source, (MagicSize ≤ patch.length → source = bpsSource patch buffer) ∧
      applyBpsPatch crc32 patch buffer =
        ((applierOf source patch).apply crc32 >>= fun r => .ok (r.1, r.2.target.data)) := by
  have finish : ∀ {t : Stream}, t.data = patch → (t.seek 0).2 = Stream.ofBytes patch := by
    intro t ht
    obtain ⟨q, hseek, hdata, hrest, -⟩ := seek_of_le (s := t) (Nat.zero_le _)
    rw [hseek]
    apply stream_ext (hdata.trans ht)
    rw [hrest, ht]
    rfl
  rcases Nat.lt_or_ge patch.length MagicSize with hshort | hlong
  · have hseek : (Stream.ofBytes patch).seek MagicSize = (false, Stream.ofBytes patch) :=
      seek_of_lt hshort
    obtain ⟨p₁, hread₁, hdata₁, -⟩ := readNumber_eq (s := Stream.ofBytes patch) hpatch
    have hholds : Holds p₁ := by
      unfold Holds
      rw [hdata₁]
      exact hpatch
    obtain ⟨p₂, hread₂, hdata₂, -⟩ := readNumber_eq hholds
    refine ⟨if (decodeNumber (unread (Stream.ofBytes patch))).1 < (decodeNumber (unread p₁)).1
        then resize buffer (decodeNumber (unread p₁)).1 else buffer,
      fun hlong => absurd hlong (Nat.not_le.mpr hshort), ?_⟩
    unfold applyBpsPatch
    rw [hseek]
    dsimp only
    rw [hread₁, ok_bind]
    dsimp only
    rw [hread₂, ok_bind]
    dsimp only
    rw [finish (hdata₂.trans hdata₁)]
    rfl
  · obtain ⟨t, hseek, hdata, hrest, -⟩ := seek_of_le (s := Stream.ofBytes patch) hlong
    obtain ⟨p₁, p₂, p₃, hread₁, hread₂, -, -, hdata₂, -, -⟩ := readHeader_eq hpatch hdata hrest
    refine ⟨bpsSource patch buffer, fun _ => rfl, ?_⟩
    unfold applyBpsPatch
    rw [hseek]
    dsimp only
    rw [hread₁, ok_bind]
    dsimp only
    rw [hread₂, ok_bind]
    dsimp only
    rw [finish hdata₂]
    rfl

theorem length_bpsSource (hbuffer : buffer.length < 2 ^ 63) :
    (bpsSource patch buffer).length < 2 ^ 63 := by
  have htarget : (readHeader patch).targetSize < 2 ^ 32 := decodeNumber_lt _
  unfold bpsSource
  split
  · unfold resize
    rw [List.length_append, List.length_take, List.length_replicate]
    omega
  · exact hbuffer

theorem headerAccepted_iff :
    HeaderAccepted patch buffer ↔
      patch.take MagicSize = bpsMagic ∧ Accepts (bpsSource patch buffer) patch :=
  Iff.rfl

/-- A patch is applied without an access out of bounds, and with the target its actions mean,
exactly when it is readable. -/
theorem appliesBps_iff (crc32 : List UInt8 → ℕ) (patch buffer : List UInt8)
    (hpatch : patch.length < 2 ^ 63) (hbuffer : buffer.length < 2 ^ 63) :
    AppliesBps crc32 patch buffer ↔ BpsReadable crc32 patch buffer := by
  obtain ⟨source, hsource, happly⟩ :=
    applyBpsPatch_eq crc32 buffer hpatch
  unfold AppliesBps BpsReadable
  rw [happly]
  rcases Nat.lt_or_ge patch.length MagicSize with hshort | hlong
  · rw [apply_short hshort]
    constructor
    · rintro ⟨success, result, hrun, -⟩
      cases hrun
    · rintro ⟨hlong, -⟩
      omega
  · rw [hsource hlong, headerAccepted_iff]
    have hbound : (bpsSource patch buffer).length < 2 ^ 63 := length_bpsSource hbuffer
    generalize bpsSource patch buffer = source at hbound ⊢
    have failing : ∀ {a : PatchApplier}, (applierOf source patch).apply crc32 = .ok (false, a) →
        ∃ success result, ((applierOf source patch).apply crc32 >>= fun r =>
          (.ok (r.1, r.2.target.data) : Exec (Bool × List UInt8))) = .ok (success, result) ∧
            (success = true → ∃ actions rest s,
              ReadsActions (readHeader patch).body actions rest ∧ rest.length ≤ FooterSize ∧
              performAll source source.length {} actions = some s ∧
              result = s.out ++ List.replicate (source.length - s.out.length) 0) := by
      intro a ha
      exact ⟨false, a.target.data, by rw [ha]; rfl, fun hfalse => nomatch hfalse⟩
    by_cases hmagic : patch.take MagicSize = bpsMagic
    · by_cases hsizes : Accepts source patch
      · rcases Nat.lt_or_ge patch.length FooterSize with hnofooter | hfooter
        · rw [apply_noFooter hlong hnofooter hmagic hsizes]
          constructor
          · rintro ⟨success, result, hrun, -⟩
            cases hrun
          · rintro ⟨-, hfooter⟩
            have hroom := (hfooter ⟨hmagic, hsizes⟩).1
            omega
        · obtain ⟨p, targetCrc32, hrep, hrun⟩ :=
            apply_commands crc32 hpatch hfooter hmagic hsizes
          by_cases hcrc : crc32 (source.take (readHeader patch).sourceSize) = footerSourceCrc patch
          · rw [hrun, if_neg (fun h => h hcrc)]
            have hfuel : (readHeader patch).body.length < patch.length + 1 := by
              have hbody := length_body patch
              omega
            unfold commandsAndCheck
            constructor
            · rintro ⟨success, result, hdone, -⟩
              refine ⟨hlong, fun _ => ⟨hfooter, fun _ actions action rest s hreads hall hescape =>
                ?_⟩⟩
              rw [handleCommands_fault hbound hpatch hfooter hrep hfuel hreads hall hescape] at hdone
              cases hdone
            · rintro ⟨-, hsafe⟩
              obtain ⟨ok, a, hloop, hmeaning⟩ := handleCommands_safe hbound hpatch hfooter hrep
                hfuel ((hsafe ⟨hmagic, hsizes⟩).2 hcrc)
              rw [hloop, ok_bind]
              cases ok with
              | false => exact ⟨false, a.target.data, rfl, fun hfalse => nomatch hfalse⟩
              | true =>
                  obtain ⟨actions, rest, s, hreads, hend, hall, hfinal⟩ := hmeaning rfl
                  have hbytes : readRun Fault.undefined a.target.data 0
                      (readHeader patch).targetSize =
                        .ok (a.target.data.take (readHeader patch).targetSize) :=
                    if_pos (by rw [Nat.zero_add, hfinal.length_target]; exact hsizes.2.1)
                  dsimp only
                  rw [if_pos rfl, hbytes]
                  exact ⟨_, _, rfl, fun _ =>
                    ⟨actions, rest, s, hreads, hend, hall, hfinal.target_data⟩⟩
          · rw [if_pos hcrc] at hrun
            constructor
            · intro _
              exact ⟨hlong, fun _ => ⟨hfooter, fun h => absurd h hcrc⟩⟩
            · intro _
              exact failing hrun
      · obtain ⟨a, ha⟩ := apply_rejected crc32 hpatch hlong hmagic hsizes
        constructor
        · intro _
          exact ⟨hlong, fun h => absurd h.2 hsizes⟩
        · intro _
          exact failing ha
    · obtain ⟨a, ha⟩ := apply_magic crc32 source hpatch hlong hmagic
      constructor
      · intro _
        exact ⟨hlong, fun h => absurd h.1 hmagic⟩
      · intro _
        exact failing ha

/-- A patch that writes one byte of its own. -/
theorem appliesBps_iff_targetRead :
    (bpsMagic ++ [0x80, 0x80, 0x80, 0x81, 7] ++ List.replicate 12 0).length < 2 ^ 63 ∧
      [(0 : UInt8)].length < 2 ^ 63 ∧
      (AppliesBps (fun _ => 0) (bpsMagic ++ [0x80, 0x80, 0x80, 0x81, 7] ++ List.replicate 12 0)
          [0] ↔
        BpsReadable (fun _ => 0)
          (bpsMagic ++ [0x80, 0x80, 0x80, 0x81, 7] ++ List.replicate 12 0) [0]) :=
  ⟨by decide, by decide, appliesBps_iff _ _ _ (by decide) (by decide)⟩

/-- A copy within the target that starts one byte before it. -/
theorem applyBpsPatch_escapes :
    ¬ AppliesBps (fun _ => 0)
      (bpsMagic ++ [0x80, 0x80, 0x80, 0x83, 0x83] ++ List.replicate 12 0) [0] := by
  rintro ⟨success, result, hrun, -⟩
  have hfault : applyBpsPatch (fun _ => 0)
      (bpsMagic ++ [0x80, 0x80, 0x80, 0x83, 0x83] ++ List.replicate 12 0) [0] =
        .error .undefined := by
    decide
  rw [hfault] at hrun
  cases hrun

end Patch

end Borked3DS.Analysis
