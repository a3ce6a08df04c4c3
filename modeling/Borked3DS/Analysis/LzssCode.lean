import Borked3DS.Interface.LzssCode

/-!
# Unpacking compressed code

What the variables of the decompression loop hold, and the whole code against the reference.
-/

set_option autoImplicit false

namespace Borked3DS.Analysis

open Borked3DS.Library Borked3DS.Model Borked3DS.Model.Lzss Borked3DS.Interface

/-!
## Unpacking one control byte

What the variables of the decompression loop hold: the bytes below the index are still to be read,
and behind the output position stands what the tokens so far stand for. One token and the tokens of
one control byte keep this, and fail where the reference does.
-/

/-- The loop has produced some bytes over what it started from, and has some left to read. -/
structure Unpacks (compressed base : List UInt8) (s : State) (input produced : List UInt8) :
    Prop where
  index_le : s.index ≤ compressed.length
  input_eq : input = (compressed.take s.index).reverse
  out_add : s.out + produced.length = base.length
  decompressed_eq : s.decompressed = base.take s.out ++ produced

/-- A part of the loop ends where the reference does, or fails with it. -/
def Follows (compressed base : List UInt8) : Option State →
    Option (List UInt8 × List UInt8) → Prop
  | some s, some (input, produced) => Unpacks compressed base s input produced
  | none, none => True
  | _, _ => False

section Bits

/-- The highest bits of a byte that is shifted left again and again. -/
def highestBits : ℕ → UInt8 → List Bool
  | 0, _ => []
  | rest + 1, control => decide (control &&& 0x80 ≠ 0) :: highestBits rest (control <<< 1)

theorem highestBit (control : UInt8) :
    decide (control &&& 0x80 ≠ 0) = control.toNat.testBit 7 := by
  have hmask : (control &&& 0x80).toNat = 2 ^ 7 * (control.toNat.testBit 7).toNat := by
    rw [UInt8.toNat_and, Nat.and_comm]
    exact Nat.two_pow_and control.toNat 7
  cases hbit : control.toNat.testBit 7
  all_goals
    rw [hbit] at hmask
    simp [← UInt8.toNat_inj, hmask]

theorem highestBits_eq {rest : ℕ} (h : rest ≤ 8) (control : UInt8) :
    highestBits rest control =
      (List.range rest).map fun i => control.toNat.testBit (7 - i) := by
  induction rest generalizing control with
  | zero => rfl
  | succ rest ih =>
      rw [highestBits, ih (by omega), List.range_succ_eq_map, List.map_cons, List.map_map,
        highestBit]
      congr 1
      apply List.map_congr_left
      intro i hi
      have hlt := List.mem_range.mp hi
      have hshift : (control <<< 1).toNat = control.toNat <<< 1 % 2 ^ 8 := UInt8.toNat_shiftLeft ..
      have hbit : 7 - i = 7 - (i + 1) + 1 := by omega
      rw [hshift, Nat.testBit_mod_two_pow, Nat.testBit_shiftLeft, hbit]
      simp
      omega

theorem controlBits_eq (control : UInt8) : controlBits control = highestBits 8 control :=
  (highestBits_eq le_rfl control).symm

/-- The two bytes of a reference hold a length and a distance. -/
theorem reference_word (low high : UInt8) :
    low.toNat ||| (high.toNat <<< 8) = high.toNat * 256 + low.toNat := by
  rw [Nat.or_comm, ← Nat.shiftLeft_add_eq_or_of_lt (UInt8.toNat_lt low), Nat.shiftLeft_eq]

theorem reference_length (low high : UInt8) :
    (((low.toNat ||| (high.toNat <<< 8)) >>> 12) &&& 15) + 3 = high.toNat / 16 + 3 := by
  have hlow := low.toNat_lt
  have hhigh := high.toNat_lt
  have hmask : ∀ x : ℕ, x &&& 15 = x % 16 := fun x => Nat.and_two_pow_sub_one_eq_mod x 4
  rw [reference_word, hmask, Nat.shiftRight_eq_div_pow]
  omega

theorem reference_distance (low high : UInt8) :
    ((low.toNat ||| (high.toNat <<< 8)) &&& 0x0FFF) + 2 =
      high.toNat % 16 * 256 + low.toNat + 2 := by
  have hlow := low.toNat_lt
  have hmask : ∀ x : ℕ, x &&& 0x0FFF = x % 4096 := fun x => Nat.and_two_pow_sub_one_eq_mod x 12
  rw [reference_word, hmask]
  omega

end Bits

section Tokens

variable {compressed base input produced : List UInt8} {s : State}

theorem Unpacks.length_input (h : Unpacks compressed base s input produced) :
    input.length = s.index := by
  rw [h.input_eq, List.length_reverse, List.length_take, Nat.min_eq_left h.index_le]

theorem Unpacks.length_decompressed (h : Unpacks compressed base s input produced) :
    s.decompressed.length = base.length := by
  have hout := h.out_add
  rw [h.decompressed_eq, List.length_append, List.length_take]
  omega

/-- The byte below the index is the next one of the input. -/
theorem Unpacks.next {x : UInt8} {rest : List UInt8}
    (h : Unpacks compressed base s (x :: rest) produced) (hlen : compressed.length < 2 ^ 64) :
    u64Sub s.index 1 + 1 = s.index ∧ readAt Fault.undefined compressed (u64Sub s.index 1) = .ok x ∧
      Unpacks compressed base { s with index := u64Sub s.index 1 } rest produced := by
  have hle := h.index_le
  have hpos : rest.length + 1 = s.index := h.length_input
  have hsub : u64Sub s.index 1 = s.index - 1 := u64Sub_of_le (by omega) (by omega)
  have hin : s.index - 1 < compressed.length := by omega
  have hinput : (compressed.take s.index).reverse =
      compressed[s.index - 1] :: (compressed.take (s.index - 1)).reverse := by
    have hsplit : s.index = s.index - 1 + 1 := by omega
    conv_lhs => rw [hsplit]
    rw [List.take_add_one, List.getElem?_eq_getElem hin, List.reverse_append]
    rfl
  have hcons := h.input_eq.trans hinput
  injection hcons with hx hrest
  refine ⟨by omega, ?_, ?_⟩
  · apply readAt_eq_ok.mpr
    rw [hsub, List.getElem?_eq_getElem hin, hx]
  · exact
      { index_le := by dsimp only; omega
        input_eq := by dsimp only; rw [hsub]; exact hrest
        out_add := h.out_add
        decompressed_eq := h.decompressed_eq }

/-- Writing below the output position puts a byte in front of what is produced. -/
theorem put_unpacks (h : Unpacks compressed base s input produced) (x : UInt8)
    (hout : 0 < s.out) (hbase : base.length < 2 ^ 64) :
    ∃ t, s.put x = .ok t ∧ t.index = s.index ∧ t.out + 1 = s.out ∧
      Unpacks compressed base t input (x :: produced) := by
  have hadd := h.out_add
  have hlen := h.length_decompressed
  have hsub : u64Sub s.out 1 = s.out - 1 := u64Sub_of_le hout (by omega)
  have hin : s.out - 1 < base.length := by omega
  have hwrite : writeRun Fault.undefined s.decompressed (u64Sub s.out 1) [x] =
      .ok (overwrite s.decompressed (s.out - 1) [x]) := by
    rw [hsub]
    exact writeRun_ok (by rw [List.length_singleton]; omega)
  have htake : (base.take s.out ++ produced).take (s.out - 1) = base.take (s.out - 1) := by
    rw [List.take_append_of_le_length (by rw [List.length_take]; omega), List.take_take,
      Nat.min_eq_left (by omega)]
  have hdrop : (base.take s.out ++ produced).drop (s.out - 1 + 1) = produced := by
    have hlength : s.out - 1 + 1 = (base.take s.out).length := by
      rw [List.length_take]
      omega
    rw [hlength, List.drop_left]
  refine ⟨{ s with out := s.out - 1, decompressed := overwrite s.decompressed (s.out - 1) [x] },
    ?_, rfl, ?_, ?_⟩
  · unfold State.put
    rw [hwrite, ok_bind, hsub]
    rfl
  · dsimp only
    omega
  · exact
      { index_le := h.index_le
        input_eq := h.input_eq
        out_add := by dsimp only; rw [List.length_cons]; omega
        decompressed_eq := by
          unfold overwrite
          rw [h.decompressed_eq, htake, List.length_singleton, hdrop, List.append_assoc]
          rfl }

/-- The loop that copies a segment follows the reference's copy. -/
theorem copySegment_follows {distance length : ℕ} (hbase : base.length < 2 ^ 63 + 2 ^ 32)
    (hdistance : distance ≤ 2 ^ 32) (h : Unpacks compressed base s input produced)
    (hroom : length ≤ s.out) :
    ∃ r, copySegment distance length s = .ok r ∧
      Follows compressed base r ((Interface.copyBack distance length produced).map (input, ·)) := by
  induction length generalizing s produced with
  | zero => exact ⟨some s, rfl, h⟩
  | succ length ih =>
      have hadd := h.out_add
      have hlen := h.length_decompressed
      have hsum : u64 (s.out + distance) = s.out + distance := u64_of_lt (by omega)
      rw [copySegment, Interface.copyBack, hsum]
      by_cases hin : distance < produced.length
      · have hread : readAt Fault.undefined s.decompressed (s.out + distance) =
            .ok produced[distance] := by
          apply readAt_eq_ok.mpr
          have hfront : (base.take s.out).length = s.out := by
            rw [List.length_take]
            omega
          rw [h.decompressed_eq, List.getElem?_append_right (by omega), hfront,
            Nat.add_sub_cancel_left, List.getElem?_eq_getElem hin]
        obtain ⟨t, hput, -, hout, ht⟩ := put_unpacks h produced[distance] (by omega) (by omega)
        obtain ⟨r, hr, hfollows⟩ := ih ht (by omega)
        refine ⟨r, ?_, ?_⟩
        · rw [if_neg (by omega), hread, ok_bind, hput, ok_bind, hr]
        · rw [List.getElem?_eq_getElem hin]
          exact hfollows
      · rw [if_pos (by omega), List.getElem?_eq_none (Nat.le_of_not_lt hin)]
        exact ⟨none, rfl, trivial⟩

/-- One token follows the reference's. -/
theorem handleToken_follows (control : UInt8) (hcompressed : compressed.length < 2 ^ 63)
    (hbase : base.length < 2 ^ 63 + 2 ^ 32) (h : Unpacks compressed base s input produced)
    (hinput : input ≠ []) (hout : 0 < s.out) :
    ∃ r, handleToken compressed control s = .ok r ∧
      Follows compressed base r
        (readToken base.length (decide (control &&& 0x80 ≠ 0)) input produced) := by
  have hlength := h.length_input
  have hadd := h.out_add
  unfold handleToken readToken
  by_cases hbit : control &&& 0x80 ≠ 0
  · rw [if_pos hbit, if_pos (decide_eq_true hbit)]
    match input, h, hlength with
    | [], _, _ => exact absurd rfl hinput
    | [x], _, hlength =>
        rw [List.length_singleton] at hlength
        rw [if_pos (by omega)]
        exact ⟨none, rfl, trivial⟩
    | high :: low :: rest, h, hlength =>
        rw [List.length_cons, List.length_cons] at hlength
        have hle := h.index_le
        obtain ⟨hindex, hhigh, h'⟩ := h.next (by omega)
        obtain ⟨hindex', hlow, h''⟩ := h'.next (by omega)
        dsimp only at hindex' hlow h''
        have hsub : u64Sub s.index 2 = u64Sub (u64Sub s.index 1) 1 := by
          rw [u64Sub_of_le (by omega) (by omega)]
          omega
        have hsucc : u64 (u64Sub s.index 2 + 1) = u64Sub s.index 1 := by
          rw [hsub, hindex']
          exact u64_of_lt (by omega)
        rw [if_neg (by omega)]
        dsimp only
        rw [hsucc, hsub, hlow, ok_bind, hhigh, ok_bind, reference_length, reference_distance]
        have hdistance : high.toNat % 16 * 256 + low.toNat + 2 ≤ 2 ^ 32 := by
          have := low.toNat_lt
          omega
        by_cases hroom : s.out < high.toNat / 16 + 3
        · rw [if_pos hroom, if_neg (by omega)]
          exact ⟨none, rfl, trivial⟩
        · rw [if_neg hroom, if_pos (by omega)]
          exact copySegment_follows hbase hdistance h'' (Nat.le_of_not_lt hroom)
  · rw [if_neg hbit, if_neg (fun hc => hbit (of_decide_eq_true hc)), if_neg (by omega)]
    match input, h with
    | [], _ => exact absurd rfl hinput
    | x :: rest, h =>
        obtain ⟨hindex, hread, h'⟩ := h.next (by omega)
        obtain ⟨t, hput, -, -, ht⟩ := put_unpacks h' x hout (by omega)
        dsimp only
        rw [hread, ok_bind, hput, ok_bind]
        exact ⟨some t, rfl, ht⟩

/-- The tokens of a control byte follow the reference's. -/
theorem handleTokens_follows (stop rest : ℕ) (control : UInt8)
    (hcompressed : compressed.length < 2 ^ 63) (hbase : base.length < 2 ^ 63 + 2 ^ 32)
    (h : Unpacks compressed base s input produced) :
    ∃ r, handleTokens compressed stop rest control s = .ok r ∧
      Follows compressed base r
        (readTokens base.length stop (highestBits rest control) input produced) := by
  induction rest generalizing control s input produced with
  | zero => exact ⟨some s, rfl, h⟩
  | succ rest ih =>
      have hlength := h.length_input
      have hadd := h.out_add
      rw [handleTokens, highestBits, readTokens]
      by_cases hend : input.length ≤ stop ∨ base.length ≤ produced.length
      · rw [if_pos (by omega), if_pos hend]
        exact ⟨some s, rfl, h⟩
      · have hinput : input ≠ [] := by
          rintro rfl
          exact hend (Or.inl (Nat.zero_le _))
        obtain ⟨r, hr, hfollows⟩ := handleToken_follows control hcompressed hbase h hinput (by omega)
        have hlen := List.length_pos_of_ne_nil hinput
        rw [if_neg (by omega), if_neg hend, hr, ok_bind]
        match r, readToken base.length (decide (control &&& 0x80 ≠ 0)) input produced, hfollows with
        | none, none, _ => exact ⟨none, rfl, trivial⟩
        | some t, some (input', produced'), ht => exact ih (control <<< 1) ht
        | some _, none, hf => exact hf.elim
        | none, some _, hf => exact hf.elim

end Tokens

end Borked3DS.Analysis

/-!
## Unpacking compressed code

The decompression loop against the reference decoding, and the footer around it. The result is the
reference exactly when the footer points into the buffer.
-/

namespace Borked3DS.Analysis

open Borked3DS.Library Borked3DS.Model Borked3DS.Model.Lzss Borked3DS.Interface

section Reference

variable {size stop : ℕ}

/-- A token takes bytes and gives none back. -/
theorem readToken_length {isReference : Bool} {input produced input' produced' : List UInt8}
    (h : readToken size isReference input produced = some (input', produced')) :
    input'.length ≤ input.length := by
  unfold readToken at h
  split at h
  · split at h
    · dsimp only at h
      split at h
      · obtain ⟨_, _, heq⟩ := Option.map_eq_some_iff.mp h
        cases heq
        rw [List.length_cons, List.length_cons]
        omega
      · cases h
    · cases h
  · split at h
    · cases h
      rw [List.length_cons]
      omega
    · cases h

theorem readTokens_length {bits : List Bool} {input produced input' produced' : List UInt8}
    (h : readTokens size stop bits input produced = some (input', produced')) :
    input'.length ≤ input.length := by
  induction bits generalizing input produced with
  | nil =>
      cases h
      exact Nat.le_refl _
  | cons bit bits ih =>
      rw [readTokens] at h
      split at h
      · cases h
        exact Nat.le_refl _
      · cases htoken : readToken size bit input produced with
        | none =>
            rw [htoken] at h
            cases h
        | some next =>
            rw [htoken] at h
            exact Nat.le_trans (ih h) (readToken_length htoken)

theorem readGroups_stop {fuel : ℕ} {input : List UInt8} (produced : List UInt8)
    (h : input.length ≤ stop) : readGroups size stop fuel input produced = some produced := by
  cases fuel with
  | zero => rfl
  | succ fuel =>
      unfold readGroups
      rw [if_pos h]

end Reference

section Loop

variable {compressed base input produced : List UInt8} {s : State}

/-- The loop ends with what the reference reads, or fails with it. The induction is on the fuel, of
which every control byte takes some. -/
theorem decompressLoop_follows {fuel fuel' : ℕ} (stop : ℕ) (hcompressed : compressed.length < 2 ^ 63)
    (hbase : base.length < 2 ^ 63 + 2 ^ 32) (h : Unpacks compressed base s input produced)
    (hfuel : input.length < fuel) (hfuel' : input.length ≤ fuel') :
    ∃ r, decompressLoop compressed stop fuel s = .ok r ∧
      r.map State.decompressed =
        (readGroups base.length stop fuel' input produced).map fun produced =>
          base.take (base.length - produced.length) ++ produced := by
  have done : ∀ {s : State} {input produced : List UInt8},
      Unpacks compressed base s input produced →
        s.decompressed = base.take (base.length - produced.length) ++ produced := by
    intro s input produced h
    have hadd := h.out_add
    rw [h.decompressed_eq]
    congr 2
    omega
  induction fuel generalizing fuel' s input produced with
  | zero => omega
  | succ fuel ih =>
      have hlength := h.length_input
      have hadd := h.out_add
      rw [decompressLoop]
      by_cases hend : input.length ≤ stop
      · rw [if_neg (by omega)]
        rw [readGroups_stop produced hend]
        exact ⟨some s, rfl, congrArg some (done h)⟩
      · rw [if_pos (by omega)]
        match input, h, hlength with
        | [], _, _ => exact absurd (Nat.zero_le _) hend
        | control :: rest, h, hlength =>
            rw [List.length_cons] at hlength hfuel hfuel' hend
            obtain ⟨hindex, hread, h'⟩ := h.next (by omega)
            obtain ⟨r, hr, hfollows⟩ :=
              handleTokens_follows stop 8 control hcompressed hbase h'
            obtain ⟨fuel', rfl⟩ : ∃ n, fuel' = n + 1 := ⟨fuel' - 1, by omega⟩
            dsimp only
            rw [hread, ok_bind, hr, ok_bind, readGroups, List.length_cons, if_neg hend,
              controlBits_eq]
            cases htokens : readTokens base.length stop (highestBits 8 control) rest produced with
            | none =>
                rw [htokens] at hfollows
                match r, hfollows with
                | none, _ => exact ⟨none, rfl, rfl⟩
                | some _, hf => exact hf.elim
            | some next =>
                obtain ⟨input', produced'⟩ := next
                have hshorter := readTokens_length htokens
                rw [htokens] at hfollows
                match r, hfollows with
                | none, hf => exact hf.elim
                | some t, ht => exact ih ht (by omega) (by omega)

end Loop

section Code

variable {compressed : List UInt8}

theorem lzssOffsetSize_lt (compressed : List UInt8) : lzssOffsetSize compressed < 2 ^ 32 := by
  have hsmall := ofLittleEndian_lt ((compressed.drop (compressed.length - 4)).take 4)
  have hlen : ((compressed.drop (compressed.length - 4)).take 4).length ≤ 4 := List.length_take_le 4 _
  exact Nat.lt_of_lt_of_le hsmall (Nat.pow_le_pow_right (n := 256) (by decide) hlen)

theorem getDecompressedSize_eq (hfooter : 8 ≤ compressed.length)
    (hlen : compressed.length < 2 ^ 63) :
    getDecompressedSize compressed = .ok (compressed.length + lzssOffsetSize compressed) := by
  have hplace : u64Sub compressed.length 4 = compressed.length - 4 :=
    u64Sub_of_le (by omega) (by omega)
  have hread : readRun Fault.undefined compressed (compressed.length - 4) 4 =
      .ok ((compressed.drop (compressed.length - 4)).take 4) := if_pos (by omega)
  have hsmall := lzssOffsetSize_lt compressed
  unfold lzssOffsetSize at hsmall
  unfold getDecompressedSize lzssOffsetSize
  rw [hplace, hread, ok_bind, Nat.add_comm, u64_of_lt (by omega)]
  rfl

/-- Unpacking is the loop, over the buffer with zeros behind it. -/
theorem loadCompressedCode_eq (hfooter : 8 ≤ compressed.length)
    (hlen : compressed.length < 2 ^ 63) :
    loadCompressedCode compressed =
      (decompressLoop compressed (u64Sub compressed.length (lzssBottom compressed))
        (compressed.length + 1)
        { out := compressed.length + lzssOffsetSize compressed
          index := u64Sub compressed.length (lzssTop compressed)
          decompressed := compressed ++ List.replicate (lzssOffsetSize compressed) 0 } >>= fun s =>
        .ok (s.map State.decompressed)) := by
  have hplace : u64Sub compressed.length 8 = compressed.length - 8 :=
    u64Sub_of_le hfooter (by omega)
  have hread : readRun Fault.undefined compressed (compressed.length - 8) 4 =
      .ok ((compressed.drop (compressed.length - 8)).take 4) := if_pos (by omega)
  have htop : ∀ x : ℕ, (x >>> 24) &&& 0xFF = x / 2 ^ 24 % 2 ^ 8 := by
    intro x
    rw [Nat.shiftRight_eq_div_pow]
    exact Nat.and_two_pow_sub_one_eq_mod _ 8
  have hbottom : ∀ x : ℕ, x &&& 0xFFFFFF = x % 2 ^ 24 := fun x =>
    Nat.and_two_pow_sub_one_eq_mod x 24
  have hcopy : writeRun Fault.undefined
      ([] ++ List.replicate (compressed.length + lzssOffsetSize compressed) 0)
        ([] : List UInt8).length compressed = _ :=
    writeRun_append_replicate (by omega)
  rw [List.nil_append, List.nil_append, Nat.add_sub_cancel_left, List.length_nil] at hcopy
  unfold loadCompressedCode
  rw [getDecompressedSize_eq hfooter hlen, ok_bind]
  unfold decompress
  rw [hplace, hread, ok_bind]
  dsimp only
  rw [hcopy, ok_bind, htop, hbottom]
  rfl

/-- A buffer without a footer. -/
theorem loadCompressedCode_short (hshort : compressed.length < 8) :
    loadCompressedCode compressed = .error .undefined := by
  have hread : ∀ i n, compressed.length < i + n →
      readRun Fault.undefined compressed i n = .error .undefined := by
    intro i n hout
    exact if_neg (Nat.not_le.mpr hout)
  unfold loadCompressedCode getDecompressedSize
  by_cases hsize : compressed.length < 4
  · rw [hread _ _ (by rw [u64Sub_of_lt hsize]; omega)]
    rfl
  · have hplace : u64Sub compressed.length 4 = compressed.length - 4 :=
      u64Sub_of_le (by omega) (by omega)
    have hsmall : readRun Fault.undefined compressed (compressed.length - 4) 4 =
        .ok ((compressed.drop (compressed.length - 4)).take 4) := if_pos (by omega)
    unfold decompress
    rw [hplace, hsmall, ok_bind, hread _ _ (by rw [u64Sub_of_lt hshort]; omega)]
    rfl

/-- With a footer that points into the buffer, the result is the reference. -/
theorem loadCompressedCode_reference (hlen : compressed.length < 2 ^ 63)
    (h : LzssFooterInside compressed) :
    loadCompressedCode compressed = .ok (lzssReference compressed) := by
  obtain ⟨hfooter, htop, hbottom⟩ := h
  have hoffset := lzssOffsetSize_lt compressed
  have hbase : (compressed ++ List.replicate (lzssOffsetSize compressed) 0).length =
      compressed.length + lzssOffsetSize compressed := by
    rw [List.length_append, List.length_replicate]
  have hstart : Unpacks compressed (compressed ++ List.replicate (lzssOffsetSize compressed) 0)
      { out := compressed.length + lzssOffsetSize compressed
        index := u64Sub compressed.length (lzssTop compressed)
        decompressed := compressed ++ List.replicate (lzssOffsetSize compressed) 0 }
      (compressed.take (compressed.length - lzssTop compressed)).reverse [] := by
    have hindex : u64Sub compressed.length (lzssTop compressed) =
        compressed.length - lzssTop compressed := u64Sub_of_le htop (by omega)
    rw [hindex]
    exact
      { index_le := Nat.sub_le _ _
        input_eq := rfl
        out_add := hbase.symm
        decompressed_eq := by rw [← hbase, List.take_length, List.append_nil] }
  have hinput : (compressed.take (compressed.length - lzssTop compressed)).reverse.length ≤
      compressed.length := by
    rw [List.length_reverse]
    exact List.length_take_le' _ _
  obtain ⟨r, hr, hfollows⟩ := decompressLoop_follows
    (u64Sub compressed.length (lzssBottom compressed)) hlen (by omega) hstart
    (Nat.lt_succ_of_le hinput) hinput
  have hstop : u64Sub compressed.length (lzssBottom compressed) =
      compressed.length - lzssBottom compressed := u64Sub_of_le hbottom (by omega)
  unfold lzssReference
  dsimp only
  rw [loadCompressedCode_eq hfooter hlen, hr, ok_bind, if_pos ⟨htop, hbottom⟩, hfollows, hbase,
    hstop]

/-- With a footer that points out of the buffer, the loop either starts outside it or does not
start. -/
theorem loadCompressedCode_outside (hlen : compressed.length < 2 ^ 63)
    (hfooter : 8 ≤ compressed.length)
    (hout : compressed.length < lzssTop compressed ∨ compressed.length < lzssBottom compressed) :
    loadCompressedCode compressed = .error .undefined ∨
      ∃ bytes, loadCompressedCode compressed = .ok (some bytes) := by
  have htop : lzssTop compressed < 2 ^ 8 := Nat.mod_lt _ (by decide)
  have hbottom : lzssBottom compressed < 2 ^ 24 := Nat.mod_lt _ (by decide)
  rw [loadCompressedCode_eq hfooter hlen, decompressLoop]
  dsimp only
  by_cases hstart : u64Sub compressed.length (lzssBottom compressed) <
      u64Sub compressed.length (lzssTop compressed)
  · have hread : readAt Fault.undefined compressed
        (u64Sub (u64Sub compressed.length (lzssTop compressed)) 1) = .error .undefined := by
      apply readAt_of_length_le
      unfold u64Sub u64 at hstart ⊢
      omega
    rw [if_pos hstart, hread]
    exact Or.inl rfl
  · rw [if_neg hstart]
    exact Or.inr ⟨_, rfl⟩

/-- Unpacking stays within its buffers and yields the reference exactly when the buffer holds a
footer that points into it. -/
theorem decompressesCode_iff (compressed : List UInt8) (hlen : compressed.length < 2 ^ 63) :
    DecompressesCode compressed ↔ LzssFooterInside compressed := by
  constructor
  · rintro ⟨result, hrun, hresult⟩
    rcases Nat.lt_or_ge compressed.length 8 with hshort | hfooter
    · rw [loadCompressedCode_short hshort] at hrun
      cases hrun
    · by_contra hinside
      have hout : compressed.length < lzssTop compressed ∨
          compressed.length < lzssBottom compressed := by
        unfold LzssFooterInside at hinside
        omega
      rcases loadCompressedCode_outside hlen hfooter hout with hfault | ⟨bytes, hbytes⟩
      · rw [hfault] at hrun
        cases hrun
      · rw [hbytes] at hrun
        have hnone : lzssReference compressed = none := if_neg (by omega)
        have hsome := hresult bytes (Except.ok.inj hrun).symm
        rw [hnone] at hsome
        cases hsome
  · intro hinside
    exact ⟨_, loadCompressedCode_reference hlen hinside, fun bytes hbytes => hbytes⟩

/-- Two literals in front of a footer: `"ab"` grows to itself. -/
theorem decompressesCode_iff_literals :
    [0x61, 0x62, 0x00, 0x0B, 0x00, 0x00, 0x08, 0x00, 0x00, 0x00, (0x00 : UInt8)].length < 2 ^ 63 ∧
      (DecompressesCode [0x61, 0x62, 0x00, 0x0B, 0x00, 0x00, 0x08, 0x00, 0x00, 0x00, 0x00] ↔
        LzssFooterInside [0x61, 0x62, 0x00, 0x0B, 0x00, 0x00, 0x08, 0x00, 0x00, 0x00, 0x00]) :=
  ⟨by decide, decompressesCode_iff _ (by decide)⟩

/-- A footer whose top is larger than the buffer: the index wraps and the loop reads far behind the
buffer. -/
theorem loadCompressedCode_wraps :
    ¬ DecompressesCode [0x08, 0x00, 0x00, 0x09, 0x00, 0x00, 0x00, 0x00] := by
  rintro ⟨result, hrun, -⟩
  have hfault : loadCompressedCode [0x08, 0x00, 0x00, 0x09, 0x00, 0x00, 0x00, 0x00] =
      .error .undefined := by
    decide
  rw [hfault] at hrun
  cases hrun

end Code

end Borked3DS.Analysis
