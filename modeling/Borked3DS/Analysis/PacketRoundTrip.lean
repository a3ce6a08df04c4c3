import Mathlib.Data.Nat.Bitwise
import Borked3DS.Interface.PacketCodec

/-!
# Reading and writing packets

What every read delivers, and that it delivers what was written.
-/

set_option autoImplicit false

namespace Borked3DS.Analysis

open Borked3DS.Library Borked3DS.Model Borked3DS.Model.Network Borked3DS.Interface

/-!
## Reading packets

Every read of a packet against the decoder: what it delivers, that it leaves the packet invalid where
the data runs out, and that an invalid packet is not read any more.
-/

/-- A read of a packet does what a decoder of its unread data says. -/
def ReadsAs {α : Type} (p : Packet) (result : Exec (α × Packet))
    (expected : Option (α × List UInt8)) : Prop :=
  ∃ value p', result = .ok (value, p') ∧ p'.data = p.data ∧ IsPacket p' ∧
    (p.isValid = true → ∀ v rest, expected = some (v, rest) →
      p'.isValid = true ∧ value = v ∧ unreadData p' = rest) ∧
    (p.isValid = true → expected = none → p'.isValid = false) ∧
    (p.isValid = false → p'.isValid = false ∧ p'.readPos = p.readPos)

section Composition

variable {α β : Type} {p : Packet}

theorem readsAs_pure (hp : IsPacket p) (v : α) :
    ReadsAs p (.ok (v, p)) (some (v, unreadData p)) := by
  refine ⟨v, p, rfl, rfl, hp, ?_, ?_, ?_⟩
  · intro hvalid w rest heq
    cases heq
    exact ⟨hvalid, rfl, rfl⟩
  · intro _ hnone
    cases hnone
  · intro hinvalid
    exact ⟨hinvalid, rfl⟩

/-- A read and what is done with its value. -/
theorem ReadsAs.bind {result : Exec (α × Packet)} {expected : Option (α × List UInt8)}
    {f : α × Packet → Exec (β × Packet)} {g : α → List UInt8 → Option (β × List UInt8)}
    (h : ReadsAs p result expected)
    (hf : ∀ value p', result = .ok (value, p') → IsPacket p' →
      ReadsAs p' (f (value, p')) (g value (unreadData p'))) :
    ReadsAs p (result >>= f) (expected.bind fun x => g x.1 x.2) := by
  obtain ⟨value, p₁, hresult, hdata₁, hp₁, hsome₁, hnone₁, hinvalid₁⟩ := h
  obtain ⟨value', p₂, hresult', hdata₂, hp₂, hsome₂, hnone₂, hinvalid₂⟩ :=
    hf value p₁ hresult hp₁
  refine ⟨value', p₂, ?_, hdata₂.trans hdata₁, hp₂, ?_, ?_, ?_⟩
  · rw [hresult, ok_bind]
    exact hresult'
  · intro hvalid w rest heq
    obtain ⟨⟨v, rest₁⟩, hexpected, hg⟩ := Option.bind_eq_some_iff.mp heq
    obtain ⟨hvalid₁, hv, hrest₁⟩ := hsome₁ hvalid v rest₁ hexpected
    subst hv
    subst hrest₁
    exact hsome₂ hvalid₁ w rest hg
  · intro hvalid heq
    cases hexpected : expected with
    | none => exact (hinvalid₂ (hnone₁ hvalid hexpected)).1
    | some x =>
        obtain ⟨hvalid₁, hv, hrest₁⟩ := hsome₁ hvalid x.1 x.2 hexpected
        rw [hexpected, Option.bind_some, ← hv, ← hrest₁] at heq
        exact hnone₂ hvalid₁ heq
  · intro hinvalid
    obtain ⟨hinv₁, hpos₁⟩ := hinvalid₁ hinvalid
    obtain ⟨hinv₂, hpos₂⟩ := hinvalid₂ hinv₁
    exact ⟨hinv₂, hpos₂.trans hpos₁⟩

/-- A read whose value is converted. -/
theorem ReadsAs.map {result : Exec (α × Packet)} {expected : Option (α × List UInt8)}
    {f : α × Packet → Exec (β × Packet)} (convert : α → β) (h : ReadsAs p result expected)
    (hf : ∀ value p', f (value, p') = .ok (convert value, p')) :
    ReadsAs p (result >>= f) (expected.map fun x => (convert x.1, x.2)) := by
  rw [Option.map_eq_bind]
  apply h.bind (g := fun v rest => some (convert v, rest))
  intro value p' _ hp'
  rw [hf]
  exact readsAs_pure hp' (convert value)

end Composition

section Words

variable {p : Packet} {n : ℕ}

theorem length_unreadData (p : Packet) : (unreadData p).length = p.data.length - p.readPos :=
  List.length_drop

/-- The bounds check, for a read of at least a byte. -/
theorem checkSize_eq (hp : IsPacket p) (hpos : 0 < n) (hn : n < 2 ^ 32) :
    p.checkSize n =
      (p.isValid && decide (n ≤ (unreadData p).length),
        { p with isValid := p.isValid && decide (n ≤ (unreadData p).length) }) := by
  obtain ⟨hlength, hread⟩ := hp
  have hiff : u64 (p.readPos + n) ≤ p.data.length ↔ n ≤ (unreadData p).length := by
    rw [u64_of_lt (by omega), length_unreadData]
    omega
  unfold Packet.checkSize
  rw [decide_eq_decide.mpr hiff]

/-- `Read` takes bytes that are there, and otherwise makes the packet invalid. -/
theorem read_readsAs (hp : IsPacket p) (hpos : 0 < n) (hn : n < 2 ^ 32) :
    (p.isValid = true → n ≤ (unreadData p).length →
      ∃ p', p.read n = .ok (some ((unreadData p).take n), p') ∧ p'.data = p.data ∧ IsPacket p' ∧
        p'.isValid = true ∧ unreadData p' = (unreadData p).drop n) ∧
    (p.isValid = false ∨ (unreadData p).length < n →
      p.read n = .ok (none, { p with isValid := false })) := by
  have hcheck := checkSize_eq hp hpos hn
  constructor
  · intro hvalid hle
    have hlength := length_unreadData p
    have hok : (p.isValid && decide (n ≤ (unreadData p).length)) = true := by
      rw [hvalid, decide_eq_true hle]
      rfl
    have hbytes : readRun Fault.undefined p.data p.readPos n = .ok ((unreadData p).take n) :=
      if_pos (by omega)
    have hplace : u64 (p.readPos + n) = p.readPos + n := u64_of_lt (by have := hp.2; omega)
    refine ⟨{ p with readPos := p.readPos + n, isValid := true }, ?_, rfl, ?_, rfl, ?_⟩
    · unfold Packet.read
      rw [hcheck, hok]
      dsimp only
      rw [if_pos rfl, hbytes, ok_bind, hplace]
      rfl
    · have hdata := hp.1
      exact ⟨hdata, by dsimp only; omega⟩
    · unfold unreadData
      rw [List.drop_drop]
  · intro hcase
    have hfail : (p.isValid && decide (n ≤ (unreadData p).length)) = false := by
      rcases hcase with hinvalid | hlt
      · rw [hinvalid]
        rfl
      · rw [decide_eq_false (Nat.not_le.mpr hlt), Bool.and_false]
    unfold Packet.read
    rw [hcheck, hfail]
    rfl

/-- Reading a word is decoding it. -/
theorem readWord_readsAs {width : ℕ} (hp : IsPacket p) (hpos : 0 < width) (hwidth : width < 2 ^ 32)
    (old : ℕ) : ReadsAs p (p.readWord width old) (decodeWord width (unreadData p)) := by
  obtain ⟨hsome, hnone⟩ := read_readsAs hp hpos hwidth
  unfold decodeWord Packet.readWord
  by_cases hvalid : p.isValid = true ∧ width ≤ (unreadData p).length
  · obtain ⟨p', hread, hdata, hp', hvalid', hrest⟩ := hsome hvalid.1 hvalid.2
    rw [hread, ok_bind, if_pos hvalid.2]
    refine ⟨_, p', rfl, hdata, hp', ?_, ?_, ?_⟩
    · intro _ v rest heq
      cases heq
      exact ⟨hvalid', rfl, hrest⟩
    · intro _ heq
      cases heq
    · intro hinvalid
      rw [hvalid.1] at hinvalid
      cases hinvalid
  · have hcase : p.isValid = false ∨ (unreadData p).length < width := by
      rcases Bool.eq_false_or_eq_true p.isValid with htrue | hfalse
      · exact Or.inr (Nat.lt_of_not_le fun hle => hvalid ⟨htrue, hle⟩)
      · exact Or.inl hfalse
    rw [hnone hcase, ok_bind]
    refine ⟨old, _, rfl, rfl, hp, ?_, ?_, ?_⟩
    · intro htrue v rest heq
      rw [if_neg fun hle => hvalid ⟨htrue, hle⟩] at heq
      cases heq
    · intro _ _
      rfl
    · intro _
      exact ⟨rfl, rfl⟩

theorem swapBytes_lt (width x : ℕ) : swapBytes width x < 256 ^ width := by
  have hlt := ofLittleEndian_lt (toLittleEndian width x).reverse
  rwa [List.length_reverse, length_toLittleEndian] at hlt

theorem htonl_lt (x : ℕ) : htonl x < 2 ^ 32 := swapBytes_lt 4 x

theorem readU32_readsAs (hp : IsPacket p) :
    ReadsAs p p.readU32 ((decodeWord 4 (unreadData p)).map fun x => (htonl x.1, x.2)) :=
  (readWord_readsAs hp (by decide) (by decide) 0).map htonl fun _ _ => rfl

end Words

section Values

variable {p : Packet} {fresh : (t : PacketType) → t.Value}

/-- Reading elements is decoding them. -/
theorem readElements_readsAs {α : Type} {readElement : Packet → Exec (α × Packet)}
    {decodeElement : List UInt8 → Option (α × List UInt8)}
    (h : ∀ p, IsPacket p → ReadsAs p (readElement p) (decodeElement (unreadData p))) (n : ℕ)
    (hp : IsPacket p) :
    ReadsAs p (Packet.readElements readElement n p)
      (decodeElements decodeElement n (unreadData p)) := by
  induction n generalizing p with
  | zero => exact readsAs_pure hp []
  | succ n ih =>
      have hbind : decodeElements decodeElement (n + 1) (unreadData p) =
          (decodeElement (unreadData p)).bind fun x =>
            (decodeElements decodeElement n x.2).map fun y => (x.1 :: y.1, y.2) := by
        rw [decodeElements]
        cases decodeElement (unreadData p) with
        | none => rfl
        | some x =>
            dsimp only
            rw [Option.bind_some]
            cases decodeElements decodeElement n x.2 with
            | none => rfl
            | some y => rfl
      rw [hbind, Packet.readElements]
      apply (h p hp).bind (g := fun v rest =>
        (decodeElements decodeElement n rest).map fun y => (v :: y.1, y.2))
      intro value p' _ hp'
      exact (ih hp').map (value :: ·) fun _ _ => rfl

/-- A length is one of 32 bits. -/
theorem readU32_lt {length : ℕ} {p' : Packet} (h : p.readU32 = .ok (length, p')) :
    length < 2 ^ 32 := by
  unfold Packet.readU32 at h
  obtain ⟨⟨value, p₁⟩, _, hpure⟩ := bind_eq_ok.mp h
  cases hpure
  exact htonl_lt value

/-- The characters behind the length of a string. -/
theorem readChars_readsAs {length : ℕ} (hp : IsPacket p) (hlength : length < 2 ^ 32) :
    ReadsAs p (p.readChars length)
      (if length ≤ (unreadData p).length then
        some ((unreadData p).take length, (unreadData p).drop length) else none) := by
  have hunread := length_unreadData p
  unfold Packet.readChars
  rcases Nat.eq_zero_or_pos length with rfl | hpos
  · rw [if_neg (Nat.lt_irrefl 0), if_pos (Nat.zero_le _)]
    exact readsAs_pure hp []
  · rw [if_pos hpos, checkSize_eq hp hpos hlength]
    dsimp only
    by_cases hvalid : p.isValid = true ∧ length ≤ (unreadData p).length
    · have hplace : u64 (p.readPos + length) = p.readPos + length :=
        u64_of_lt (by have := hp.2; omega)
      have hbytes : readRun Fault.undefined p.data p.readPos length =
          .ok ((unreadData p).take length) := if_pos (by omega)
      have hdata := hp.1
      rw [hvalid.1, decide_eq_true hvalid.2, Bool.and_true, if_pos rfl, if_pos hvalid.2, hbytes,
        ok_bind, hplace]
      refine ⟨_, _, rfl, rfl, ⟨hdata, by dsimp only; omega⟩, ?_, ?_, ?_⟩
      · intro _ v rest heq
        cases heq
        refine ⟨rfl, rfl, ?_⟩
        unfold unreadData
        rw [List.drop_drop]
      · intro _ heq
        cases heq
      · intro hinvalid
        rw [hvalid.1] at hinvalid
        cases hinvalid
    · have hfail : (p.isValid && decide (length ≤ (unreadData p).length)) = false := by
        rw [Bool.and_eq_false_iff, decide_eq_false_iff_not]
        rcases Bool.eq_false_or_eq_true p.isValid with htrue | hfalse
        · exact Or.inr fun hle => hvalid ⟨htrue, hle⟩
        · exact Or.inl hfalse
      rw [hfail, if_neg (by decide)]
      refine ⟨[], _, rfl, rfl, hp, ?_, ?_, ?_⟩
      · intro htrue v rest heq
        rw [if_neg fun hle => hvalid ⟨htrue, hle⟩] at heq
        cases heq
      · intro _ _
        rfl
      · intro _
        exact ⟨rfl, rfl⟩

/-- Every read of a value is decoding it. The induction is on the type. -/
theorem readValue_readsAs (t : PacketType) (out : t.Value) (hp : IsPacket p) :
    ReadsAs p (Packet.readValue fresh t out p) (decode t (unreadData p)) := by
  have hword : ∀ {width : ℕ}, 0 < width → width < 2 ^ 32 → ∀ old,
      ReadsAs p (p.readWord width old) (decodeWord width (unreadData p)) :=
    fun hpos hwidth old => readWord_readsAs hp hpos hwidth old
  induction t generalizing p with
  | bool =>
      rw [Packet.readValue, decode, Option.map_eq_bind]
      apply (hword (by decide) (by decide) _).bind
        (g := fun v rest => some (decide (v ≠ 0), rest))
      intro value p' _ hp'
      refine ⟨_, p', rfl, rfl, hp', ?_, ?_, ?_⟩
      · intro hvalid v rest heq
        cases heq
        rw [if_pos hvalid]
        exact ⟨hvalid, rfl, rfl⟩
      · intro _ heq
        cases heq
      · intro hinvalid
        exact ⟨hinvalid, rfl⟩
  | s8 => exact (hword (by decide) (by decide) _).map (fun x => (UInt8.ofNat x).toInt8) fun _ _ => rfl
  | u8 => exact (hword (by decide) (by decide) _).map UInt8.ofNat fun _ _ => rfl
  | s16 =>
      exact (hword (by decide) (by decide) _).map (fun x => (UInt16.ofNat (htons x)).toInt16)
        fun _ _ => rfl
  | u16 =>
      exact (hword (by decide) (by decide) _).map (fun x => UInt16.ofNat (htons x)) fun _ _ => rfl
  | s32 =>
      exact (hword (by decide) (by decide) _).map (fun x => (UInt32.ofNat (htonl x)).toInt32)
        fun _ _ => rfl
  | u32 =>
      have hread := (readU32_readsAs hp).map UInt32.ofNat (f := fun x => .ok (UInt32.ofNat x.1, x.2))
        fun _ _ => rfl
      rw [Option.map_map] at hread
      exact hread
  | s64 =>
      exact (hword (by decide) (by decide) _).map (fun x => (UInt64.ofNat (htonll x)).toInt64)
        fun _ _ => rfl
  | u64 =>
      exact (hword (by decide) (by decide) _).map (fun x => UInt64.ofNat (htonll x)) fun _ _ => rfl
  | float => exact (hword (by decide) (by decide) _).map UInt32.ofNat fun _ _ => rfl
  | double => exact (hword (by decide) (by decide) _).map UInt64.ofNat fun _ _ => rfl
  | string =>
      have hbind : decode .string (unreadData p) =
          ((decodeWord 4 (unreadData p)).map fun x => (htonl x.1, x.2)).bind fun x =>
            if x.1 ≤ x.2.length then some (x.2.take x.1, x.2.drop x.1) else none := by
        rw [decode]
        cases decodeWord 4 (unreadData p) with
        | none => rfl
        | some x => rfl
      rw [hbind, Packet.readValue]
      apply (readU32_readsAs hp).bind (g := fun length rest =>
        if length ≤ rest.length then some (rest.take length, rest.drop length) else none)
      intro length p' hlength hp'
      exact readChars_readsAs hp' (readU32_lt hlength)
  | vector element ih =>
      have hbind : decode (.vector element) (unreadData p) =
          ((decodeWord 4 (unreadData p)).map fun x => (htonl x.1, x.2)).bind fun x =>
            decodeElements (decode element) x.1 x.2 := by
        rw [decode]
        cases decodeWord 4 (unreadData p) with
        | none => rfl
        | some x => rfl
      rw [hbind, Packet.readValue]
      apply (readU32_readsAs hp).bind (g := fun size rest =>
        decodeElements (decode element) size rest)
      intro size p' _ hp'
      apply readElements_readsAs _ size hp'
      intro p'' hp''
      exact ih (fresh element) hp'' fun hpos hwidth old => readWord_readsAs hp'' hpos hwidth old
  | array element size ih =>
      have helements := readElements_readsAs
        (fun p'' hp'' => ih (fresh element) hp'' fun hpos hwidth old =>
          readWord_readsAs hp'' hpos hwidth old) size hp
      obtain ⟨values, p', hresult, hdata, hp', hsome, hnone, hinvalid⟩ := helements
      have hread : Packet.readValue fresh (.array element size) out p =
          .ok (⟨values, Packet.readElements_length hresult⟩, p') := by
        rw [Packet.readValue]
        split
        · rename_i fault hfault
          rw [hresult] at hfault
          cases hfault
        · rename_i values' p'' hok
          rw [hresult] at hok
          cases hok
          rfl
      refine ⟨_, p', hread, hdata, hp', ?_, ?_, hinvalid⟩
      · intro hvalid v rest heq
        rw [decode] at heq
        split at heq
        · cases heq
        · rename_i values' rest₁ hdecode
          cases heq
          obtain ⟨hvalid', hvalues, hrest⟩ := hsome hvalid values' _ hdecode
          subst hvalues
          exact ⟨hvalid', rfl, hrest⟩
      · intro hvalid heq
        rw [decode] at heq
        split at heq
        · rename_i hdecode
          exact hnone hvalid hdecode
        · cases heq

end Values

end Borked3DS.Analysis

/-!
## Packets read back

Writing a value appends bytes that decode to it, whatever stands behind them, as long as the lengths
in the value fit their prefixes.
-/

namespace Borked3DS.Analysis

open Borked3DS.Library Borked3DS.Model Borked3DS.Model.Network Borked3DS.Interface

section Words

theorem swapBytes_swapBytes {width x : ℕ} (h : x < 256 ^ width) :
    swapBytes width (swapBytes width x) = x := by
  have hlength : (toLittleEndian width x).reverse.length = width := by
    rw [List.length_reverse, length_toLittleEndian]
  have hbytes := toLittleEndian_ofLittleEndian (toLittleEndian width x).reverse
  rw [hlength] at hbytes
  unfold swapBytes
  rw [hbytes, List.reverse_reverse, ofLittleEndian_of_lt h]

theorem htons_lt (x : ℕ) : htons x < 2 ^ 16 := swapBytes_lt 2 x

theorem htons_htons {x : ℕ} (h : x < 2 ^ 16) : htons (htons x) = x := swapBytes_swapBytes h

theorem htonl_htonl {x : ℕ} (h : x < 2 ^ 32) : htonl (htonl x) = x := swapBytes_swapBytes h

theorem htonll_eq (x : ℕ) : htonll x = htonl (x % 2 ^ 32) * 2 ^ 32 + htonl (x / 2 ^ 32 % 2 ^ 32) := by
  have horder : ¬ 1 = htonl 1 := by decide
  have hmask : x &&& 0xFFFFFFFF = x % 2 ^ 32 := Nat.and_two_pow_sub_one_eq_mod x 32
  unfold htonll u32
  rw [if_neg horder, hmask, Nat.shiftRight_eq_div_pow, ← Nat.shiftLeft_add_eq_or_of_lt (htonl_lt _),
    Nat.shiftLeft_eq]

theorem htonll_lt (x : ℕ) : htonll x < 2 ^ 64 := by
  have hlow := htonl_lt (x % 2 ^ 32)
  have hhigh := htonl_lt (x / 2 ^ 32 % 2 ^ 32)
  rw [htonll_eq]
  omega

theorem htonll_htonll {x : ℕ} (h : x < 2 ^ 64) : htonll (htonll x) = x := by
  have hlow := htonl_lt (x % 2 ^ 32)
  have hhigh := htonl_lt (x / 2 ^ 32 % 2 ^ 32)
  have hmod : htonll x % 2 ^ 32 = htonl (x / 2 ^ 32 % 2 ^ 32) := by
    rw [htonll_eq]
    omega
  have hdiv : htonll x / 2 ^ 32 % 2 ^ 32 = htonl (x % 2 ^ 32) := by
    rw [htonll_eq]
    omega
  rw [htonll_eq (htonll x), hmod, hdiv, htonl_htonl (Nat.mod_lt _ (by decide)),
    htonl_htonl (Nat.mod_lt _ (by decide))]
  omega

/-- A word that fits is decoded from its bytes. -/
theorem decodeWord_append {width x : ℕ} (h : x < 256 ^ width) (rest : List UInt8) :
    decodeWord width (toLittleEndian width x ++ rest) = some (x, rest) := by
  have hlength := length_toLittleEndian width x
  have htake : (toLittleEndian width x ++ rest).take width = toLittleEndian width x :=
    List.take_left' hlength
  have hdrop : (toLittleEndian width x ++ rest).drop width = rest := List.drop_left' hlength
  unfold decodeWord
  rw [if_pos (by rw [List.length_append, hlength]; omega), htake, hdrop, ofLittleEndian_of_lt h]

theorem decodeWord_map {α : Type} {width x : ℕ} {v : α} (f : ℕ → α) (hx : x < 256 ^ width)
    (hv : f x = v) (rest : List UInt8) :
    ((decodeWord width (toLittleEndian width x ++ rest)).map fun y => (f y.1, y.2)) =
      some (v, rest) := by
  rw [decodeWord_append hx, Option.map_some, hv]

end Words

section Writing

/-- The bytes that writing a value appends. -/
def valueBytes (t : PacketType) (v : t.Value) : List UInt8 := (Packet.write t v {}).data

@[simp] theorem append_append (p : Packet) (a b : List UInt8) :
    (p.append a).append b = p.append (a ++ b) := by
  unfold Packet.append
  rw [List.append_assoc]

@[simp] theorem data_append (a : List UInt8) : (({} : Packet).append a).data = a := rfl

theorem append_nil (p : Packet) : p.append [] = p := by
  unfold Packet.append
  rw [List.append_nil]

/-- Writing elements appends their bytes. -/
theorem foldl_write {t : PacketType}
    (h : ∀ (v : t.Value) (p : Packet), Packet.write t v p = p.append (valueBytes t v))
    (values : List t.Value) (p : Packet) :
    values.foldl (fun p value => Packet.write t value p) p =
      p.append (values.flatMap (valueBytes t)) := by
  induction values generalizing p with
  | nil => exact (append_nil p).symm
  | cons v values ih => rw [List.foldl_cons, ih, h, append_append, List.flatMap_cons]

/-- Writing a value appends its bytes, to any packet. The induction is on the type. -/
theorem write_eq (t : PacketType) (v : t.Value) (p : Packet) :
    Packet.write t v p = p.append (valueBytes t v) := by
  unfold valueBytes
  induction t generalizing p with
  | string =>
      rw [Packet.write, Packet.write]
      unfold Packet.writeU32
      split
      · rw [append_append, append_append, data_append]
      · rw [data_append]
  | vector element ih =>
      have helement : ∀ (v : element.Value) (p : Packet),
          Packet.write element v p = p.append (valueBytes element v) := fun v p => ih v p
      rw [Packet.write, Packet.write, foldl_write helement, foldl_write helement]
      unfold Packet.writeU32
      rw [append_append, append_append, data_append]
  | array element size ih =>
      have helement : ∀ (v : element.Value) (p : Packet),
          Packet.write element v p = p.append (valueBytes element v) := fun v p => ih v p
      rw [Packet.write, Packet.write, foldl_write helement, foldl_write helement, data_append]
  | _ => rfl

theorem valueBytes_vector (element : PacketType) (values : List element.Value) :
    valueBytes (.vector element) values =
      toLittleEndian 4 (htonl (Model.u32 values.length)) ++
        values.flatMap (valueBytes element) := by
  have h := foldl_write (write_eq element) values
    (({} : Packet).writeU32 (Model.u32 values.length))
  unfold valueBytes
  rw [Packet.write, h]
  rfl

theorem valueBytes_array (element : PacketType) {size : ℕ}
    (values : { values : List element.Value // values.length = size }) :
    valueBytes (.array element size) values = values.1.flatMap (valueBytes element) := by
  have h := foldl_write (write_eq element) values.1 {}
  unfold valueBytes
  rw [Packet.write, h]
  rfl

theorem valueBytes_string (s : List UInt8) :
    valueBytes .string s =
      toLittleEndian 4 (htonl (Model.u32 s.length)) ++ s.take (Model.u32 s.length) := by
  unfold valueBytes
  rw [Packet.write]
  split
  · rfl
  · rename_i hzero
    rw [Nat.eq_zero_of_not_pos hzero, List.take_zero, List.append_nil]
    rfl

theorem writeAll_eq (values : List Packet.TypedValue) (p : Packet) :
    Packet.writeAll p values = p.append (values.flatMap fun v => valueBytes v.1 v.2) := by
  induction values generalizing p with
  | nil => exact (append_nil p).symm
  | cons v values ih =>
      have hrest := ih (Packet.write v.1 v.2 p)
      unfold Packet.writeAll at hrest ⊢
      rw [List.foldl_cons, hrest, write_eq, append_append, List.flatMap_cons]

end Writing

section Decoding

theorem decodeElements_flatMap {α : Type} {bytesOf : α → List UInt8}
    {decodeElement : List UInt8 → Option (α × List UInt8)} (values : List α)
    (h : ∀ v ∈ values, ∀ rest, decodeElement (bytesOf v ++ rest) = some (v, rest))
    (rest : List UInt8) :
    decodeElements decodeElement values.length (values.flatMap bytesOf ++ rest) =
      some (values, rest) := by
  induction values with
  | nil => rfl
  | cons v values ih =>
      have hrest := ih fun w hw => h w (List.mem_cons_of_mem _ hw)
      rw [List.length_cons, decodeElements, List.flatMap_cons, List.append_assoc,
        h v List.mem_cons_self]
      dsimp only
      rw [hrest]

/-- What was written for a value decodes to it. The induction is on the type. -/
theorem decode_valueBytes (t : PacketType) (v : t.Value) (h : LengthsFit t v)
    (rest : List UInt8) : decode t (valueBytes t v ++ rest) = some (v, rest) := by
  induction t generalizing rest with
  | bool =>
      apply decodeWord_map (fun x => decide (x ≠ 0)) _ _ rest
      · cases v <;> decide
      · cases v <;> rfl
  | s8 =>
      apply decodeWord_map (fun x => (UInt8.ofNat x).toInt8) v.toUInt8.toNat_lt _ rest
      rw [UInt8.ofNat_toNat, Int8.toInt8_toUInt8]
  | u8 => exact decodeWord_map UInt8.ofNat v.toNat_lt UInt8.ofNat_toNat rest
  | s16 =>
      apply decodeWord_map (fun x => (UInt16.ofNat (htons x)).toInt16) (htons_lt _) _ rest
      rw [htons_htons v.toUInt16.toNat_lt, UInt16.ofNat_toNat, Int16.toInt16_toUInt16]
  | u16 =>
      apply decodeWord_map (fun x => UInt16.ofNat (htons x)) (htons_lt _) _ rest
      rw [htons_htons v.toNat_lt, UInt16.ofNat_toNat]
  | s32 =>
      apply decodeWord_map (fun x => (UInt32.ofNat (htonl x)).toInt32) (htonl_lt _) _ rest
      rw [htonl_htonl v.toUInt32.toNat_lt, UInt32.ofNat_toNat, Int32.toInt32_toUInt32]
  | u32 =>
      apply decodeWord_map (fun x => UInt32.ofNat (htonl x)) (htonl_lt _) _ rest
      rw [htonl_htonl v.toNat_lt, UInt32.ofNat_toNat]
  | s64 =>
      apply decodeWord_map (fun x => (UInt64.ofNat (htonll x)).toInt64) (htonll_lt _) _ rest
      rw [htonll_htonll v.toUInt64.toNat_lt, UInt64.ofNat_toNat, Int64.toInt64_toUInt64]
  | u64 =>
      apply decodeWord_map (fun x => UInt64.ofNat (htonll x)) (htonll_lt _) _ rest
      rw [htonll_htonll v.toNat_lt, UInt64.ofNat_toNat]
  | float => exact decodeWord_map UInt32.ofNat v.toNat_lt UInt32.ofNat_toNat rest
  | double => exact decodeWord_map UInt64.ofNat v.toNat_lt UInt64.ofNat_toNat rest
  | string =>
      have hlength : Model.u32 v.length = v.length := u32_of_lt h
      rw [valueBytes_string, hlength, List.take_length, List.append_assoc, decode,
        decodeWord_append (htonl_lt _)]
      dsimp only
      rw [htonl_htonl h, if_pos (by rw [List.length_append]; omega), List.take_left, List.drop_left]
  | vector element ih =>
      obtain ⟨hlength, helements⟩ := h
      rw [valueBytes_vector, u32_of_lt hlength, List.append_assoc, decode,
        decodeWord_append (htonl_lt _)]
      dsimp only
      rw [htonl_htonl hlength]
      exact decodeElements_flatMap v (fun w hw rest => ih w (helements w hw) rest) rest
  | array element size ih =>
      have helements := decodeElements_flatMap v.1 (fun w hw rest => ih w (h w hw) rest) rest
      rw [v.2] at helements
      rw [valueBytes_array, decode]
      split
      · rename_i hnone
        rw [helements] at hnone
        cases hnone
      · rename_i values rest' hsome
        rw [helements] at hsome
        cases hsome
        rfl

theorem decodeAll_flatMap (values : List Packet.TypedValue)
    (h : ∀ v ∈ values, LengthsFit v.1 v.2) :
    decodeAll (values.map Sigma.fst) (values.flatMap fun v => valueBytes v.1 v.2) =
      some (values, []) := by
  induction values with
  | nil => rfl
  | cons v values ih =>
      have hrest := ih fun w hw => h w (List.mem_cons_of_mem _ hw)
      rw [List.map_cons, decodeAll, List.flatMap_cons,
        decode_valueBytes v.1 v.2 (h v List.mem_cons_self)]
      dsimp only
      rw [hrest]

end Decoding

section Runs

variable (fresh : (t : PacketType) → t.Value)

/-- Reading some values one after the other is decoding them one after the other. -/
theorem readAll_readsAs (outs : List Packet.TypedValue) {p : Packet} (hp : IsPacket p) :
    ReadsAs p (Packet.readAll fresh outs p) (decodeAll (outs.map Sigma.fst) (unreadData p)) := by
  induction outs generalizing p with
  | nil => exact readsAs_pure hp []
  | cons out outs ih =>
      have hbind : decodeAll ((out :: outs).map Sigma.fst) (unreadData p) =
          (decode out.1 (unreadData p)).bind fun x =>
            (decodeAll (outs.map Sigma.fst) x.2).map fun y =>
              ((⟨out.1, x.1⟩ : Packet.TypedValue) :: y.1, y.2) := by
        rw [List.map_cons, decodeAll]
        cases decode out.1 (unreadData p) with
        | none => rfl
        | some x =>
            dsimp only
            rw [Option.bind_some]
            cases decodeAll (outs.map Sigma.fst) x.2 with
            | none => rfl
            | some y => rfl
      rw [hbind, Packet.readAll]
      apply (readValue_readsAs out.1 out.2 hp).bind (g := fun v rest =>
        (decodeAll (outs.map Sigma.fst) rest).map fun y =>
          ((⟨out.1, v⟩ : Packet.TypedValue) :: y.1, y.2))
      intro value p' _ hp'
      exact (ih hp').map ((⟨out.1, value⟩ : Packet.TypedValue) :: ·) fun _ _ => rfl

theorem roundTripsPacket {values : List Packet.TypedValue}
    (hfit : ∀ v ∈ values, LengthsFit v.1 v.2)
    (hsize : (Packet.writeAll {} values).data.length < 2 ^ 63) :
    RoundTripsPacket fresh values := by
  intro outs houts
  have hwritten := writeAll_eq values {}
  have hp : IsPacket (Packet.writeAll {} values) := by
    refine ⟨hsize, ?_⟩
    rw [hwritten]
    exact Nat.two_pow_pos 63
  have hvalid : (Packet.writeAll {} values).isValid = true := by
    rw [hwritten]
    rfl
  have hunread : unreadData (Packet.writeAll {} values) =
      values.flatMap fun v => valueBytes v.1 v.2 := by
    rw [hwritten]
    rfl
  obtain ⟨read, p, hread, -, -, hsome, -, -⟩ := readAll_readsAs fresh outs hp
  rw [houts, hunread] at hsome
  obtain ⟨hvalid', rfl, hrest⟩ := hsome hvalid values [] (decodeAll_flatMap values hfit)
  refine ⟨p, hread, hvalid', ?_⟩
  exact decide_eq_true (List.drop_eq_nil_iff.mp hrest)

theorem readsSafely {p : Packet} (hp : IsPacket p) (outs : List Packet.TypedValue) :
    ReadsSafely fresh p outs := by
  obtain ⟨values, p', hread, hdata, -, hsome, hnone, hinvalid⟩ :=
    readAll_readsAs fresh outs hp
  refine ⟨values, p', hread, hdata, hsome, ?_, hinvalid⟩
  intro hshort
  rcases Bool.eq_false_or_eq_true p.isValid with htrue | hfalse
  · exact hnone htrue hshort
  · exact (hinvalid hfalse).1

/-- Values whose lengths fit come back from a packet and end it; and whatever a packet holds, some
reads of it stay in its data, and once one of them would go past the end nothing is read any
more. -/
theorem packet_roundTrips_readsSafely (fresh : (t : PacketType) → t.Value)
    (values : List Packet.TypedValue) (hfit : ∀ v ∈ values, LengthsFit v.1 v.2)
    (hsize : (Packet.writeAll {} values).data.length < 2 ^ 63) (p : Packet) (hp : IsPacket p)
    (outs : List Packet.TypedValue) :
    RoundTripsPacket fresh values ∧ ReadsSafely fresh p outs :=
  ⟨roundTripsPacket fresh hfit hsize, readsSafely fresh hp outs⟩

/-- A value of each type, all zero. -/
def zeroValue : (t : PacketType) → t.Value
  | .bool => false
  | .s8 => 0
  | .u8 => 0
  | .s16 => 0
  | .u16 => 0
  | .s32 => 0
  | .u32 => 0
  | .s64 => 0
  | .u64 => 0
  | .float => 0
  | .double => 0
  | .string => []
  | .vector _ => []
  | .array element size => ⟨List.replicate size (zeroValue element), List.length_replicate⟩

/-- A number and a vector of strings, and a packet that is too short for a number. -/
theorem packet_roundTrips_readsSafely_strings :
    (∀ v ∈ ([⟨.u16, 0x1234⟩, ⟨.vector .string, [[0x61]]⟩] : List Packet.TypedValue),
      LengthsFit v.1 v.2) ∧
    (Packet.writeAll {} [⟨.u16, 0x1234⟩, ⟨.vector .string, [[0x61]]⟩]).data.length < 2 ^ 63 ∧
    IsPacket { data := [0, 0] } ∧
    RoundTripsPacket zeroValue [⟨.u16, 0x1234⟩, ⟨.vector .string, [[0x61]]⟩] ∧
    ReadsSafely zeroValue { data := [0, 0] } [⟨.u32, 0⟩] := by
  have hfit : ∀ v ∈ ([⟨.u16, 0x1234⟩, ⟨.vector .string, [[0x61]]⟩] : List Packet.TypedValue),
      LengthsFit v.1 v.2 := by
    simp [LengthsFit]
  have hsize : (Packet.writeAll {} [⟨.u16, 0x1234⟩, ⟨.vector .string, [[0x61]]⟩]).data.length <
      2 ^ 63 := by
    decide
  have hp : IsPacket { data := [0, 0] } := by
    unfold IsPacket
    decide
  obtain ⟨hround, hsafe⟩ :=
    packet_roundTrips_readsSafely zeroValue _ hfit hsize { data := [0, 0] } hp [⟨.u32, 0⟩]
  exact ⟨hfit, hsize, hp, hround, hsafe⟩

/-- The length of a string of 2^32 characters is written as 0. -/
theorem string_not_roundTrips {s : List UInt8} (hs : s.length = 2 ^ 32) :
    ¬ RoundTripsPacket zeroValue [⟨.string, s⟩] := by
  intro hround
  obtain ⟨p, hread, -, -⟩ := hround [⟨.string, []⟩] rfl
  have hwritten : Packet.writeAll {} [⟨.string, s⟩] = { data := [0, 0, 0, 0] } := by
    have hlength : Model.u32 s.length = 0 := by
      rw [hs]
      rfl
    have hbytes := valueBytes_string s
    rw [hlength, List.take_zero] at hbytes
    rw [writeAll_eq, List.flatMap_singleton, hbytes]
    rfl
  have hempty : (Packet.readAll zeroValue [⟨.string, []⟩] { data := [0, 0, 0, 0] }) =
      .ok ([⟨.string, []⟩], { data := [0, 0, 0, 0], readPos := 4 }) := rfl
  rw [hwritten, hempty] at hread
  have hvalues := congrArg Prod.fst (Except.ok.inj hread)
  have hvalue : (⟨.string, []⟩ : Packet.TypedValue) = ⟨.string, s⟩ := (List.cons.inj hvalues).1
  have hnil : ([] : List UInt8) = s := eq_of_heq (Sigma.mk.inj hvalue).2
  rw [← hnil] at hs
  cases hs

theorem string_not_roundTrips_replicate :
    ¬ RoundTripsPacket zeroValue [⟨.string, List.replicate (2 ^ 32) 0x61⟩] :=
  string_not_roundTrips List.length_replicate

end Runs

end Borked3DS.Analysis
