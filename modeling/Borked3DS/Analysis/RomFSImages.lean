import Borked3DS.Analysis.RomFSPreparation

/-!
# Reading the image of a rebuilt RomFS

The data offset map holds the non-empty kept files, each where the padded data of those before it
ends. The loop of `ReadFile` goes from one block to the next, so a read is a slice of the blocks put
together; without a non-empty file there is no entry to start from.
-/

set_option autoImplicit false

namespace Borked3DS.Analysis

open Borked3DS.Library Borked3DS.Model Borked3DS.Model.LayeredFS Borked3DS.Interface

variable {text : TextConversion} {root : Directory} {fs : LayeredFS} {sources : Sources}

/-! ## The data offset map -/

/-- The data offset and the data offset map after some files. -/
def dataFrom : ℕ → List (ℕ × FilePtr) → List (FilePtr × File) → ℕ × List (ℕ × FilePtr)
  | offset, map, [] => (offset, map)
  | offset, map, e :: es =>
      dataFrom ((offset + alignUp 64 e.2.relocation.size 16) % 2 ^ 64)
        (if e.2.relocation.size ≠ 0 then OrderedMap.emplace offset e.1 map else map) es

/-- The entries of the non-empty files, each where the data before it ends. -/
def dataEntries : ℕ → List (FilePtr × File) → List (ℕ × FilePtr)
  | _, [] => []
  | offset, e :: es =>
      if e.2.relocation.size ≠ 0 then
        (offset, e.1) :: dataEntries (offset + paddedSize e.2.relocation.size) es
      else dataEntries (offset + paddedSize e.2.relocation.size) es

/-- The room that the padded data of a file takes. -/
def dataSize (e : FilePtr × File) : ℕ := paddedSize e.2.relocation.size

theorem le_paddedSize (size : ℕ) : size ≤ paddedSize size := by
  unfold paddedSize
  omega

theorem alignUp_dataSize {size : ℕ} (h : paddedSize size < 2 ^ 64) :
    alignUp 64 size 16 = paddedSize size := alignUp_of_lt (by decide) h

theorem emplace_last {m : List (ℕ × FilePtr)} {k : ℕ} {v : FilePtr} (h : ∀ x ∈ m, x.1 < k) :
    OrderedMap.emplace k v m = m ++ [(k, v)] := by
  induction m with
  | nil => rfl
  | cons x m ih =>
      have hx : x.1 < k := h x List.mem_cons_self
      rw [OrderedMap.emplace, if_neg (Nat.lt_asymm hx), if_neg hx.ne',
        ih fun y hy => h y (List.mem_cons_of_mem _ hy)]
      rfl

theorem dataFrom_eq {es : List (FilePtr × File)} {offset : ℕ} {map : List (ℕ × FilePtr)}
    (hfit : offset + totalSize dataSize es < 2 ^ 64) (hmap : ∀ x ∈ map, x.1 < offset) :
    dataFrom offset map es = (offset + totalSize dataSize es, map ++ dataEntries offset es) := by
  induction es generalizing offset map with
  | nil => rw [dataFrom, dataEntries, List.append_nil, totalSize_nil, Nat.add_zero]
  | cons e es ih =>
      rw [totalSize_cons] at hfit ⊢
      have hpadded : paddedSize e.2.relocation.size < 2 ^ 64 := by
        unfold dataSize at hfit
        omega
      have hoffset : (offset + alignUp 64 e.2.relocation.size 16) % 2 ^ 64 =
          offset + dataSize e := by
        rw [alignUp_dataSize hpadded]
        exact Nat.mod_eq_of_lt (by unfold dataSize at hfit; omega)
      rw [dataFrom, hoffset, dataEntries]
      by_cases hsize : e.2.relocation.size ≠ 0
      · have hpos : 0 < dataSize e :=
          lt_of_lt_of_le (Nat.pos_of_ne_zero hsize) (le_paddedSize _)
        rw [if_pos hsize, if_pos hsize, emplace_last hmap, ih (by omega), ← Nat.add_assoc,
          List.append_assoc]
        · rfl
        · intro x hx
          cases List.mem_append.mp hx with
          | inl h => exact lt_trans (hmap x h) (by omega)
          | inr h =>
              rw [List.mem_singleton.mp h]
              omega
      · rw [if_neg hsize, if_neg hsize, ih (by omega), ← Nat.add_assoc]
        · rfl
        · exact fun x hx => lt_of_lt_of_le (hmap x hx) (Nat.le_add_right _ _)

/-- A turn of `BuildFiles`, as far as the data offsets go. -/
theorem buildFile_data {s t : LayeredFS × ℕ} {e : FilePtr × File} (hroot : s.1.root = root)
    (he : e ∈ filesOf root) (h : buildFile text s e.1 = .ok t) :
    t.1.root = root ∧
      t.1.currentDataOffset =
        (s.1.currentDataOffset + alignUp 64 e.2.relocation.size 16) % 2 ^ 64 ∧
      t.1.dataOffsetMap = if e.2.relocation.size ≠ 0 then
          OrderedMap.emplace s.1.currentDataOffset e.1 s.1.dataOffsetMap
        else s.1.dataOffsetMap := by
  unfold buildFile at h
  dsimp only at h
  obtain ⟨f, hf, h⟩ := bind_eq_ok.mp h
  obtain ⟨m, hm, h⟩ := bind_eq_ok.mp h
  obtain ⟨next, -, h⟩ := bind_eq_ok.mp h
  obtain ⟨offset, -, h⟩ := bind_eq_ok.mp h
  obtain ⟨table, -, h⟩ := bind_eq_ok.mp h
  obtain ⟨table', -, h⟩ := bind_eq_ok.mp h
  cases h
  have hfile : f = e.2 := Except.ok.inj (hf.symm.trans (file_ok hroot he))
  unfold fileRecord at hm
  obtain ⟨_, -, hm⟩ := bind_eq_ok.mp hm
  obtain ⟨_, -, hm⟩ := bind_eq_ok.mp hm
  dsimp only at hm
  obtain ⟨_, -, hm⟩ := bind_eq_ok.mp hm
  cases hm
  rw [hfile]
  exact ⟨hroot, rfl, rfl⟩

theorem buildFiles_data {es : List (FilePtr × File)} {s t : LayeredFS × ℕ}
    (hroot : s.1.root = root) (hes : ∀ e ∈ es, e ∈ filesOf root)
    (hrun : (es.map Prod.fst).foldlM (buildFile text) s = .ok t) :
    t.1.root = root ∧ (t.1.currentDataOffset, t.1.dataOffsetMap) =
      dataFrom s.1.currentDataOffset s.1.dataOffsetMap es := by
  induction es generalizing s with
  | nil =>
      cases hrun
      exact ⟨hroot, rfl⟩
  | cons e es ih =>
      rw [List.map_cons, List.foldlM_cons] at hrun
      obtain ⟨s', hs', hrest⟩ := bind_eq_ok.mp hrun
      obtain ⟨hroot', hoffset, hmap⟩ := buildFile_data hroot (hes e List.mem_cons_self) hs'
      have htail := ih hroot' (fun x hx => hes x (List.mem_cons_of_mem _ hx)) hrest
      rw [hoffset, hmap] at htail
      exact htail

/-- What a rebuild leaves of the data offsets, whatever the sizes. -/
theorem rebuild_data (h : rebuildMetadata text root = .ok fs) :
    fs.root = root ∧
      (fs.currentDataOffset, fs.dataOffsetMap) = dataFrom 0 [] (filesOf root) := by
  unfold rebuildMetadata at h
  dsimp only at h
  rw [prepareBuild_prepared] at h
  obtain ⟨_, -, h⟩ := bind_eq_ok.mp h
  obtain ⟨_, -, h⟩ := bind_eq_ok.mp h
  obtain ⟨fs₁, hdirectories, h⟩ := bind_eq_ok.mp h
  obtain ⟨fs₂, hfiles, h⟩ := bind_eq_ok.mp h
  obtain ⟨metadata, -, h⟩ := bind_eq_ok.mp h
  cases h
  obtain ⟨heads, table, rfl⟩ := buildDirectories_frame hdirectories
  unfold buildFiles at hfiles
  dsimp only at hfiles
  obtain ⟨t, hloop, hfiles⟩ := bind_eq_ok.mp hfiles
  obtain ⟨-, -, hfiles⟩ := bind_eq_ok.mp hfiles
  cases hfiles
  exact buildFiles_data rfl (fun _ he => he) hloop

/-! ## Reading one file -/

theorem layeredU64Sub_of_le {x y : ℕ} (h : y ≤ x) (hx : x < 2 ^ 64) :
    LayeredFS.u64Sub x y = x - y := by
  unfold LayeredFS.u64Sub
  omega

/-- A file's data is complete at its source. -/
def Complete (sources : Sources) (e : FilePtr × File) : Prop :=
  sources.romfs.length < 2 ^ 64 ∧
    (fileData sources e.2.relocation).length = e.2.relocation.size

theorem drop_take_take {α : Type} (xs : List α) {i n k : ℕ} (h : i + n ≤ k) :
    ((xs.take k).drop i).take n = (xs.drop i).take n := by
  rw [List.drop_take, List.take_take, Nat.min_eq_left (by omega)]

theorem readRelocated_ok {e : FilePtr × File} (hk : e.2.kept = true)
    (hc : Complete sources e) {relativeOffset toRead : ℕ}
    (h : relativeOffset + toRead ≤ e.2.relocation.size ∨ toRead = 0) :
    readRelocated sources e.2.relocation relativeOffset toRead =
      .ok (((fileData sources e.2.relocation).drop relativeOffset).take toRead) := by
  obtain ⟨hromfs, hlength⟩ := hc
  unfold File.kept at hk
  revert hk hlength h
  generalize e.2.relocation = relocation
  intro hk h hlength
  by_cases hzero : toRead = 0
  · rw [hzero, List.take_zero]
    cases relocation with
    | none originalOffset size => rw [readRelocated, List.take_zero]
    | replaced path size =>
        rw [readRelocated]
        cases sources.host path with
        | none => rfl
        | some contents =>
            dsimp only
            rw [List.take_zero]
    | patched patchedFile => rw [readRelocated, if_pos rfl]
    | removed => cases hk
  · have hle : relativeOffset + toRead ≤ relocation.size := h.resolve_right hzero
    cases relocation with
    | none originalOffset size =>
        have hle' : relativeOffset + toRead ≤ size.toNat := hle
        have hlength' : ((sources.romfs.drop originalOffset.toNat).take size.toNat).length =
            size.toNat := hlength
        rw [List.length_take, List.length_drop] at hlength'
        rw [readRelocated, fileData, drop_take_take _ hle', List.drop_drop,
          Nat.mod_eq_of_lt (by omega)]
    | replaced path size =>
        have hle' : relativeOffset + toRead ≤ size.toNat := hle
        rw [readRelocated, fileData]
        cases hhost : sources.host path with
        | none =>
            have hnone : fileData sources (.replaced path size) = [] := by
              simp only [fileData, hhost]
            have hzeroSize : (0 : ℕ) = size.toNat := by
              rw [hnone] at hlength
              exact hlength
            omega
        | some contents =>
            dsimp only
            rw [drop_take_take _ hle']
    | patched patchedFile =>
        have hle' : relativeOffset + toRead ≤ patchedFile.length % 2 ^ 64 := hle
        have hmod := Nat.mod_le patchedFile.length (2 ^ 64)
        rw [readRelocated, if_neg hzero, readRun, if_pos (by omega), fileData,
          drop_take_take _ hle']
    | removed => cases hk

theorem length_dataBlock {e : FilePtr × File} (hc : Complete sources e) :
    (dataBlock sources e).length = dataSize e := by
  have hle := le_paddedSize e.2.relocation.size
  rw [dataBlock, List.length_append, hc.2, List.length_replicate, dataSize]
  omega

/-- The part of a read that comes from the metadata lies inside them. -/
theorem metadataPart_le (size offset length : ℕ) :
    min offset size + min (size - offset) length ≤ size := by
  rcases Nat.le_total offset size with hle | hle
  · rw [Nat.min_eq_left hle]
    exact Nat.add_le_of_le_sub' hle (Nat.min_le_left _ _)
  · rw [Nat.min_eq_right hle, Nat.sub_eq_zero_of_le hle, Nat.zero_min, Nat.add_zero]

/-- What is read behind the metadata. -/
theorem dataPart_eq (size offset length : ℕ) :
    length - min (size - offset) length = length - (size - offset) := by
  rcases Nat.le_total (size - offset) length with hle | hle
  · rw [Nat.min_eq_left hle]
  · rw [Nat.min_eq_right hle, Nat.sub_self, Nat.sub_eq_zero_of_le hle]

/-- What is left of a bounded count once a smaller bound has been met. -/
theorem min_sub_min {size padded : ℕ} (h : size ≤ padded) (rest : ℕ) :
    min padded rest - min size rest = min (min padded rest - size) (padded - size) := by
  rcases Nat.le_total rest size with hsize | hsize
  · rw [Nat.min_eq_right hsize, Nat.min_eq_right (Nat.le_trans hsize h), Nat.sub_self,
      Nat.sub_eq_zero_of_le hsize, Nat.zero_min]
  · rw [Nat.min_eq_left hsize]
    exact (Nat.min_eq_left (Nat.sub_le_sub_right (Nat.min_le_left _ _) size)).symm

/-- What a turn of the loop of `ReadFile` puts into the buffer: a slice of the file's block. -/
theorem slice_dataBlock {e : FilePtr × File} {relativeOffset : ℕ} (rest : ℕ)
    (hc : Complete sources e) (hrel : relativeOffset < dataSize e) :
    let toRead := if relativeOffset < e.2.relocation.size then
        min (e.2.relocation.size - relativeOffset) rest else 0
    let turn := min (dataSize e - relativeOffset) rest
    ((fileData sources e.2.relocation).drop relativeOffset).take toRead ++
        List.replicate (turn - toRead) 0 =
      ((dataBlock sources e).drop relativeOffset).take turn := by
  intro toRead turn
  have hle := le_paddedSize e.2.relocation.size
  have hdata : ((fileData sources e.2.relocation).drop relativeOffset).length =
      e.2.relocation.size - relativeOffset := by rw [List.length_drop, hc.2]
  unfold dataSize at hrel
  rw [dataBlock, List.drop_append, List.take_append, List.drop_replicate, List.take_replicate, hdata,
    hc.2]
  have hto : toRead = min (e.2.relocation.size - relativeOffset) rest := by
    by_cases hinside : relativeOffset < e.2.relocation.size
    · exact if_pos hinside
    · rw [Nat.sub_eq_zero_of_le (Nat.le_of_not_lt hinside), Nat.zero_min]
      exact if_neg hinside
  have hbehind : e.2.relocation.size - relativeOffset ≤ dataSize e - relativeOffset :=
    Nat.sub_le_sub_right hle relativeOffset
  have hfirst : ((fileData sources e.2.relocation).drop relativeOffset).take toRead =
      ((fileData sources e.2.relocation).drop relativeOffset).take turn := by
    rw [List.take_eq_take_iff, hdata, hto, Nat.min_right_comm, Nat.min_self, Nat.min_right_comm,
      Nat.min_eq_right hbehind]
  have hpadding : paddedSize e.2.relocation.size - e.2.relocation.size -
      (relativeOffset - e.2.relocation.size) =
        dataSize e - relativeOffset - (e.2.relocation.size - relativeOffset) := by
    unfold dataSize
    omega
  have hzeros : turn - toRead = min (turn - (e.2.relocation.size - relativeOffset))
      (paddedSize e.2.relocation.size - e.2.relocation.size -
        (relativeOffset - e.2.relocation.size)) := by
    rw [hto, hpadding]
    exact min_sub_min hbehind rest
  rw [hfirst, hzeros]

/-! ## The loop -/

/-- One turn of the loop of `ReadFile`. -/
theorem readFiles_turn {e : FilePtr × File} {first offset length readSize : ℕ}
    {rest : List (ℕ × FilePtr)} {buffer : List UInt8} (hroot : fs.root = root)
    (he : e ∈ filesOf root) (hc : Complete sources e) (hfirst : first ≤ offset)
    (hlast : offset < first + dataSize e) (hfit : first + dataSize e < 2 ^ 64)
    (hread : readSize < length) (hlength : length < 2 ^ 64) (hbuffer : length ≤ buffer.length) :
    readFiles fs sources length ((first, e.1) :: rest) offset readSize buffer =
      readFiles fs sources length rest
        (offset + min (dataSize e - (offset - first)) (length - readSize))
        (readSize + min (dataSize e - (offset - first)) (length - readSize))
        (overwrite buffer readSize (((dataBlock sources e).drop (offset - first)).take
          (min (dataSize e - (offset - first)) (length - readSize)))) := by
  have hle := le_paddedSize e.2.relocation.size
  have hrel : LayeredFS.u64Sub offset first = offset - first :=
    layeredU64Sub_of_le hfirst (by omega)
  have hpadded : alignUp 64 e.2.relocation.size 16 = dataSize e :=
    alignUp_dataSize (by unfold dataSize at hfit; omega)
  have hslice := slice_dataBlock (length - readSize) hc
    (show offset - first < dataSize e by omega)
  dsimp only at hslice
  rw [readFiles, if_pos hread, file_ok hroot he, ok_bind]
  dsimp only
  rw [hrel, hpadded, layeredU64Sub_of_le (show offset - first ≤ dataSize e by omega) (by omega)]
  generalize hto : (if offset - first < e.2.relocation.size then
    min (e.2.relocation.size - (offset - first)) (length - readSize) else 0) = toRead at hslice ⊢
  generalize hturn : min (dataSize e - (offset - first)) (length - readSize) = turn at hslice ⊢
  have htoRead : toRead ≤ turn := by
    rw [← hto, ← hturn]
    unfold dataSize
    split <;> omega
  have hwithin : offset - first + toRead ≤ e.2.relocation.size ∨ toRead = 0 := by
    rw [← hto]
    split <;> omega
  have hturnLe : turn ≤ length - readSize := hturn ▸ Nat.min_le_right _ _
  have hcontents : (((fileData sources e.2.relocation).drop (offset - first)).take toRead).length =
      toRead := by
    rw [List.length_take, List.length_drop, hc.2]
    omega
  rw [layeredU64Sub_of_le htoRead (by omega),
    readRelocated_ok (kept_of_mem_filesOf he) hc hwithin, ok_bind,
    writeRun_ok (by rw [hcontents]; omega), ok_bind]
  have hzeros : writeRun Fault.undefined (overwrite buffer readSize
      (((fileData sources e.2.relocation).drop (offset - first)).take toRead)) (readSize + toRead)
        (List.replicate (turn - toRead) 0) =
          .ok (overwrite buffer readSize (((dataBlock sources e).drop (offset - first)).take turn)) := by
    rw [writeRun_ok (by
      rw [List.length_replicate, length_overwrite (by rw [hcontents]; omega)]
      omega), ← hslice]
    have happend : overwrite (overwrite buffer readSize
        (((fileData sources e.2.relocation).drop (offset - first)).take toRead))
        (readSize + (((fileData sources e.2.relocation).drop (offset - first)).take toRead).length)
        (List.replicate (turn - toRead) 0) = _ :=
      overwrite_append _ (by rw [hcontents]; omega)
    rw [hcontents] at happend
    rw [happend]
  have hstep : toRead + (turn - toRead) = turn := Nat.add_sub_of_le htoRead
  rw [hzeros, ok_bind, hstep, Nat.mod_eq_of_lt (by omega), Nat.mod_eq_of_lt (by omega)]

theorem readFiles_done {length : ℕ} {entries : List (ℕ × FilePtr)} {offset : ℕ}
    {buffer : List UInt8} :
    readFiles fs sources length entries offset length buffer = .ok (buffer, length) := by
  cases entries with
  | nil => rw [readFiles, if_neg (Nat.lt_irrefl length)]
  | cons x rest => rw [readFiles, if_neg (Nat.lt_irrefl length)]

/-- The blocks of the files put together. -/
def dataOf (sources : Sources) (es : List (FilePtr × File)) : List UInt8 :=
  es.flatMap (dataBlock sources)

theorem length_dataOf {es : List (FilePtr × File)} (hc : ∀ e ∈ es, Complete sources e) :
    (dataOf sources es).length = totalSize dataSize es := by
  induction es with
  | nil => rfl
  | cons e es ih =>
      rw [dataOf, List.flatMap_cons, List.length_append, ← dataOf,
        ih fun x hx => hc x (List.mem_cons_of_mem _ hx),
        length_dataBlock (hc e List.mem_cons_self), totalSize_cons]

/-- The loop of `ReadFile` from an offset in the first block on. -/
theorem readFiles_ok {es : List (FilePtr × File)} {off offset length readSize : ℕ}
    {buffer : List UInt8} (hroot : fs.root = root) (hes : ∀ e ∈ es, e ∈ filesOf root)
    (hne : ∀ e ∈ es, e.2.relocation.size ≠ 0) (hc : ∀ e ∈ es, Complete sources e)
    (hoff : off ≤ offset) (hhead : ∀ e ∈ es.head?, offset < off + dataSize e)
    (hread : readSize ≤ length)
    (hend : offset - off + (length - readSize) ≤ totalSize dataSize es)
    (hfit : off + totalSize dataSize es < 2 ^ 64) (hlength : length < 2 ^ 64)
    (hbuffer : length ≤ buffer.length) :
    readFiles fs sources length (dataEntries off es) offset readSize buffer =
      .ok (overwrite buffer readSize
        (((dataOf sources es).drop (offset - off)).take (length - readSize)), length) := by
  induction es generalizing off offset readSize buffer with
  | nil =>
      rw [totalSize_nil] at hend
      have hdone : readSize = length := by omega
      rw [hdone, readFiles_done, Nat.sub_self, List.take_zero, overwrite_nil]
  | cons e es ih =>
      cases Nat.eq_or_lt_of_le hread with
      | inl hdone => rw [hdone, readFiles_done, Nat.sub_self, List.take_zero, overwrite_nil]
      | inr hlt =>
          rw [totalSize_cons] at hend hfit
          have hce := hc e List.mem_cons_self
          have hhead' := hhead e rfl
          have hblock := length_dataBlock hce
          rw [dataEntries, if_pos (hne e List.mem_cons_self),
            readFiles_turn hroot (hes e List.mem_cons_self) hce hoff hhead' (by omega) hlt hlength
              hbuffer, dataOf, List.flatMap_cons, ← dataOf]
          cases Nat.lt_or_ge (dataSize e - (offset - off)) (length - readSize) with
          | inr hlast =>
              -- The read ends in this block.
              rw [Nat.min_eq_right hlast, Nat.add_sub_of_le hread, readFiles_done,
                List.drop_append_of_le_length (by omega),
                List.take_append_of_le_length (by rw [List.length_drop, hblock]; omega)]
          | inl hmore =>
              have hturn : ((dataBlock sources e).drop (offset - off)).length =
                  dataSize e - (offset - off) := by rw [List.length_drop, hblock]
              have hslice : ((dataBlock sources e).drop (offset - off)).take
                  (dataSize e - (offset - off)) = (dataBlock sources e).drop (offset - off) :=
                List.take_of_length_le (Nat.le_of_eq hturn)
              have hoffset : offset + (dataSize e - (offset - off)) = off + dataSize e := by omega
              have hpos : ∀ x ∈ es.head?, off + dataSize e < off + dataSize e + dataSize x := by
                intro x hx
                have hxs : x ∈ es := List.mem_of_mem_head? hx
                have hxpos := Nat.pos_of_ne_zero (hne x (List.mem_cons_of_mem _ hxs))
                have hxle := le_paddedSize x.2.relocation.size
                unfold dataSize
                omega
              have hlengthBuffer : length ≤ (overwrite buffer readSize
                  ((dataBlock sources e).drop (offset - off))).length := by
                rw [length_overwrite (by rw [hturn]; omega)]
                exact hbuffer
              have hrest : readFiles fs sources length (dataEntries (off + dataSize e) es)
                  (off + dataSize e) (readSize + (dataSize e - (offset - off)))
                  (overwrite buffer readSize ((dataBlock sources e).drop (offset - off))) = _ :=
                ih (fun x hx => hes x (List.mem_cons_of_mem _ hx))
                  (fun x hx => hne x (List.mem_cons_of_mem _ hx))
                  (fun x hx => hc x (List.mem_cons_of_mem _ hx)) (Nat.le_refl _) hpos (by omega)
                  (by omega) (by omega) hlengthBuffer
              have happend : overwrite
                  (overwrite buffer readSize ((dataBlock sources e).drop (offset - off)))
                  (readSize + ((dataBlock sources e).drop (offset - off)).length)
                  ((dataOf sources es).take (length - (readSize + (dataSize e - (offset - off))))) =
                    _ := overwrite_append _ (by rw [hturn]; omega)
              have hall : ((dataBlock sources e).drop (offset - off)).take (length - readSize) =
                  (dataBlock sources e).drop (offset - off) :=
                List.take_of_length_le (by rw [hturn]; omega)
              rw [hturn] at happend
              rw [Nat.sub_self, List.drop_zero, happend] at hrest
              rw [Nat.min_eq_left (Nat.le_of_lt hmore), hslice, hoffset,
                List.drop_append_of_le_length (by omega), List.take_append, hturn, hall, Nat.sub_sub]
              exact hrest

/-! ## The entry a read starts from -/

/-- The non-empty kept files. -/
def dataFiles (root : Directory) : List (FilePtr × File) :=
  (filesOf root).filter fun e => decide (e.2.relocation.size ≠ 0)

theorem mem_dataFiles {e : FilePtr × File} :
    e ∈ dataFiles root ↔ e ∈ filesOf root ∧ e.2.relocation.size ≠ 0 := by
  rw [dataFiles, List.mem_filter, decide_eq_true_iff]

theorem dataEntries_filter (off : ℕ) (es : List (FilePtr × File)) :
    dataEntries off (es.filter fun e => decide (e.2.relocation.size ≠ 0)) = dataEntries off es := by
  induction es generalizing off with
  | nil => rfl
  | cons e es ih =>
      rw [List.filter_cons, dataEntries]
      by_cases hsize : e.2.relocation.size ≠ 0
      · rw [if_pos (decide_eq_true hsize), if_pos hsize, dataEntries, if_pos hsize, ih]
      · have hzero : e.2.relocation.size = 0 := not_not.mp hsize
        rw [if_neg (by simpa using hzero), if_neg hsize, ih, hzero]
        rfl

theorem totalSize_filter (es : List (FilePtr × File)) :
    totalSize dataSize (es.filter fun e => decide (e.2.relocation.size ≠ 0)) =
      totalSize dataSize es := by
  induction es with
  | nil => rfl
  | cons e es ih =>
      rw [List.filter_cons]
      by_cases hsize : e.2.relocation.size ≠ 0
      · rw [if_pos (decide_eq_true hsize), totalSize_cons, ih, totalSize_cons]
      · have hzero : e.2.relocation.size = 0 := not_not.mp hsize
        have hpadded : dataSize e = 0 := by rw [dataSize, hzero]; rfl
        rw [if_neg (by simpa using hzero), ih, totalSize_cons, hpadded, Nat.zero_add]

theorem dataEntries_append {l r : List (FilePtr × File)} (off : ℕ) :
    dataEntries off (l ++ r) = dataEntries off l ++ dataEntries (off + totalSize dataSize l) r := by
  induction l generalizing off with
  | nil => rfl
  | cons e l ih =>
      rw [List.cons_append, dataEntries, dataEntries, ih, totalSize_cons, ← Nat.add_assoc]
      by_cases hsize : e.2.relocation.size ≠ 0
      · rw [if_pos hsize, if_pos hsize]
        rfl
      · rw [if_neg hsize, if_neg hsize]
        rfl

/-- The keys of the entries lie inside the data. -/
theorem mem_dataEntries {es : List (FilePtr × File)} {off : ℕ} {x : ℕ × FilePtr}
    (h : x ∈ dataEntries off es) : off ≤ x.1 ∧ x.1 < off + totalSize dataSize es := by
  induction es generalizing off with
  | nil => cases h
  | cons e es ih =>
      rw [totalSize_cons]
      rw [dataEntries] at h
      by_cases hsize : e.2.relocation.size ≠ 0
      · rw [if_pos hsize] at h
        have hpos : 0 < dataSize e := lt_of_lt_of_le (Nat.pos_of_ne_zero hsize) (le_paddedSize _)
        cases List.mem_cons.mp h with
        | inl heq =>
            rw [heq]
            dsimp only
            omega
        | inr hmem =>
            have hrest := ih hmem
            unfold dataSize at *
            omega
      · rw [if_neg hsize] at h
        have hrest := ih h
        unfold dataSize at *
        omega

theorem dataEntries_sorted (off : ℕ) (es : List (FilePtr × File)) :
    OrderedMap.Sorted (dataEntries off es) := by
  induction es generalizing off with
  | nil => exact List.Pairwise.nil
  | cons e es ih =>
      rw [dataEntries]
      by_cases hsize : e.2.relocation.size ≠ 0
      · rw [if_pos hsize]
        apply List.Pairwise.cons
        · intro x hx
          have hle := (mem_dataEntries hx).1
          have hpos := lt_of_lt_of_le (Nat.pos_of_ne_zero hsize) (le_paddedSize _)
          exact lt_of_lt_of_le (Nat.lt_add_of_pos_right hpos) hle
        · exact ih _
      · rw [if_neg hsize]
        exact ih _

/-- The block that an offset lies in, or the last one. -/
theorem exists_block {es : List (FilePtr × File)} (hne : es ≠ []) (offset : ℕ) :
    ∃ l e r, es = l ++ e :: r ∧ totalSize dataSize l ≤ offset ∧
      (r = [] ∨ offset < totalSize dataSize l + dataSize e) := by
  induction es generalizing offset with
  | nil => exact absurd rfl hne
  | cons e es ih =>
      by_cases hin : es = [] ∨ offset < dataSize e
      · refine ⟨[], e, es, rfl, Nat.zero_le _, hin.imp_right fun h => ?_⟩
        rwa [totalSize_nil, Nat.zero_add]
      · rw [not_or, not_lt] at hin
        obtain ⟨l, x, r, rfl, hl, hr⟩ := ih hin.1 (offset - dataSize e)
        refine ⟨e :: l, x, r, rfl, ?_, hr.imp_right fun h => ?_⟩
        · rw [totalSize_cons]
          omega
        · rw [totalSize_cons]
          omega

/-- The entry that the search of `ReadFile` ends at: that of the block the offset lies in. -/
theorem current_eq {l r : List (FilePtr × File)} {e : FilePtr × File} {offset : ℕ}
    (hsize : e.2.relocation.size ≠ 0) (hl : totalSize dataSize l ≤ offset)
    (hr : r = [] ∨ offset < totalSize dataSize l + dataSize e) :
    OrderedMap.prev (OrderedMap.upperBound offset (dataEntries 0 (l ++ e :: r)))
        (dataEntries 0 (l ++ e :: r)) = some (totalSize dataSize l) ∧
      OrderedMap.entriesFrom (some (totalSize dataSize l)) (dataEntries 0 (l ++ e :: r)) =
        dataEntries (totalSize dataSize l) (e :: r) := by
  have hsorted := dataEntries_sorted 0 (l ++ e :: r)
  have hentries : dataEntries 0 (l ++ e :: r) = dataEntries 0 l ++
      (totalSize dataSize l, e.1) ::
        dataEntries (totalSize dataSize l + paddedSize e.2.relocation.size) r := by
    rw [dataEntries_append, dataEntries, if_pos hsize, Nat.zero_add]
  rw [hentries] at hsorted ⊢
  constructor
  · have hbefore : ∀ x ∈ dataEntries 0 l ++ [(totalSize dataSize l, e.1)], x.1 ≤ offset := by
      intro x hx
      cases List.mem_append.mp hx with
      | inl h =>
          have hlt := (mem_dataEntries h).2
          omega
      | inr h =>
          rw [List.mem_singleton.mp h]
          exact hl
    have hbehind : ∀ x ∈ dataEntries (totalSize dataSize l + paddedSize e.2.relocation.size) r,
        offset < x.1 := by
      intro x hx
      cases hr with
      | inl hnil =>
          rw [hnil] at hx
          cases hx
      | inr hlt => exact lt_of_lt_of_le hlt (mem_dataEntries hx).1
    have hupper := OrderedMap.upperBound_split hbefore hbehind
    rw [List.append_cons] at hsorted ⊢
    rw [hupper, OrderedMap.prev_first hsorted, List.getLast?_concat]
    rfl
  · rw [OrderedMap.entriesFrom_place hsorted, dataEntries, if_pos hsize]

/-! ## Whole reads -/

/-- What a rebuilt RomFS is when its image has a 64-bit size and its sources are complete. -/
structure Readable (fs : LayeredFS) (sources : Sources) (root : Directory) : Prop where
  tree : fs.root = root
  entries : fs.dataOffsetMap = dataEntries 0 (dataFiles root)
  room : fs.currentDataOffset = totalSize dataSize (dataFiles root)
  fits : fs.metadata.length + totalSize dataSize (dataFiles root) < 2 ^ 64
  complete : ∀ e ∈ filesOf root, Complete sources e

theorem readable_of_rebuild (h : rebuildMetadata text root = .ok fs) (hfit : ImageFits fs root)
    (hsources : SourcesComplete sources root) : Readable fs sources root := by
  obtain ⟨hroot, hdata⟩ := rebuild_data h
  have hfits : fs.metadata.length + totalSize dataSize (filesOf root) < 2 ^ 64 := hfit
  have hbound : 0 + totalSize dataSize (filesOf root) < 2 ^ 64 := by omega
  rw [dataFrom_eq hbound fun x hx => absurd hx List.not_mem_nil, Prod.mk.injEq, Nat.zero_add,
    List.nil_append] at hdata
  have htotal : totalSize dataSize (dataFiles root) = totalSize dataSize (filesOf root) :=
    totalSize_filter (filesOf root)
  refine ⟨hroot, ?_, ?_, ?_, fun e he => ⟨hsources.1, hsources.2 e he⟩⟩
  · rw [hdata.2, dataFiles, dataEntries_filter]
  · rw [hdata.1, htotal]
  · rw [htotal]
    exact hfits

section Reads

variable (h : Readable fs sources root)

include h

theorem getSize_eq : fs.getSize = fs.metadata.length + totalSize dataSize (dataFiles root) := by
  rw [getSize, h.room, Nat.mod_eq_of_lt h.fits]

/-- The part of `ReadFile` that reads the files. -/
theorem readFiles_from (hdata : dataFiles root ≠ []) {offset length readSize : ℕ}
    {buffer : List UInt8} (hread : readSize ≤ length)
    (hend : offset + (length - readSize) ≤ totalSize dataSize (dataFiles root))
    (hlength : length < 2 ^ 64) (hbuffer : length ≤ buffer.length) :
    ∃ current,
      OrderedMap.prev (OrderedMap.upperBound offset fs.dataOffsetMap) fs.dataOffsetMap =
          some current ∧
        readFiles fs sources length (OrderedMap.entriesFrom (some current) fs.dataOffsetMap) offset
            readSize buffer =
          .ok (overwrite buffer readSize
            (((dataOf sources (dataFiles root)).drop offset).take (length - readSize)), length) := by
  have hfits := h.fits
  obtain ⟨l, e, r, hsplit, hl, hr⟩ := exists_block hdata offset
  have he : e ∈ dataFiles root := hsplit ▸ List.mem_append_right l List.mem_cons_self
  obtain ⟨hprev, hfrom⟩ := current_eq (mem_dataFiles.mp he).2 hl hr
  rw [← hsplit, ← h.entries] at hprev hfrom
  refine ⟨_, hprev, ?_⟩
  rw [hfrom]
  cases Nat.eq_or_lt_of_le hread with
  | inl hdone => rw [hdone, readFiles_done, Nat.sub_self, List.take_zero, overwrite_nil]
  | inr hlt =>
      have htail : ∀ x ∈ e :: r, x ∈ dataFiles root :=
        fun x hx => hsplit ▸ List.mem_append_right l hx
      have hbefore : ∀ x ∈ l, Complete sources x := fun x hx =>
        h.complete x (mem_dataFiles.mp (hsplit ▸ List.mem_append_left _ hx)).1
      rw [hsplit, totalSize_append] at hend hfits
      have hhead : ∀ x ∈ (e :: r).head?, offset < totalSize dataSize l + dataSize x := by
        intro x hx
        cases hx
        cases hr with
        | inl hnil =>
            rw [hnil, totalSize_cons, totalSize_nil] at hend
            omega
        | inr hlt => exact hlt
      rw [readFiles_ok h.tree (fun x hx => (mem_dataFiles.mp (htail x hx)).1)
        (fun x hx => (mem_dataFiles.mp (htail x hx)).2)
        (fun x hx => h.complete x (mem_dataFiles.mp (htail x hx)).1) hl hhead hread (by omega)
        (by omega) hlength hbuffer]
      have hdrop : (dataOf sources (dataFiles root)).drop offset =
          (dataOf sources (e :: r)).drop (offset - totalSize dataSize l) := by
        rw [hsplit, dataOf, List.flatMap_append, List.drop_append, ← dataOf, ← dataOf,
          length_dataOf hbefore, List.drop_eq_nil_of_le (by rw [length_dataOf hbefore]; exact hl),
          List.nil_append]
      rw [hdrop]

/-- The image: the metadata, then the blocks of the non-empty kept files. -/
theorem readFile_ok (hdata : dataFiles root ≠ []) {offset length : ℕ}
    (hend : offset + length ≤ fs.getSize) :
    Reads fs sources offset length
      (((fs.metadata ++ dataOf sources (dataFiles root)).drop offset).take length) := by
  have hsize := getSize_eq h
  have hlengthData : (dataOf sources (dataFiles root)).length =
      totalSize dataSize (dataFiles root) :=
    length_dataOf fun x hx => h.complete x (mem_dataFiles.mp hx).1
  have hassert : assert ((offset + length) % 2 ^ 64 ≤ fs.getSize) .readOutOfBound = .ok () := by
    rw [assert_eq_ok]
    exact (Nat.mod_le _ _).trans hend
  refine ⟨?_, fun buffer hbuffer => ?_⟩
  · rw [List.length_take, List.length_drop, List.length_append, hlengthData, ← hsize]
    exact Nat.min_eq_left (Nat.le_sub_of_add_le' hend)
  -- `part` bytes come from the metadata, none when the offset lies behind it.
  obtain ⟨part, hpart⟩ : ∃ part, part = min (fs.metadata.length - offset) length := ⟨_, rfl⟩
  have hpartLe : part ≤ length := hpart ▸ Nat.min_le_right _ _
  have hto : (if offset < fs.metadata.length then min (fs.metadata.length - offset) length
      else 0) = part := by
    split
    case isTrue => exact hpart.symm
    case isFalse hbehind =>
      rw [hpart, Nat.sub_eq_zero_of_le (Nat.le_of_not_lt hbehind), Nat.zero_min]
  have hoffset : (if offset < fs.metadata.length then 0 else offset - fs.metadata.length) =
      offset - fs.metadata.length := by
    split
    case isTrue hinside => exact (Nat.sub_eq_zero_of_le (Nat.le_of_lt hinside)).symm
    case isFalse => rfl
  have hrun : readRun Fault.undefined fs.metadata (min offset fs.metadata.length) part =
      .ok ((fs.metadata.drop offset).take part) := by
    rw [readRun, if_pos (hpart ▸ metadataPart_le _ _ _)]
    by_cases hle : offset ≤ fs.metadata.length
    · rw [Nat.min_eq_left hle]
    · have hzero : part = 0 := by
        rw [hpart, Nat.sub_eq_zero_of_le (Nat.le_of_not_le hle), Nat.zero_min]
      rw [hzero, List.take_zero, List.take_zero]
  have hcontents : ((fs.metadata.drop offset).take part).length = part := by
    rw [List.length_take, List.length_drop]
    exact Nat.min_eq_left (hpart ▸ Nat.min_le_left _ _)
  have hfront : 0 + ((fs.metadata.drop offset).take part).length ≤ buffer.length := by
    rw [hcontents, Nat.zero_add]
    exact Nat.le_trans hpartLe hbuffer
  have hroom : length ≤ (overwrite buffer 0 ((fs.metadata.drop offset).take part)).length := by
    rw [length_overwrite hfront]
    exact hbuffer
  have hrest : length - part = length - (fs.metadata.length - offset) := hpart ▸ dataPart_eq _ _ _
  have hinside : offset - fs.metadata.length + (length - part) ≤
      totalSize dataSize (dataFiles root) := by
    rw [hrest]
    rw [hsize] at hend
    omega
  have hfits : length < 2 ^ 64 :=
    Nat.lt_of_le_of_lt (Nat.le_trans (Nat.le_add_left _ _) hend) (hsize ▸ h.fits)
  obtain ⟨current, hcurrent, hfiles⟩ := readFiles_from h hdata hpartLe hinside hfits hroom
  have happend : overwrite (overwrite buffer 0 ((fs.metadata.drop offset).take part))
      (0 + ((fs.metadata.drop offset).take part).length)
      (((dataOf sources (dataFiles root)).drop (offset - fs.metadata.length)).take
        (length - part)) = _ := overwrite_append _ hfront
  rw [hcontents, Nat.zero_add] at happend
  have hslice : (fs.metadata.drop offset).take part ++
      ((dataOf sources (dataFiles root)).drop (offset - fs.metadata.length)).take (length - part) =
        ((fs.metadata ++ dataOf sources (dataFiles root)).drop offset).take length := by
    have hfirst : (fs.metadata.drop offset).take part = (fs.metadata.drop offset).take length := by
      rw [List.take_eq_take_iff, List.length_drop, hpart, Nat.min_right_comm, Nat.min_self,
        Nat.min_comm]
    rw [List.drop_append, List.take_append, List.length_drop, hfirst, hrest]
  unfold readFile
  dsimp only
  rw [hassert, ok_bind, hto, hoffset, hrun, ok_bind, writeRun_ok hfront, ok_bind, hcurrent]
  dsimp only
  rw [hfiles, happend, hslice]

/-- The block of a non-empty kept file stands at its data offset. -/
theorem block_at_offset {e : FilePtr × File} (he : e ∈ dataFiles root) :
    ∃ offset, (offset, e.1) ∈ fs.dataOffsetMap ∧ dataBlock sources e <+:
      (fs.metadata ++ dataOf sources (dataFiles root)).drop (fs.metadata.length + offset) := by
  obtain ⟨l, r, hsplit⟩ := List.append_of_mem he
  have hbefore : ∀ x ∈ l, Complete sources x := fun x hx =>
    h.complete x (mem_dataFiles.mp (hsplit ▸ List.mem_append_left _ hx)).1
  refine ⟨totalSize dataSize l, ?_, dataOf sources r, ?_⟩
  · rw [h.entries, hsplit, dataEntries_append, dataEntries, if_pos (mem_dataFiles.mp he).2,
      Nat.zero_add]
    exact List.mem_append_right _ List.mem_cons_self
  · rw [List.drop_append, List.drop_eq_nil_of_le (Nat.le_add_right _ _), Nat.add_sub_cancel_left,
      List.nil_append, hsplit, ← length_dataOf hbefore, dataOf, dataOf, dataOf,
      List.flatMap_append, List.drop_left, List.flatMap_cons]

/-- With a non-empty kept file, every read is a slice of the image. -/
theorem readsOneImage (hdata : HasData root) : ReadsOneImage fs sources root := by
  obtain ⟨e, he, hsize⟩ := hdata
  have hne : dataFiles root ≠ [] := List.ne_nil_of_mem (mem_dataFiles.mpr ⟨he, hsize⟩)
  have hlengthData : (dataOf sources (dataFiles root)).length =
      totalSize dataSize (dataFiles root) :=
    length_dataOf fun x hx => h.complete x (mem_dataFiles.mp hx).1
  refine ⟨fs.metadata ++ dataOf sources (dataFiles root), ?_, List.prefix_append _ _,
    fun x hx hxs => block_at_offset h (mem_dataFiles.mpr ⟨hx, hxs⟩),
    fun offset length hend => readFile_ok h hne hend, ?_⟩
  · rw [List.length_append, hlengthData, getSize_eq h]
  · intro offset length length' hend
    refine ⟨_, _, readFile_ok h hne (by omega), readFile_ok h hne (by omega), ?_⟩
    rw [← List.drop_drop, ← List.take_add]
    exact readFile_ok h hne hend

end Reads

/-! ## No data -/

theorem dataFrom_empty {es : List (FilePtr × File)} (h : ∀ e ∈ es, e.2.relocation.size = 0) :
    dataFrom 0 [] es = (0, []) := by
  induction es with
  | nil => rfl
  | cons e es ih =>
      rw [dataFrom, h e List.mem_cons_self, if_neg (not_not.mpr rfl)]
      exact ih fun x hx => h x (List.mem_cons_of_mem _ hx)

/-- Without a non-empty kept file, `ReadFile` steps back from the first entry of an empty map. -/
theorem readFile_undefined (hmap : fs.dataOffsetMap = []) {offset length : ℕ} {buffer : List UInt8}
    {result : List UInt8 × ℕ} : fs.readFile sources offset length buffer ≠ .ok result := by
  intro h
  unfold readFile at h
  dsimp only at h
  obtain ⟨-, -, h⟩ := bind_eq_ok.mp h
  obtain ⟨contents, -, h⟩ := bind_eq_ok.mp h
  obtain ⟨buffer', -, h⟩ := bind_eq_ok.mp h
  rw [hmap] at h
  cases h

/-- The reads of a rebuilt RomFS are the slices of one image only if some kept file is not empty;
and exactly then, as far as the image has a 64-bit size and the sources of the files are complete. -/
theorem readsOneImage_iff (text : TextConversion) (root : Directory) (fs : LayeredFS)
    (sources : Sources) (h : rebuildMetadata text root = .ok fs) :
    (ReadsOneImage fs sources root → HasData root) ∧
      (ImageFits fs root → SourcesComplete sources root →
        (ReadsOneImage fs sources root ↔ HasData root)) := by
  have honly : ReadsOneImage fs sources root → HasData root := by
    rintro ⟨image, himage⟩
    by_contra hdata
    have hempty : ∀ e ∈ filesOf root, e.2.relocation.size = 0 := fun e he =>
      by_contra fun hsize => hdata ⟨e, he, hsize⟩
    obtain ⟨-, hmap⟩ := rebuild_data h
    rw [dataFrom_empty hempty, Prod.mk.injEq] at hmap
    exact readFile_undefined hmap.2 ((himage.reads 0 0 (Nat.zero_le _)).2 [] (Nat.le_refl _))
  exact ⟨honly, fun hfit hsources => ⟨honly, readsOneImage (readable_of_rebuild h hfit hsources)⟩⟩

/-- A root with an empty file, a patched one and a replaced one. -/
def imageRoot : Directory :=
  .mk [] [⟨[0x41], .none 0 0⟩, ⟨[0x42], .patched [1, 2, 3]⟩, ⟨[0x43], .replaced [0x78] 2⟩] []

/-- A host with the replacement file of `imageRoot`. -/
def imageSources : Sources where
  romfs := []
  host := fun path => if path = [0x78] then some [4, 5, 6] else none

/-- Every read of the sample is a slice of one image. -/
theorem readsOneImage_imageRoot : ∃ fs, rebuildMetadata asciiConversion imageRoot = .ok fs ∧
    ReadsOneImage fs imageSources imageRoot := by
  have hlength : (rebuildMetadata asciiConversion imageRoot).toOption.map
      (fun fs => fs.metadata.length) = some 208 := by decide +kernel
  cases hfs : rebuildMetadata asciiConversion imageRoot with
  | error fault =>
      rw [hfs] at hlength
      cases hlength
  | ok fs =>
      rw [hfs] at hlength
      have hmetadata : fs.metadata.length = 208 := Option.some.inj hlength
      have hfit : ImageFits fs imageRoot := by
        unfold ImageFits
        rw [hmetadata]
        decide
      have hsources : SourcesComplete imageSources imageRoot := ⟨by decide, by decide⟩
      exact ⟨fs, rfl, ((readsOneImage_iff _ _ _ _ hfs).2 hfit hsources).mpr (by decide)⟩

/-- A RomFS whose kept files are all empty: reading its header is undefined already. -/
theorem read_undefined_without_data : ∃ root fs sources,
    rebuildMetadata asciiConversion root = .ok fs ∧ fs.getSize = 128 ∧
      ¬ ReadsOneImage fs sources root ∧
      ∀ buffer result, fs.readFile sources 0 romFSHeaderSize buffer ≠ .ok result := by
  let root : Directory := .mk [] [⟨[0x41], .none 0 0⟩] []
  have hsize : (rebuildMetadata asciiConversion root).toOption.map getSize = some 128 := by
    decide +kernel
  cases hfs : rebuildMetadata asciiConversion root with
  | error fault =>
      rw [hfs] at hsize
      cases hsize
  | ok fs =>
      rw [hfs] at hsize
      have hmap : fs.dataOffsetMap = [] := congrArg Prod.snd (rebuild_data hfs).2
      refine ⟨root, fs, ⟨[], fun _ => none⟩, hfs, Option.some.inj hsize, ?_,
        fun _ _ => readFile_undefined hmap⟩
      rintro ⟨image, himage⟩
      exact readFile_undefined hmap ((himage.reads 0 0 (Nat.zero_le _)).2 [] (Nat.le_refl _))

end Borked3DS.Analysis
