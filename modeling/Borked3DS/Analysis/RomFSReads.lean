import Borked3DS.Interface.RomFSTree

/-!
# Cached reads of a RomFS

A cached line holds the part of the RomFS that lies under it. The segments of a request lie inside
lines, so each is copied out of one, and their concatenation is the slice that was asked for.
-/

set_option autoImplicit false

namespace Borked3DS.Analysis

open Borked3DS.Library Borked3DS.Model Borked3DS.Model.RomFSReader Borked3DS.Interface

section Slices

variable {α : Type}

/-- A slice of a list depends on no more than its front. -/
theorem drop_take_of_take_eq {xs ys : List α} {m n i k : ℕ} (h : xs.take m = ys.take n)
    (hm : i + k ≤ m) (hn : i + k ≤ n) : (xs.drop i).take k = (ys.drop i).take k := by
  have hfront : xs.take (i + k) = ys.take (i + k) := by
    calc xs.take (i + k) = (xs.take m).take (i + k) := by
          rw [List.take_take, Nat.min_eq_left hm]
      _ = (ys.take n).take (i + k) := by rw [h]
      _ = ys.take (i + k) := by rw [List.take_take, Nat.min_eq_left hn]
  rw [List.take_drop, List.take_drop, hfront]

/-- A slice is the slice of its head and the slice behind it. -/
theorem drop_take_split (xs : List α) {i k n : ℕ} (h : k ≤ n) :
    (xs.drop i).take n = (xs.drop i).take k ++ (xs.drop (i + k)).take (n - k) := by
  have hsum : n = k + (n - k) := by omega
  conv_lhs => rw [hsum]
  rw [List.take_add, List.drop_drop]

end Slices

section Cipher

variable {r : DirectRomFSReader}

theorem process_take (c : Cipher) (position n : ℕ) (bytes : List UInt8) :
    (c.process position bytes).take n = c.process position (bytes.take n) := by
  unfold Cipher.process
  apply List.ext_getElem?
  intro i
  by_cases hi : i < n
  · rw [List.getElem?_take_of_lt hi, List.getElem?_mapIdx, List.getElem?_mapIdx,
      List.getElem?_take_of_lt hi]
  · rw [List.getElem?_take_eq_none (Nat.le_of_not_lt hi), List.getElem?_mapIdx,
      List.getElem?_take_eq_none (Nat.le_of_not_lt hi)]
    rfl

theorem process_drop (c : Cipher) (position n : ℕ) (bytes : List UInt8) :
    (c.process position bytes).drop n = c.process (position + n) (bytes.drop n) := by
  unfold Cipher.process
  apply List.ext_getElem?
  intro i
  rw [List.getElem?_drop, List.getElem?_mapIdx, List.getElem?_mapIdx, List.getElem?_drop,
    Nat.add_assoc]

theorem plainBytes_take (position n : ℕ) (bytes : List UInt8) :
    (plainBytes r position bytes).take n = plainBytes r position (bytes.take n) := by
  unfold plainBytes
  split
  · rfl
  · exact process_take _ _ _ _

theorem plainBytes_drop (position n : ℕ) (bytes : List UInt8) :
    (plainBytes r position bytes).drop n = plainBytes r (position + n) (bytes.drop n) := by
  unfold plainBytes
  split
  · rfl
  · rw [process_drop, Nat.add_assoc]

theorem length_plainBytes (position : ℕ) (bytes : List UInt8) :
    (plainBytes r position bytes).length = bytes.length := by
  unfold plainBytes
  split
  · rfl
  · exact Cipher.length_process _ _ _

theorem length_romFSWindow (h : IsWindow r) : (romFSWindow r).length = r.dataSize := by
  have hinside := h.inside
  unfold romFSWindow
  rw [length_plainBytes, List.length_take, List.length_drop]
  omega

/-- The front of what the file holds from a place of the window on is the window's. -/
theorem plainBytes_window {page n : ℕ} (hpage : page + n ≤ r.dataSize) :
    (plainBytes r page (r.file.drop (r.fileOffset + page))).take n =
      ((romFSWindow r).drop page).take n := by
  unfold romFSWindow
  rw [plainBytes_take, plainBytes_drop, Nat.zero_add, plainBytes_take, List.drop_take,
    List.drop_drop, List.take_take, Nat.min_eq_left (by omega)]

/-- Decrypting what was read is reading what the game sees. -/
theorem decrypt_eq (h : IsWindow r) {position : ℕ} (bytes : List UInt8)
    (hposition : position < r.dataSize) :
    r.decrypt position bytes.length bytes = .ok (plainBytes r position bytes) := by
  unfold DirectRomFSReader.decrypt plainBytes
  cases hcipher : r.cipher with
  | none => rfl
  | some c =>
      have hlt := h.position_lt c hcipher
      dsimp only
      rw [if_pos rfl, u64_of_lt (by omega)]

end Cipher

section Lines

variable {r : DirectRomFSReader}

/-- Every cached line holds the part of the RomFS that lies under it. -/
def CacheHolds (r : DirectRomFSReader) : Prop :=
  ∀ page line, r.cache.value? page = some line →
    line.1.take (r.dataSize - page) = ((romFSWindow r).drop page).take cacheLineSize

/-- Only the cache differs. -/
def SameWindow (r r' : DirectRomFSReader) : Prop :=
  r'.file = r.file ∧ r'.cipher = r.cipher ∧ r'.fileOffset = r.fileOffset ∧
    r'.dataSize = r.dataSize

namespace SameWindow

variable {r' r'' : DirectRomFSReader}

theorem refl (r : DirectRomFSReader) : SameWindow r r := ⟨rfl, rfl, rfl, rfl⟩

theorem trans (h : SameWindow r r') (h' : SameWindow r' r'') : SameWindow r r'' :=
  ⟨h'.1.trans h.1, h'.2.1.trans h.2.1, h'.2.2.1.trans h.2.2.1, h'.2.2.2.trans h.2.2.2⟩

theorem window (h : SameWindow r r') : romFSWindow r' = romFSWindow r := by
  obtain ⟨hfile, hcipher, hoffset, hsize⟩ := h
  unfold romFSWindow plainBytes
  rw [hfile, hcipher, hoffset, hsize]

theorem isWindow (h : SameWindow r r') (hr : IsWindow r) : IsWindow r' := by
  obtain ⟨hfile, hcipher, hoffset, hsize⟩ := h
  exact
    { inside := by rw [hfile, hoffset, hsize]; exact hr.inside
      length_lt := by rw [hfile]; exact hr.length_lt
      position_lt := by rw [hcipher, hsize]; exact hr.position_lt }

end SameWindow

/-- A line that is not cached is read from the file, as far as the file goes. -/
theorem readLine_eq (h : IsWindow r) {page : ℕ} (hpage : page < r.dataSize) :
    r.readLine page =
      .ok (((r.file.drop (r.fileOffset + page)).take cacheLineSize).length,
        plainBytes r page ((r.file.drop (r.fileOffset + page)).take cacheLineSize)) := by
  have hinside := h.inside
  have hlt := h.length_lt
  have hplace : u64 (r.fileOffset + page) = r.fileOffset + page := u64_of_lt (by omega)
  have hread : readAtBytes r.file cacheLineSize (r.fileOffset + page) =
      (((r.file.drop (r.fileOffset + page)).take cacheLineSize).length,
        (r.file.drop (r.fileOffset + page)).take cacheLineSize) := by
    unfold readAtBytes
    rw [if_neg (by decide), if_neg (by omega)]
  have hsome : ((r.file.drop (r.fileOffset + page)).take cacheLineSize).length ≠ 0 := by
    rw [List.length_take, List.length_drop]
    unfold cacheLineSize
    omega
  unfold DirectRomFSReader.readLine
  rw [hplace, hread]
  dsimp only
  rw [if_neg hsome, decrypt_eq h _ hpage]
  rfl

/-- The line read from the file holds the part of the RomFS under it. -/
theorem fill_holds (h : IsWindow r) {page : ℕ} (hpage : page < r.dataSize) (line : Line)
    (hlength : (plainBytes r page
      ((r.file.drop (r.fileOffset + page)).take cacheLineSize)).length ≤ cacheLineSize) :
    (line.fill (plainBytes r page ((r.file.drop (r.fileOffset + page)).take cacheLineSize))
      hlength).1.take (r.dataSize - page) = ((romFSWindow r).drop page).take cacheLineSize := by
  have hinside := h.inside
  have hwindow := length_romFSWindow h
  have hfront : ((romFSWindow r).drop page).take cacheLineSize =
      ((romFSWindow r).drop page).take (min cacheLineSize (r.dataSize - page)) := by
    rcases Nat.le_total cacheLineSize (r.dataSize - page) with hfits | hfits
    · rw [Nat.min_eq_left hfits]
    · rw [Nat.min_eq_right hfits, List.take_of_length_le (by rw [List.length_drop]; omega),
        List.take_of_length_le (by rw [List.length_drop]; omega)]
  have hbytes : (plainBytes r page ((r.file.drop (r.fileOffset + page)).take cacheLineSize)).length =
      min cacheLineSize (r.file.length - (r.fileOffset + page)) := by
    rw [length_plainBytes, List.length_take, List.length_drop]
  have hline : (line.fill (plainBytes r page ((r.file.drop (r.fileOffset + page)).take
      cacheLineSize)) hlength).1.take (r.dataSize - page) =
      (plainBytes r page ((r.file.drop (r.fileOffset + page)).take cacheLineSize)).take
        (min cacheLineSize (r.dataSize - page)) := by
    unfold Line.fill overwrite
    dsimp only
    rw [List.take_zero, List.nil_append, Nat.zero_add]
    rcases Nat.le_total cacheLineSize (r.dataSize - page) with hfits | hfits
    · have hall : (plainBytes r page ((r.file.drop (r.fileOffset + page)).take
          cacheLineSize)).length = cacheLineSize := by
        rw [hbytes]
        omega
      have htake := List.take_of_length_le (Nat.le_trans (Nat.le_of_eq hall) hfits)
      have htake' := List.take_of_length_le (Nat.le_of_eq hall)
      rw [hall, List.drop_eq_nil_of_le (Nat.le_of_eq line.2), List.append_nil,
        Nat.min_eq_left hfits, htake, htake']
    · rw [Nat.min_eq_right hfits, List.take_append_of_le_length (by omega)]
  rw [hline, hfront, plainBytes_take, List.take_take, ← plainBytes_take,
    Nat.min_eq_left (Nat.min_le_left _ _)]
  exact plainBytes_window (by omega)

end Lines

section Segments

variable {r : DirectRomFSReader}

theorem offsetToPage_add (offset : ℕ) :
    offsetToPage offset + offset % cacheLineSize = offset :=
  Nat.sub_add_cancel (Nat.mod_le _ _)

/-- A segment inside a line and inside the RomFS is copied out of the line, cached or not. -/
theorem readSegment_eq (h : IsWindow r) (hcache : CacheHolds r) (seg : ℕ × ℕ)
    (hpos : 0 < seg.2) (hinside : seg.1 + seg.2 ≤ r.dataSize)
    (hline : seg.1 % cacheLineSize + seg.2 ≤ cacheLineSize) :
    ∃ r', r.readSegment seg = .ok (((romFSWindow r).drop seg.1).take seg.2, r') ∧
      SameWindow r r' ∧ CacheHolds r' := by
  have hpage := offsetToPage_add seg.1
  have hinto : seg.1 - offsetToPage seg.1 = seg.1 % cacheLineSize := by omega
  have copied : ∀ line : Line,
      line.1.take (r.dataSize - offsetToPage seg.1) =
        ((romFSWindow r).drop (offsetToPage seg.1)).take cacheLineSize →
      readRun Fault.undefined line.1 (seg.1 % cacheLineSize) seg.2 =
        .ok (((romFSWindow r).drop seg.1).take seg.2) := by
    intro line hholds
    have hslice := drop_take_of_take_eq (i := seg.1 % cacheLineSize) (k := seg.2) hholds
      (by omega) hline
    unfold readRun
    rw [if_pos (by rw [line.2]; exact hline), hslice, List.drop_drop, hpage]
  unfold DirectRomFSReader.readSegment
  dsimp only
  rw [hinto]
  cases hvalue : r.cache.value? (offsetToPage seg.1) with
  | some line =>
      obtain ⟨place, cache, hrequest, hplace, hsame⟩ := StaticLRUCache.request_found hvalue
      have hamount : min (seg.1 % cacheLineSize + seg.2) cacheLineSize - seg.1 % cacheLineSize =
          seg.2 := by
        omega
      rw [hrequest]
      dsimp only
      rw [if_pos rfl, if_pos (by omega), hamount, hplace, copied line (hcache _ _ hvalue), ok_bind]
      refine ⟨_, rfl, SameWindow.refl _, ?_⟩
      intro page line' hline'
      exact hcache page line' ((hsame page).symm.trans hline')
  | none =>
      obtain ⟨place, cache, hrequest, harray, hstore⟩ := StaticLRUCache.request_missing hvalue
      have hlt : offsetToPage seg.1 < r.dataSize := by omega
      have hread := readLine_eq h hlt
      have hsize : seg.1 % cacheLineSize + seg.2 ≤
          ((r.file.drop (r.fileOffset + offsetToPage seg.1)).take cacheLineSize).length := by
        have hfile := h.inside
        rw [List.length_take, List.length_drop]
        omega
      rw [hrequest]
      dsimp only
      rw [if_neg (by decide)]
      split
      · rename_i fault hfault
        rw [hread] at hfault
        cases hfault
      · rename_i readSize bytes hok
        have hpair := Except.ok.inj (hread.symm.trans hok)
        obtain ⟨rfl, rfl⟩ := Prod.mk.inj hpair
        have hamount : min (seg.1 % cacheLineSize + seg.2)
            ((r.file.drop (r.fileOffset + offsetToPage seg.1)).take cacheLineSize).length -
              seg.1 % cacheLineSize = seg.2 := by
          rw [Nat.min_eq_left hsize]
          omega
        have hholds := fill_holds h hlt cache.array[place] (DirectRomFSReader.readLine_length hok)
        rw [if_pos (by omega), hamount, copied _ hholds, ok_bind]
        refine ⟨_, rfl, ⟨rfl, rfl, rfl, rfl⟩, ?_⟩
        intro page line' hline'
        by_cases hsame : page = offsetToPage seg.1
        · subst hsame
          have hnew := (hstore _).1.symm.trans hline'
          cases hnew
          exact hholds
        · exact hcache page line' ((hstore _).2 page line' hsame hline')

/-- The segments that a request is broken into are the slice that was asked for. The induction is
on the fuel, of which each segment takes some. -/
theorem readSegments_breakup {fuel offset length : ℕ} (h : IsWindow r) (hcache : CacheHolds r)
    (hfuel : length ≤ fuel) (hinside : offset + length ≤ r.dataSize) :
    ∃ r', r.readSegments (breakupLoop fuel offset length) =
        .ok (((romFSWindow r).drop offset).take length, r') ∧ SameWindow r r' ∧ CacheHolds r' := by
  induction fuel generalizing r offset length with
  | zero =>
      obtain rfl := Nat.le_zero.mp hfuel
      exact ⟨r, rfl, SameWindow.refl r, hcache⟩
  | succ fuel ih =>
      rw [breakupLoop]
      by_cases hzero : length = 0
      · subst hzero
        exact ⟨r, rfl, SameWindow.refl r, hcache⟩
      · have hfile := h.inside
        have hfile_lt := h.length_lt
        have hmod : offset % cacheLineSize < cacheLineSize := Nat.mod_lt _ (by decide)
        have hnext : offsetToPage (u64 (offset + cacheLineSize)) =
            offset - offset % cacheLineSize + cacheLineSize := by
          have hsum : u64 (offset + cacheLineSize) = offset + cacheLineSize :=
            u64_of_lt (by unfold cacheLineSize; omega)
          have hle := Nat.mod_le offset cacheLineSize
          rw [hsum]
          unfold offsetToPage
          rw [Nat.add_mod_right]
          omega
        have hle := Nat.mod_le offset cacheLineSize
        have hroom : u64Sub (offset - offset % cacheLineSize + cacheLineSize) offset =
            cacheLineSize - offset % cacheLineSize := by
          rw [u64Sub_of_le (by omega) (by unfold cacheLineSize; omega)]
          omega
        rw [if_neg hzero, hnext]
        dsimp only
        rw [hroom, DirectRomFSReader.readSegments]
        obtain ⟨r₁, hseg, hwin₁, hcache₁⟩ := readSegment_eq h hcache
          (offset, min length (cacheLineSize - offset % cacheLineSize))
          (by dsimp only; omega) (by dsimp only; omega) (by dsimp only; omega)
        dsimp only at hseg
        rw [hseg, ok_bind]
        dsimp only
        rcases Nat.le_total length (cacheLineSize - offset % cacheLineSize) with hlast | hmore
        · -- the last segment: nothing is left behind it
          rw [Nat.min_eq_left hlast, Nat.sub_self]
          have hnone : ∀ place, breakupLoop fuel place 0 = [] := by
            intro place
            cases fuel with
            | zero => rfl
            | succ fuel => rw [breakupLoop, if_pos rfl]
          rw [hnone]
          refine ⟨r₁, ?_, hwin₁, hcache₁⟩
          rw [DirectRomFSReader.readSegments, ok_bind]
          dsimp only
          rw [List.append_nil]
          rfl
        · rw [Nat.min_eq_right hmore]
          have hplace : offset - offset % cacheLineSize + cacheLineSize =
              offset + (cacheLineSize - offset % cacheLineSize) := by
            omega
          have hleft : length - (cacheLineSize - offset % cacheLineSize) ≤ fuel := by omega
          have hend : offset + (cacheLineSize - offset % cacheLineSize) +
              (length - (cacheLineSize - offset % cacheLineSize)) ≤ r₁.dataSize := by
            rw [hwin₁.2.2.2]
            omega
          obtain ⟨r₂, hrest, hwin₂, hcache₂⟩ := ih (hwin₁.isWindow h) hcache₁ hleft hend
          rw [hplace, hrest, ok_bind]
          refine ⟨r₂, ?_, hwin₁.trans hwin₂, hcache₂⟩
          rw [hwin₁.window, drop_take_split _ hmore]
          rfl

theorem breakupLoop_le {fuel offset length : ℕ} {seg : ℕ × ℕ}
    (h : seg ∈ breakupLoop fuel offset length) : seg.2 ≤ length := by
  induction fuel generalizing offset length with
  | zero => cases h
  | succ fuel ih =>
      rw [breakupLoop] at h
      split at h
      · cases h
      · rcases List.mem_cons.mp h with rfl | hmem
        · exact Nat.min_le_left _ _
        · exact Nat.le_trans (ih hmem) (Nat.sub_le _ _)

end Segments

section Calls

variable {r : DirectRomFSReader} {offset length : ℕ}

/-- A slice that is asked for ends where the RomFS does. -/
theorem window_take (h : IsWindow r) :
    ((romFSWindow r).drop offset).take (min length (r.dataSize - offset)) =
      ((romFSWindow r).drop offset).take length := by
  have hlength : ((romFSWindow r).drop offset).length = r.dataSize - offset := by
    rw [List.length_drop, length_romFSWindow h]
  rw [← hlength, ← List.take_take, List.take_length]

/-- A read that is too big for the cache. -/
theorem readFile_big (h : IsWindow r) (hbig : cacheLineSize < length)
    (hinside : offset + length ≤ r.dataSize) :
    readAtBytes r.file length (u64 (r.fileOffset + offset)) =
        (length, (r.file.drop (r.fileOffset + offset)).take length) ∧
      r.decrypt offset length ((r.file.drop (r.fileOffset + offset)).take length) =
        .ok (((romFSWindow r).drop offset).take length) := by
  have hfile := h.inside
  have hlt := h.length_lt
  have hlength : ((r.file.drop (r.fileOffset + offset)).take length).length = length := by
    rw [List.length_take, List.length_drop]
    omega
  constructor
  · rw [u64_of_lt (by omega)]
    unfold readAtBytes
    rw [if_neg (by omega), if_neg (by omega), hlength]
  · have hstart : offset < r.dataSize := by omega
    have hdecrypt := decrypt_eq h ((r.file.drop (r.fileOffset + offset)).take length) hstart
    rw [hlength, ← plainBytes_take] at hdecrypt
    rw [hdecrypt, plainBytes_window hinside]

/-- A call that starts in the RomFS reads what a read without a cache does. -/
theorem readFile_eq (h : IsWindow r) (hcache : CacheHolds r)
    (hstart : StartsInside r.dataSize (offset, length)) :
    ∃ r', r.readFile offset length = .ok (directRead r (offset, length), r') ∧
      SameWindow r r' ∧ CacheHolds r' := by
  have hfile := h.inside
  have hlt := h.length_lt
  have hclamp : min length (u64Sub r.dataSize offset) = min length (r.dataSize - offset) := by
    rcases hstart with hin | hzero
    · rw [u64Sub_of_le hin (by omega)]
    · dsimp only at hzero
      rw [hzero, Nat.zero_min, Nat.zero_min]
  have hdirect : directRead r (offset, length) =
      (min length (r.dataSize - offset),
        ((romFSWindow r).drop offset).take (min length (r.dataSize - offset))) := by
    rw [window_take h]
    rfl
  unfold DirectRomFSReader.readFile
  rw [hclamp, hdirect]
  dsimp only
  generalize hamount : min length (r.dataSize - offset) = amount
  by_cases hzero : amount = 0
  · rw [if_pos hzero, hzero, List.take_zero]
    exact ⟨r, rfl, SameWindow.refl r, hcache⟩
  · have hinside : offset + amount ≤ r.dataSize := by omega
    rw [if_neg hzero]
    unfold breakupRead
    by_cases hbig : cacheLineSize < amount
    · obtain ⟨hread, hdecrypt⟩ := readFile_big h hbig hinside
      rw [if_pos hbig]
      dsimp only
      rw [if_pos hbig, hread]
      dsimp only
      rw [hdecrypt]
      exact ⟨r, rfl, SameWindow.refl r, hcache⟩
    · obtain ⟨r', hsegments, hsame, hholds⟩ :=
        readSegments_breakup h hcache (Nat.le_refl amount) hinside
      have hlength : (((romFSWindow r).drop offset).take amount).length = amount := by
        rw [List.length_take, List.length_drop, length_romFSWindow h]
        omega
      have hcached : (r.readSegments (breakupLoop amount offset amount) >>= fun result =>
          pure ((result.1.length, result.1), result.2) :
            Exec ((ℕ × List UInt8) × DirectRomFSReader)) =
            .ok ((amount, ((romFSWindow r).drop offset).take amount), r') := by
        rw [hsegments, ok_bind]
        dsimp only
        rw [hlength]
        rfl
      rw [if_neg hbig]
      refine ⟨r', ?_, hsame, hholds⟩
      split
      · rename_i seg hseg
        have hsmall : seg.2 ≤ amount := by
          have hmem : seg ∈ breakupLoop amount offset amount := by
            rw [hseg]
            exact List.mem_singleton_self seg
          exact breakupLoop_le hmem
        rw [if_neg (by omega)]
        exact hcached
      · exact hcached

/-- What a reader returns depends on its window alone. -/
theorem SameWindow.directRead {r' : DirectRomFSReader} (h : SameWindow r r') (request : ℕ × ℕ) :
    Interface.directRead r' request = Interface.directRead r request := by
  unfold Interface.directRead
  rw [h.window, h.2.2.2]

/-- From a cache that holds the RomFS, every call of a run that starts in the RomFS reads what a
read without a cache does. The induction is on the run; the invariant is that the cache holds the
RomFS. -/
theorem readFiles_eq {requests : List (ℕ × ℕ)} (h : IsWindow r) (hcache : CacheHolds r)
    (hstart : ∀ request ∈ requests, StartsInside r.dataSize request) :
    ReadsDirectly r requests := by
  induction requests generalizing r with
  | nil => exact ⟨r, rfl⟩
  | cons request requests ih =>
      obtain ⟨offset, length⟩ := request
      obtain ⟨r₁, hcall, hsame, hholds⟩ :=
        readFile_eq h hcache (hstart _ List.mem_cons_self)
      obtain ⟨r₂, hrest⟩ := ih (hsame.isWindow h) hholds (by
        intro request hmem
        rw [hsame.2.2.2]
        exact hstart request (List.mem_cons_of_mem _ hmem))
      have hmap : requests.map (directRead r₁) = requests.map (directRead r) :=
        List.map_congr_left fun request _ => hsame.directRead request
      refine ⟨r₂, ?_⟩
      rw [DirectRomFSReader.readFiles, hcall, ok_bind]
      dsimp only
      rw [hrest, ok_bind, hmap]
      rfl

/-- Over every run of calls on a fresh reader, none of which asks for bytes from behind the end of
the RomFS, each call returns exactly the bytes of the RomFS that are there. -/
theorem readFiles_direct (r : DirectRomFSReader) (requests : List (ℕ × ℕ)) (h : IsWindow r)
    (hfresh : IsFresh r) (hstart : ∀ request ∈ requests, StartsInside r.dataSize request) :
    ReadsDirectly r requests := by
  apply readFiles_eq h _ hstart
  intro page line hline
  have hnone : r.cache.value? page = none := by
    apply StaticLRUCache.value?_eq_none.mpr
    apply StaticLRUCache.find_eq_none.mpr
    rw [show r.cache.list = [] from hfresh]
    intro e he
    cases he
  rw [hnone] at hline
  cases hline

/-- A reader over some bytes, with nothing cached. -/
def freshReader (file : List UInt8) (fileOffset dataSize : ℕ) : DirectRomFSReader :=
  { file := file
    cipher := none
    fileOffset := fileOffset
    dataSize := dataSize
    cache :=
      { array := Vector.replicate cacheLineCount
          ⟨List.replicate cacheLineSize 0, List.length_replicate⟩ } }

/-- Two reads of a RomFS of two bytes. -/
theorem readFiles_direct_two :
    IsWindow (freshReader [7, 8, 9] 1 2) ∧ IsFresh (freshReader [7, 8, 9] 1 2) ∧
      (∀ request ∈ [(0, 1), (1, 5)], StartsInside 2 request) ∧
      ReadsDirectly (freshReader [7, 8, 9] 1 2) [(0, 1), (1, 5)] := by
  have hwindow : IsWindow (freshReader [7, 8, 9] 1 2) :=
    { inside := by decide
      length_lt := by decide
      position_lt := fun c hc => nomatch hc }
  have hstart : ∀ request ∈ [(0, 1), (1, 5)], StartsInside 2 request := by
    unfold StartsInside
    decide
  exact ⟨hwindow, rfl, hstart, readFiles_direct _ _ hwindow rfl hstart⟩

/-- A read that starts behind a RomFS of one byte returns the byte of the file that stands there. -/
theorem readFile_behind : ¬ ReadsDirectly (freshReader [7, 8, 9] 0 1) [(2, 8193)] := by
  rintro ⟨r', hrun⟩
  have hread : ((freshReader [7, 8, 9] 0 1).readFiles [(2, 8193)]).toOption.map Prod.fst =
      some [(1, [9])] := by
    decide
  rw [hrun] at hread
  have hresults : [(2, 8193)].map (directRead (freshReader [7, 8, 9] 0 1)) = [(1, [9])] :=
    Option.some.inj hread
  exact absurd hresults (by decide)

end Calls

end Borked3DS.Analysis
