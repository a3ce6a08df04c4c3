import Borked3DS.Interface.ArticFiles
import Borked3DS.Analysis.RomFSReads

/-!
# The cache of a remote file

What is cached is what the remote file holds, as long as nothing is cached that was not read and the
file does not change behind a remembered size. Then each call returns what it returns without the
cache.
-/

set_option autoImplicit false

namespace Borked3DS.Analysis

open Borked3DS.Library Borked3DS.Model Borked3DS.Model.Artic Borked3DS.Interface

section Requests

variable {maxSize : ℕ} {a : Answers} {file bytes : List UInt8}

/-- A read all of whose requests are answered returns the slice of the file. -/
theorem readLoop_slice {fuel offset left : ℕ}
    (h : readLoop maxSize a file fuel offset left = .ok (bytes, none))
    (hplace : offset + left ≤ 2 ^ 64) : bytes = (file.drop offset).take left := by
  induction fuel generalizing offset left bytes with
  | zero =>
      cases left with
      | zero =>
          obtain ⟨rfl, -⟩ := Prod.mk.inj (Except.ok.inj h)
          rfl
      | succ left => cases h
  | succ fuel ih =>
      cases left with
      | zero =>
          obtain ⟨rfl, -⟩ := Prod.mk.inj (Except.ok.inj h)
          rfl
      | succ left =>
          rw [readLoop, u64_of_lt (by omega)] at h
          split at h
          · cases (Prod.mk.inj (Except.ok.inj h)).2
          · dsimp only at h
            have hmin : min (u64Sub maxSize 0x100) (left + 1) ≤ left + 1 := Nat.min_le_right _ _
            generalize min (u64Sub maxSize 0x100) (left + 1) = toRead at h hmin
            split at h
            · rename_i hshort
              obtain ⟨rfl, -⟩ := Prod.mk.inj (Except.ok.inj h)
              -- The file ends before the request does, so a longer slice is no longer.
              have hend : (file.drop offset).length ≤ toRead := by
                rw [List.length_take] at hshort
                omega
              rw [List.take_of_length_le hend, List.take_of_length_le (Nat.le_trans hend hmin)]
            · rename_i hfull
              rw [ne_eq, Decidable.not_not] at hfull
              rw [hfull] at h
              obtain ⟨⟨rest, failure⟩, hrest, hpure⟩ := bind_eq_ok.mp h
              obtain ⟨rfl, rfl⟩ := Prod.mk.inj (Except.ok.inj hpure)
              rw [ih hrest (by omega)]
              exact (drop_take_split (file) hmin).symm

theorem readFromArtic_slice {length offset : ℕ} (h : AnswersRead maxSize a file length offset)
    (hplace : offset + length ≤ 2 ^ 64) :
    readFromArtic maxSize a file length offset = .ok ((file.drop offset).take length, none) := by
  obtain ⟨bytes, hbytes⟩ := h
  rw [hbytes, readLoop_slice hbytes hplace]

theorem readDirect_slice {length offset : ℕ} (h : AnswersRead maxSize a file length offset)
    (hplace : offset + length ≤ 2 ^ 64) :
    readDirect maxSize a file length offset = .ok (.ok ((file.drop offset).take length)) := by
  unfold readDirect
  rw [readFromArtic_slice h hplace, ok_bind]
  rfl

end Requests

section Cached

variable {maxSize : ℕ} {a : Answers} {file : List UInt8} {c : ArticCache}

/-- Every line of a cache holds what stands under it in the file. -/
def LinesHold {n : ℕ} (file : List UInt8) (cache : StaticLRUCache ℕ Line n) : Prop :=
  ∀ page line, cache.value? page = some line →
    line.1.take (file.length - page) = (file.drop page).take cacheLineSize

/-- Every cached request holds what was asked for. -/
def RequestsHold {n : ℕ} (file : List UInt8)
    (cache : StaticLRUCache (ℕ × ℕ) (List UInt8) n) : Prop :=
  ∀ offset length entry, cache.value? (offset, length) = some entry →
    entry = (file.drop offset).take length

/-- What is cached is what the file holds. -/
structure ArticHolds (file : List UInt8) (c : ArticCache) : Prop where
  lines : LinesHold file c.cache
  requests : RequestsHold file c.bigCache
  bigRequests : RequestsHold file c.veryBigCache

/-- A size that is remembered is that of the file, and what is cached is what the file holds. While
no size is remembered nothing is cached. -/
structure Coherent (file : List UInt8) (c : ArticCache) : Prop where
  dataSize : ∀ size, c.dataSize = some size → size = u64 file.length
  holds : c.dataSize ≠ none → ArticHolds file c
  empty : c.dataSize = none → c.cache.list = [] ∧ c.bigCache.list = [] ∧ c.veryBigCache.list = []

theorem value?_of_nil {Key Value : Type} [DecidableEq Key] {n : ℕ}
    {cache : StaticLRUCache Key Value n} (h : cache.list = []) (key : Key) :
    cache.value? key = none := by
  apply StaticLRUCache.value?_eq_none.mpr
  apply StaticLRUCache.find_eq_none.mpr
  intro e he
  rw [h] at he
  cases he

/-- Which requests are found depends on the list of a cache only. -/
theorem request_congr {Key Value : Type} [DecidableEq Key] {n : ℕ}
    {c d : StaticLRUCache Key Value n} (h : c.list = d.list) (key : Key) :
    (c.request key).1 = (d.request key).1 ∧
      (c.request key).2.2.list = (d.request key).2.2.list := by
  obtain ⟨array, list, size_pos, keys_nodup, indices_nodup, index_lt⟩ := c
  obtain ⟨array', list', _, _, _, _⟩ := d
  obtain rfl : list = list' := h
  unfold StaticLRUCache.request
  split
  · rename_i e he
    split
    · rename_i e' he'
      have hsame : some e = some e' := he.symm.trans he'
      cases hsame
      exact ⟨rfl, rfl⟩
    · rename_i he'
      have hsame : some e = none := he.symm.trans he'
      cases hsame
  · rename_i he
    have hmiss : ∀ e, list.find? (fun d => decide (d.1 = key)) ≠ some e := by
      intro e he'
      have hsame : none = some e := he.symm.trans he'
      cases hsame
    split
    · split
      · rename_i e' he'
        exact absurd he' (hmiss e')
      · exact ⟨rfl, rfl⟩
    · split
      · rename_i e' he'
        exact absurd he' (hmiss e')
      · exact ⟨rfl, rfl⟩

theorem missedPages_congr {n : ℕ} {c d : StaticLRUCache ℕ Line n} (h : c.list = d.list)
    (pages : List ℕ) : missedPages c pages = missedPages d pages := by
  induction pages generalizing c d with
  | nil => rfl
  | cons page pages ih =>
      obtain ⟨hfound, hlist⟩ := request_congr h page
      rw [missedPages, missedPages]
      dsimp only
      rw [hfound, ih hlist]

/-- The slice of a segment is copied out of a line that holds what stands under it. -/
theorem readRun_line {seg : ℕ × ℕ} {line : Line}
    (hholds : line.1.take (file.length - offsetToPage seg.1) =
      (file.drop (offsetToPage seg.1)).take cacheLineSize)
    (hinside : seg.1 + seg.2 ≤ file.length)
    (hline : seg.1 % cacheLineSize + seg.2 ≤ cacheLineSize) :
    readRun Fault.undefined line.1 (seg.1 % cacheLineSize) seg.2 =
      .ok ((file.drop seg.1).take seg.2) := by
  have hmod := Nat.mod_le seg.1 cacheLineSize
  have hpage : offsetToPage seg.1 + seg.1 % cacheLineSize = seg.1 := by
    unfold offsetToPage
    omega
  have hslice := drop_take_of_take_eq (i := seg.1 % cacheLineSize) (k := seg.2) hholds
    (by omega) hline
  unfold readRun
  rw [if_pos (by rw [line.2]; exact hline), hslice, List.drop_drop, hpage]

/-- A line that a page of the file has been read into holds it. -/
theorem fill_page {page : ℕ} (line : Line)
    (h : ((file.drop page).take cacheLineSize).length ≤ cacheLineSize) :
    (line.fill ((file.drop page).take cacheLineSize) h).1.take (file.length - page) =
      (file.drop page).take cacheLineSize := by
  have hlength : ((file.drop page).take cacheLineSize).length =
      min cacheLineSize (file.length - page) := by
    rw [List.length_take, List.length_drop]
  unfold Line.fill overwrite
  dsimp only
  rw [List.take_zero, List.nil_append, Nat.zero_add]
  rcases Nat.le_total cacheLineSize (file.length - page) with hfull | hshort
  · rw [hlength, Nat.min_eq_left hfull, List.drop_eq_nil_of_le (Nat.le_of_eq line.2),
      List.append_nil, List.take_of_length_le]
    rw [hlength]
    omega
  · rw [List.take_append_of_le_length (by omega), List.take_of_length_le (by omega)]

/-- A segment inside a line and inside the file is copied out of the line, cached or not. -/
theorem articReadSegment_eq {seg : ℕ × ℕ} (hlines : LinesHold file c.cache) (hpos : 0 < seg.2)
    (hinside : seg.1 + seg.2 ≤ file.length) (hplace : seg.1 < 2 ^ 64)
    (hline : seg.1 % cacheLineSize + seg.2 ≤ cacheLineSize)
    (hanswer : (c.cache.request (offsetToPage seg.1)).1 = false →
      AnswersRead maxSize a file cacheLineSize (offsetToPage seg.1)) :
    ∃ cache, c.readSegment maxSize a file seg =
        .ok (.ok ((file.drop seg.1).take seg.2), { c with cache := cache }) ∧
      LinesHold file cache ∧ cache.list = (c.cache.request (offsetToPage seg.1)).2.2.list := by
  have hmod := Nat.mod_le seg.1 cacheLineSize
  have hinto : seg.1 - offsetToPage seg.1 = seg.1 % cacheLineSize := by
    unfold offsetToPage
    omega
  have hend : offsetToPage seg.1 + cacheLineSize ≤ 2 ^ 64 := by
    unfold offsetToPage cacheLineSize
    omega
  unfold ArticCache.readSegment
  dsimp only
  rw [hinto]
  cases hvalue : c.cache.value? (offsetToPage seg.1) with
  | some line =>
      obtain ⟨place, cache, hrequest, hcached, hsame⟩ := StaticLRUCache.request_found hvalue
      have hamount : min (seg.1 % cacheLineSize + seg.2) cacheLineSize - seg.1 % cacheLineSize =
          seg.2 := by
        omega
      rw [hrequest]
      dsimp only
      rw [if_pos rfl, if_pos (by omega), hamount, hcached,
        readRun_line (hlines _ _ hvalue) hinside hline, ok_bind]
      refine ⟨cache, rfl, ?_, rfl⟩
      intro page line' hline'
      exact hlines page line' ((hsame page).symm.trans hline')
  | none =>
      obtain ⟨place, cache, hrequest, -, hstore⟩ := StaticLRUCache.request_missing hvalue
      have hread := readFromArtic_slice (hanswer (by rw [hrequest])) hend
      have hslice : ((file.drop (offsetToPage seg.1)).take cacheLineSize).length =
          min cacheLineSize (file.length - offsetToPage seg.1) := by
        rw [List.length_take, List.length_drop]
      have hsize : seg.1 % cacheLineSize + seg.2 ≤
          ((file.drop (offsetToPage seg.1)).take cacheLineSize).length := by
        rw [hslice]
        unfold offsetToPage
        omega
      rw [hrequest]
      dsimp only
      rw [if_neg (by decide)]
      split
      · rename_i fault hfault
        rw [hread] at hfault
        cases hfault
      · rename_i bytes failure hok
        obtain ⟨rfl, rfl⟩ := Prod.mk.inj (Except.ok.inj (hread.symm.trans hok))
        have hamount : min (seg.1 % cacheLineSize + seg.2)
            ((file.drop (offsetToPage seg.1)).take cacheLineSize).length -
              seg.1 % cacheLineSize = seg.2 := by
          rw [Nat.min_eq_left hsize]
          omega
        have hholds := fill_page cache.array[place] (readLoop_length maxSize a file hok)
        dsimp only
        rw [if_pos (by omega), hamount, readRun_line hholds hinside hline, ok_bind]
        refine ⟨_, rfl, ?_, rfl⟩
        intro page line' hline'
        by_cases hsame : page = offsetToPage seg.1
        · subst hsame
          have hnew := (hstore _).1.symm.trans hline'
          cases hnew
          exact hholds
        · exact hlines page line' ((hstore _).2 page line' hsame hline')

/-- Segments that follow one another, each inside a line. -/
inductive InLines : ℕ → ℕ → List (ℕ × ℕ) → Prop
  | done (offset : ℕ) : InLines offset 0 []
  | segment {offset length k : ℕ} {segs : List (ℕ × ℕ)} (hpos : 0 < k)
      (hline : offset % cacheLineSize + k ≤ cacheLineSize) (rest : InLines (offset + k) length segs) :
      InLines offset (k + length) ((offset, k) :: segs)

theorem breakupLoop_inLines {fuel offset length : ℕ} (hfuel : length ≤ fuel)
    (hplace : offset + length ≤ 2 ^ 64) : InLines offset length (breakupLoop fuel offset length) := by
  induction fuel generalizing offset length with
  | zero =>
      obtain rfl := Nat.le_zero.mp hfuel
      exact .done offset
  | succ fuel ih =>
      rw [breakupLoop]
      by_cases hzero : length = 0
      · subst hzero
        exact .done offset
      · have hmod : offset % cacheLineSize < cacheLineSize := Nat.mod_lt _ (by decide)
        -- The next page may be the end of the address space, where it wraps.
        have hroom : u64Sub (offsetToPage (u64 (offset + cacheLineSize))) offset =
            cacheLineSize - offset % cacheLineSize := by
          unfold u64Sub u64 offsetToPage cacheLineSize
          omega
        rw [if_neg hzero]
        dsimp only
        rw [hroom]
        have hsum : length = min length (cacheLineSize - offset % cacheLineSize) +
            (length - min length (cacheLineSize - offset % cacheLineSize)) := by
          omega
        conv => arg 2; rw [hsum]
        refine .segment (by omega) (by omega) ?_
        rcases Nat.lt_or_ge (cacheLineSize - offset % cacheLineSize) length with hmore | hlast
        · have hnext : offsetToPage (u64 (offset + cacheLineSize)) =
              offset + min length (cacheLineSize - offset % cacheLineSize) := by
            rw [Nat.min_eq_right (Nat.le_of_lt hmore)]
            unfold u64 offsetToPage cacheLineSize at *
            omega
          rw [hnext]
          exact ih (by omega) (by omega)
        · have hnone : ∀ place, breakupLoop fuel place 0 = [] := by
            intro place
            cases fuel with
            | zero => rfl
            | succ fuel => rw [breakupLoop, if_pos rfl]
          rw [Nat.min_eq_left hlast, Nat.sub_self, hnone]
          exact .done _

theorem InLines.le {offset length : ℕ} {segs : List (ℕ × ℕ)} (h : InLines offset length segs) :
    ∀ seg ∈ segs, seg.2 ≤ cacheLineSize := by
  induction h with
  | done => exact fun seg hmem => nomatch hmem
  | segment _ hline _ ih =>
      intro seg hmem
      rcases List.mem_cons.mp hmem with rfl | hmem
      · exact Nat.le_trans (Nat.le_add_left _ _) hline
      · exact ih seg hmem

/-- The segments of a request are the slice that was asked for. -/
theorem articReadSegments_eq {offset length : ℕ} {segs : List (ℕ × ℕ)}
    (hsegs : InLines offset length segs) (hlines : LinesHold file c.cache)
    (hinside : offset + length ≤ file.length) (hplace : offset + length ≤ 2 ^ 64)
    (hanswer : ∀ page ∈ missedPages c.cache (segs.map fun seg => offsetToPage seg.1),
      AnswersRead maxSize a file cacheLineSize page) :
    ∃ cache, c.readSegments maxSize a file segs =
        .ok (.ok ((file.drop offset).take length), { c with cache := cache }) ∧
      LinesHold file cache := by
  induction hsegs generalizing c with
  | done offset => exact ⟨c.cache, rfl, hlines⟩
  | @segment offset length k segs hpos hline rest ih =>
      rw [List.map_cons, missedPages] at hanswer
      dsimp only at hanswer
      obtain ⟨cache₁, hseg, hlines₁, hlist⟩ := @articReadSegment_eq maxSize a file c (offset, k)
        hlines hpos (by dsimp only; omega) (by dsimp only; omega) hline (by
          intro hmiss
          rw [hmiss, if_neg Bool.false_ne_true] at hanswer
          exact hanswer _ List.mem_cons_self)
      obtain ⟨cache₂, hrest, hlines₂⟩ := ih (c := { c with cache := cache₁ }) hlines₁
        (by omega) (by omega) (by
          intro page hpage
          rw [missedPages_congr hlist] at hpage
          split at hanswer
          · exact hanswer page hpage
          · exact hanswer page (List.mem_cons_of_mem _ hpage))
      refine ⟨cache₂, ?_, hlines₂⟩
      rw [ArticCache.readSegments, hseg, ok_bind]
      dsimp only
      rw [hrest, ok_bind, drop_take_split file (Nat.le_add_right k length), Nat.add_sub_cancel_left]
      rfl

/-- A request that is cached as a whole, or is from then on. -/
theorem readThrough_eq {n offset length : ℕ} {cache : StaticLRUCache (ℕ × ℕ) (List UInt8) n}
    (hrequests : RequestsHold file cache) (hanswer : AnswersRead maxSize a file length offset)
    (hinside : offset + length ≤ file.length) (hplace : offset + length ≤ 2 ^ 64) :
    ∃ cache', ArticCache.readThrough maxSize a file cache offset length =
        .ok (.ok ((file.drop offset).take length), cache') ∧ RequestsHold file cache' := by
  have hlength : ((file.drop offset).take length).length = length := by
    rw [List.length_take, List.length_drop]
    omega
  have hcopy : readRun Fault.undefined ((file.drop offset).take length) 0 length =
      .ok ((file.drop offset).take length) := by
    unfold readRun
    rw [if_pos (by omega), List.drop_zero, List.take_take, Nat.min_self]
  unfold ArticCache.readThrough
  cases hvalue : cache.value? (offset, length) with
  | some entry =>
      obtain ⟨place, cache', hrequest, hcached, hsame⟩ := StaticLRUCache.request_found hvalue
      rw [hrequest]
      dsimp only
      rw [if_pos rfl, hcached, hrequests _ _ _ hvalue, hcopy, ok_bind]
      refine ⟨cache', rfl, ?_⟩
      intro offset' length' entry' hentry'
      exact hrequests _ _ _ ((hsame _).symm.trans hentry')
  | none =>
      obtain ⟨place, cache', hrequest, -, hstore⟩ := StaticLRUCache.request_missing hvalue
      have hentry : overwrite ((List.range length).map a.uninitialized) 0
          ((file.drop offset).take length) = (file.drop offset).take length := by
        have htail : ((List.range length).map a.uninitialized).drop (0 + length) = [] := by
          apply List.drop_eq_nil_of_le
          simp
        unfold overwrite
        rw [List.take_zero, List.nil_append, hlength, htail, List.append_nil]
      rw [hrequest]
      dsimp only
      rw [if_neg (by decide), readFromArtic_slice hanswer hplace, ok_bind]
      dsimp only
      rw [hentry, hlength, hcopy, ok_bind]
      refine ⟨_, rfl, ?_⟩
      intro offset' length' entry' hentry'
      by_cases hsame : (offset', length') = (offset, length)
      · obtain ⟨rfl, rfl⟩ := Prod.mk.inj hsame
        have hnew := (hstore _).1.symm.trans hentry'
        exact (Option.some.inj hnew).symm
      · exact hrequests _ _ _ ((hstore _).2 _ _ hsame hentry')

/-- A read inside the file returns the slice that was asked for. -/
theorem articRead_eq {offset length : ℕ} (hholds : ArticHolds file c)
    (hinside : offset + length ≤ file.length) (hplace : offset + length ≤ 2 ^ 64)
    (hanswer : AnswersRead maxSize a file length offset)
    (hfill : ∀ page ∈ filledPages c offset length, AnswersRead maxSize a file cacheLineSize page) :
    ∃ c', c.read maxSize a file offset length = .ok (.ok ((file.drop offset).take length), c') ∧
      c'.dataSize = c.dataSize ∧ ArticHolds file c' := by
  unfold ArticCache.read
  by_cases hzero : length = 0
  · subst hzero
    exact ⟨c, by rw [if_pos rfl]; rfl, rfl, hholds⟩
  · rw [if_neg hzero]
    dsimp only
    by_cases hbig : maxBreakupSize < length
    · have hline : cacheLineSize < length := Nat.lt_trans (by decide) hbig
      have hone : breakupRead offset length = [(offset, length)] := by
        unfold breakupRead
        rw [if_pos hbig]
      rw [hone]
      dsimp only
      rw [if_pos hline]
      split
      · obtain ⟨bigCache, hread, hrequests⟩ :=
          readThrough_eq hholds.requests hanswer hinside hplace
        rw [hread, ok_bind]
        exact ⟨_, rfl, rfl, hholds.lines, hrequests, hholds.bigRequests⟩
      · split
        · obtain ⟨veryBigCache, hread, hrequests⟩ :=
            readThrough_eq hholds.bigRequests hanswer hinside hplace
          rw [hread, ok_bind]
          exact ⟨_, rfl, rfl, hholds.lines, hholds.requests, hrequests⟩
        · rw [readDirect_slice hanswer hplace, ok_bind]
          exact ⟨c, rfl, rfl, hholds⟩
    · have hloop : breakupRead offset length = breakupLoop length offset length := by
        unfold breakupRead
        rw [if_neg hbig]
      have hsegs : InLines offset length (breakupRead offset length) := by
        rw [hloop]
        exact breakupLoop_inLines (Nat.le_refl _) hplace
      unfold filledPages at hfill
      rw [if_neg hbig] at hfill
      obtain ⟨cache, hread, hlines⟩ :=
        articReadSegments_eq hsegs hholds.lines hinside hplace hfill
      have hsegments : ∃ c', c.readSegments maxSize a file (breakupRead offset length) =
          .ok (.ok ((file.drop offset).take length), c') ∧ c'.dataSize = c.dataSize ∧
          ArticHolds file c' :=
        ⟨_, hread, rfl, hlines, hholds.requests, hholds.bigRequests⟩
      split
      · rename_i seg hseg
        have hle := hsegs.le seg (by rw [hseg]; exact List.mem_singleton_self seg)
        rw [if_neg (by omega)]
        exact hsegments
      · exact hsegments

end Cached

section Calls

variable {maxSize : ℕ} {a : Answers} {file : List UInt8} {c : ArticCache}

/-- A file without the cache in front of it. -/
def uncached (file : List UInt8) : ArticFileBackend := { cache := none, file }

theorem coherent_clear (file : List UInt8) (c : ArticCache) : Coherent file c.clear :=
  { dataSize := fun _ hsize => nomatch hsize
    holds := fun hsome => absurd rfl hsome
    empty := fun _ => ⟨rfl, rfl, rfl⟩ }

/-- Asking for the size may only make the cache remember it; if the answer is not zero it does. -/
theorem getSize_coherent (h : Coherent file c) :
    ∃ size dataSize, ({ cache := some c, file } : ArticFileBackend).getSize a =
        (size, { cache := some { c with dataSize := dataSize }, file }) ∧
      Coherent file { c with dataSize := dataSize } ∧
      (size ≠ 0 → dataSize ≠ none ∧ size = u64 file.length) := by
  unfold ArticFileBackend.getSize ArticCache.getSize
  cases hsize : c.dataSize with
  | some size =>
      have hself : c = { c with dataSize := some size } := by rw [← hsize]
      refine ⟨size, some size, ?_, ?_, ?_⟩
      · dsimp only
        rw [hsize]
        dsimp only
        rw [← hself]
      · rw [← hself]
        exact h
      · exact fun _ => ⟨(fun hnone => nomatch hnone), h.dataSize size hsize⟩
  | none =>
      obtain ⟨hcache, hbig, hveryBig⟩ := h.empty hsize
      dsimp only
      rw [hsize]
      dsimp only
      unfold requestSize
      cases a.getSizeFails with
      | some code =>
          have hself : c = { c with dataSize := none } := by rw [← hsize]
          refine ⟨0, none, ?_, ?_, fun hne => absurd rfl hne⟩
          · dsimp only
            rw [← hself]
          · rw [← hself]
            exact h
      | none =>
          refine ⟨u64 file.length, some (u64 file.length), rfl, ?_, ?_⟩
          · refine ⟨fun size heq => (Option.some.inj heq).symm, fun _ => ⟨?_, ?_, ?_⟩,
              fun hnone => nomatch hnone⟩
            · intro page line hline
              rw [value?_of_nil hcache] at hline
              cases hline
            · intro offset length entry hentry
              rw [value?_of_nil hbig] at hentry
              cases hentry
            · intro offset length entry hentry
              rw [value?_of_nil hveryBig] at hentry
              cases hentry
          · exact fun _ => ⟨(fun hnone => nomatch hnone), rfl⟩

/-- A call with the cache and one without it that go the same way: both fault alike, or they return
the same and leave the same file. -/
def SameCall (x y : Exec (Returned × ArticFileBackend)) : Prop :=
  (∃ fault, x = .error fault ∧ y = .error fault) ∨
    ∃ returned c file, x = .ok (returned, { cache := some c, file }) ∧
      y = .ok (returned, uncached file) ∧ Coherent file c

theorem read_sameCall (h : Coherent file c) {offset length : ℕ}
    (hhides : HidesCache maxSize { cache := some c, file } (a, .read offset length)) :
    SameCall
      (({ cache := some c, file } : ArticFileBackend).call maxSize a (.read offset length))
      ((uncached file).call maxSize a (.read offset length)) := by
  obtain ⟨size, dataSize, hgetSize, hcoherent, hsize⟩ := getSize_coherent (a := a) h
  unfold HidesCache at hhides
  dsimp only at hhides
  rw [hgetSize] at hhides
  have huncached : (uncached file).call maxSize a (.read offset length) = (do
      let result ← readDirect maxSize a file length offset
      pure (.read result, uncached file)) := by
    unfold ArticFileBackend.call ArticFileBackend.read uncached
    dsimp only
    cases readDirect maxSize a file length offset with
    | error fault => rfl
    | ok result => rfl
  rw [huncached]
  unfold ArticFileBackend.call ArticFileBackend.read
  dsimp only
  rw [hgetSize]
  dsimp only
  by_cases hless : u64 (offset + length) < size
  · obtain ⟨hplace, hanswer, hfill⟩ := hhides hless
    obtain ⟨hsome, hlength⟩ := hsize (by omega)
    rw [u64_of_lt hplace, hlength] at hless
    have hinside : offset + length ≤ file.length :=
      Nat.le_of_lt (Nat.lt_of_lt_of_le hless (Nat.mod_le _ _))
    obtain ⟨c', hread, hdata, hholds⟩ := articRead_eq
      (c := { c with dataSize := dataSize }) (hcoherent.holds hsome) hinside
      (Nat.le_of_lt hplace) hanswer hfill
    rw [if_pos (by rw [u64_of_lt hplace, hlength]; exact hless), hread,
      readDirect_slice hanswer (Nat.le_of_lt hplace)]
    refine .inr ⟨_, c', file, rfl, rfl, ?_⟩
    refine ⟨fun other heq => hcoherent.dataSize other (hdata ▸ heq), fun _ => hholds, ?_⟩
    intro hnone
    exact absurd (hdata.symm.trans hnone) hsome
  · rw [if_neg hless]
    cases hdirect : readDirect maxSize a file length offset with
    | error fault => exact .inl ⟨fault, rfl, rfl⟩
    | ok result => exact .inr ⟨_, _, file, rfl, rfl, hcoherent⟩

theorem write_sameCall (file : List UInt8) (c : ArticCache) (offset : ℕ) (buffer : List UInt8)
    (flush updateTimestamp : Bool) :
    SameCall
      (({ cache := some c, file } : ArticFileBackend).call maxSize a
        (.write offset buffer flush updateTimestamp))
      ((uncached file).call maxSize a (.write offset buffer flush updateTimestamp)) := by
  unfold ArticFileBackend.call ArticFileBackend.write uncached
  dsimp only
  generalize ((if flush then 1 else 0) ||| (if updateTimestamp then 1 <<< 8 else 0)) = flags
  cases writeLoop maxSize a flags buffer.length file offset buffer 0 with
  | error fault => exact .inl ⟨fault, rfl, rfl⟩
  | ok written => exact .inr ⟨_, c.clear, written.2, rfl, rfl, coherent_clear _ c⟩

theorem setSize_sameCall (h : Coherent file c) {size : ℕ}
    (hhides : HidesCache maxSize { cache := some c, file } (a, .setSize size)) :
    SameCall (({ cache := some c, file } : ArticFileBackend).call maxSize a (.setSize size))
      ((uncached file).call maxSize a (.setSize size)) := by
  refine .inr ⟨_, c, (a.setSize file size).2, rfl, rfl, ?_⟩
  by_cases hnone : c.dataSize = none
  · refine ⟨fun other heq => ?_, fun hsome => absurd hnone hsome, h.empty⟩
    rw [hnone] at heq
    cases heq
  · rw [show (a.setSize file size).2 = file from hhides hnone]
    exact h

theorem getSize_sameCall (h : Coherent file c)
    (hhides : HidesCache maxSize { cache := some c, file } (a, .getSize)) :
    SameCall (({ cache := some c, file } : ArticFileBackend).call maxSize a .getSize)
      ((uncached file).call maxSize a .getSize) := by
  obtain ⟨size, dataSize, hgetSize, hcoherent, hsize⟩ := getSize_coherent (a := a) h
  have hvalue : size = ((uncached file).getSize a).1 := by
    unfold ArticFileBackend.getSize uncached
    unfold ArticFileBackend.getSize ArticCache.getSize at hgetSize
    dsimp only at hgetSize ⊢
    cases hdata : c.dataSize with
    | some known =>
        have hanswers : a.getSizeFails = none := hhides (by
          rw [hdata]
          exact fun hnone => nomatch hnone)
        rw [hdata] at hgetSize
        unfold requestSize
        rw [hanswers]
        dsimp only
        rw [← h.dataSize known hdata]
        exact (congrArg Prod.fst hgetSize).symm
    | none =>
        rw [hdata] at hgetSize
        dsimp only at hgetSize
        cases hrequest : requestSize a file with
        | error code =>
            rw [hrequest] at hgetSize
            exact (congrArg Prod.fst hgetSize).symm
        | ok known =>
            rw [hrequest] at hgetSize
            exact (congrArg Prod.fst hgetSize).symm
  unfold ArticFileBackend.call
  dsimp only
  rw [hgetSize]
  refine .inr ⟨.getSize size, _, file, rfl, ?_, hcoherent⟩
  rw [hvalue]
  rfl

/-- A call that the cache does not show in returns what it returns without the cache. -/
theorem call_sameCall (h : Coherent file c) {call : Call}
    (hhides : HidesCache maxSize { cache := some c, file } (a, call)) :
    SameCall (({ cache := some c, file } : ArticFileBackend).call maxSize a call)
      ((uncached file).call maxSize a call) := by
  cases call with
  | read offset length => exact read_sameCall h hhides
  | write offset buffer flush updateTimestamp =>
      exact write_sameCall file c offset buffer flush updateTimestamp
  | setSize size => exact setSize_sameCall h hhides
  | getSize => exact getSize_sameCall h hhides

end Calls

section Runs

variable {maxSize : ℕ}

/-- Some calls that the cache does not show in, one after the other. -/
theorem calls_transparent {file : List UInt8} {c : ArticCache} (h : Coherent file c)
    (inputs : List (Answers × Call))
    (hhides : HidesCacheAlong maxSize { cache := some c, file } inputs) :
    CacheTransparent maxSize { cache := some c, file } inputs := by
  show ({ cache := some c, file } : ArticFileBackend).calls maxSize inputs =
    (uncached file).calls maxSize inputs
  induction inputs generalizing file c with
  | nil => rfl
  | cons input inputs ih =>
      obtain ⟨a, call⟩ := input
      obtain ⟨hnow, hlater⟩ := hhides
      rw [ArticFileBackend.calls, ArticFileBackend.calls]
      rcases call_sameCall h hnow with
        ⟨fault, hcached, huncached⟩ | ⟨returned, c', file', hcached, huncached, h'⟩
      · rw [hcached, huncached, error_bind]
      · have hstep : articStep maxSize { cache := some c, file } (a, call) =
            .ok { cache := some c', file := file' } := by
          unfold articStep
          dsimp only
          rw [hcached]
          rfl
        rw [hcached, huncached, ok_bind, ok_bind]
        dsimp only
        rw [ih h' (hlater _ hstep)]

theorem coherent_opened (c : ArticCache) (file : List UInt8) (sizeKnown : Bool) :
    Coherent file (c.clear.forceSetSize (if sizeKnown then some (u64 file.length) else none)) where
  dataSize := by
    intro size hsize
    cases sizeKnown with
    | true => exact (Option.some.inj hsize).symm
    | false => cases hsize
  holds := by
    intro _
    refine ⟨?_, ?_, ?_⟩
    · exact fun page line hline => nomatch hline
    · exact fun offset length entry hentry => nomatch hentry
    · exact fun offset length entry hentry => nomatch hentry
  empty := fun _ => ⟨rfl, rfl, rfl⟩

/-- A server that answers every request for bytes answers a read. -/
theorem answersRead_of_answered {a : Answers} (hchunk : 0 < u64Sub maxSize 0x100)
    (hanswered : ∀ offset size, a.readFails offset size = none) (file : List UInt8)
    (length offset : ℕ) : AnswersRead maxSize a file length offset := by
  suffices ∀ fuel left offset, left ≤ fuel →
      ∃ bytes, readLoop maxSize a file fuel offset left = .ok (bytes, none) from
    this length length offset (Nat.le_refl _)
  intro fuel
  induction fuel with
  | zero =>
      intro left offset hfuel
      obtain rfl := Nat.le_zero.mp hfuel
      exact ⟨[], rfl⟩
  | succ fuel ih =>
      intro left offset hfuel
      cases left with
      | zero => exact ⟨[], rfl⟩
      | succ left =>
          rw [readLoop, hanswered]
          dsimp only
          have hpos : 0 < min (u64Sub maxSize 0x100) (left + 1) :=
            Nat.lt_min.mpr ⟨hchunk, Nat.succ_pos left⟩
          generalize min (u64Sub maxSize 0x100) (left + 1) = toRead at hpos
          split
          · exact ⟨_, rfl⟩
          · rename_i hfull
            rw [ne_eq, Decidable.not_not] at hfull
            rw [hfull]
            obtain ⟨rest, hrest⟩ := ih (left + 1 - toRead) (offset + toRead) (by omega)
            rw [hrest]
            exact ⟨_, rfl⟩

/-- A call that a server that fails at nothing hides the cache from. -/
def FailsAtNothing (input : Answers × Call) : Prop :=
  (∀ offset size, input.1.readFails offset size = none) ∧ input.1.getSizeFails = none ∧
    match input.2 with
    | .read offset length => offset + length < 2 ^ 64
    | .setSize size => ∀ file, (input.1.setSize file size).2 = file
    | _ => True

theorem hidesCacheAlong_of_failsAtNothing (hchunk : 0 < u64Sub maxSize 0x100)
    {inputs : List (Answers × Call)} (h : ∀ input ∈ inputs, FailsAtNothing input)
    (f : ArticFileBackend) : HidesCacheAlong maxSize f inputs := by
  induction inputs generalizing f with
  | nil => trivial
  | cons input inputs ih =>
      refine ⟨?_, fun f' _ => ih (fun other hmem => h other (List.mem_cons_of_mem _ hmem)) f'⟩
      obtain ⟨hreads, hsize, hcall⟩ := h input List.mem_cons_self
      obtain ⟨a, call⟩ := input
      unfold HidesCache
      cases f.cache with
      | none => cases call <;> trivial
      | some c =>
          cases call with
          | read offset length =>
              exact fun _ => ⟨hcall, answersRead_of_answered hchunk hreads _ _ _,
                fun page _ => answersRead_of_answered hchunk hreads _ _ _⟩
          | write offset buffer flush updateTimestamp => trivial
          | setSize size => exact fun _ => hcall _
          | getSize => exact fun _ => hsize

/-- A cache with zeros in its lines. -/
def zeroCache : ArticCache where
  cache := { array := Vector.replicate _ ⟨List.replicate cacheLineSize 0, List.length_replicate⟩ }
  bigCache := { array := Vector.replicate _ [] }
  veryBigCache := { array := Vector.replicate _ [] }

/-- A server that fails at nothing, writes nothing, and cuts files to a size. -/
def plainAnswers : Answers where
  readFails := fun _ _ => none
  getSizeFails := none
  write := fun file _ bytes _ => (.ok bytes.length, file)
  setSize := fun file size => (true, file.take size)
  uninitialized := fun _ => 0

/-- The size is asked for, set and asked for again. -/
def resizedBetween : List (Answers × Call) :=
  [(plainAnswers, .getSize), (plainAnswers, .setSize 1), (plainAnswers, .getSize)]

end Runs

end Borked3DS.Analysis
