import Mathlib.Data.Finset.Card
import Mathlib.Data.Finset.Range
import Borked3DS.Interface.CROTables

/-!
# Accepted headers and their tables

Rebasing a header word by word, and from it when the check at its end keeps the tables inside the
module although its sums and products wrap around. The lookup of an exported name follows a path of
children; as long as none ends the walk they are different ones, or the walk has no end.
-/

set_option autoImplicit false

namespace Borked3DS.Analysis

open Borked3DS.Library Borked3DS.Model.LDR Borked3DS.Interface

section Fields

variable {moduleAddress : UInt32} {memory : ByteMemory} {f g : HeaderField} {v : UInt32}

theorem HeaderField.index_lt (f : HeaderField) : f.index < 46 := by
  cases f <;> decide

theorem HeaderField.index_injective (h : f.index = g.index) : f = g := by
  have hnat : HeaderField.ofNat f.index = HeaderField.ofNat g.index := congrArg _ h
  cases f <;> exact hnat.trans (HeaderField.ofNat_ctorIdx g)

/-- Different words of a header have no byte in common. -/
theorem fieldAddress_apart (h : f ≠ g) :
    ByteMemory.Apart (fieldAddress moduleAddress f) (fieldAddress moduleAddress g) := by
  have hf := HeaderField.index_lt f
  have hg := HeaderField.index_lt g
  have hne : f.index ≠ g.index := fun heq => h (HeaderField.index_injective heq)
  have hm := moduleAddress.toNat_lt
  unfold ByteMemory.Apart fieldAddress croHashSize
  simp only [UInt32.toNat_sub, UInt32.toNat_add, UInt32.toNat_ofNat', UInt32.toNat_ofNat]
  omega

@[simp] theorem getField_setField :
    getField moduleAddress (setField moduleAddress memory f v) f = v :=
  ByteMemory.read32_write32

theorem getField_setField_of_ne (h : f ≠ g) :
    getField moduleAddress (setField moduleAddress memory f v) g =
      getField moduleAddress memory g :=
  ByteMemory.read32_write32_of_apart (fieldAddress_apart h)

/-- The address of an offset. -/
theorem getField_rebaseOffset (hne : getField moduleAddress memory f ≠ 0) :
    getField moduleAddress (rebaseOffset moduleAddress memory f) f =
      getField moduleAddress memory f + moduleAddress := by
  unfold rebaseOffset
  dsimp only
  rw [if_pos hne, getField_setField]

theorem getField_rebaseOffset_of_ne (h : f ≠ g) :
    getField moduleAddress (rebaseOffset moduleAddress memory f) g =
      getField moduleAddress memory g := by
  unfold rebaseOffset
  dsimp only
  split
  · exact getField_setField_of_ne h
  · rfl

/-- A word is kept by the rebasing of others. -/
theorem getField_foldl_of_notMem {fields : List HeaderField} (h : g ∉ fields) :
    getField moduleAddress (fields.foldl (rebaseOffset moduleAddress) memory) g =
      getField moduleAddress memory g := by
  induction fields generalizing memory with
  | nil => rfl
  | cons f fields ih =>
      rw [List.mem_cons, not_or] at h
      rw [List.foldl_cons, ih h.2, getField_rebaseOffset_of_ne (Ne.symm h.1)]

/-- Each of several different offsets is rebased once. -/
theorem getField_foldl_of_mem {fields : List HeaderField} (hdistinct : fields.Nodup)
    (h : f ∈ fields)
    (hne : getField moduleAddress memory f ≠ 0) :
    getField moduleAddress (fields.foldl (rebaseOffset moduleAddress) memory) f =
      getField moduleAddress memory f + moduleAddress := by
  induction fields generalizing memory with
  | nil => cases h
  | cons g fields ih =>
      rw [List.nodup_cons] at hdistinct
      rw [List.foldl_cons]
      rcases List.mem_cons.mp h with rfl | hmem
      · rw [getField_foldl_of_notMem hdistinct.1, getField_rebaseOffset hne]
      · have hother : g ≠ f := fun heq => hdistinct.1 (heq ▸ hmem)
        have hsame := @getField_rebaseOffset_of_ne moduleAddress memory g f hother
        rw [ih hdistinct.2 hmem (by rw [hsame]; exact hne), hsame]

end Fields

section Acceptance

variable {moduleAddress croSize : UInt32} {memory : ByteMemory}

/-- In the right order, no offset is smaller than the first. -/
theorem inOrder_le {prevOffset : UInt32} {fields : List HeaderField}
    (h : inOrder moduleAddress memory prevOffset fields = true) :
    ∀ f ∈ fields, prevOffset ≤ getField moduleAddress memory f := by
  induction fields generalizing prevOffset with
  | nil =>
      intro f hmem
      cases hmem
  | cons g fields ih =>
      rw [inOrder] at h
      split at h
      · cases h
      · rename_i hle
        have hfirst : prevOffset ≤ getField moduleAddress memory g := UInt32.not_lt.mp hle
        intro f hmem
        rcases List.mem_cons.mp hmem with rfl | hrest
        · exact hfirst
        · exact UInt32.le_trans hfirst (ih h f hrest)

/-- What accepting a header has checked: the offsets lie behind the header, and no end of a table,
as the machine computes it, lies behind the end of the module. -/
theorem rebaseHeader_success (h : (rebaseHeader moduleAddress memory croSize).1 = .success) :
    (rebaseHeader moduleAddress memory croSize).2 = rebaseOffsets moduleAddress memory ∧
      (∀ f ∈ offsetOrder, croHeaderSize ≤ getField moduleAddress memory f) ∧
      ∀ table ∈ tables,
        getField moduleAddress (rebaseOffsets moduleAddress memory) table.offsetField +
            getField moduleAddress (rebaseOffsets moduleAddress memory) table.sizeField *
              table.entrySize ≤ moduleAddress + croSize := by
  have hrefused : ∀ {m : ByteMemory}, (ROResult.croFormatError 0x11, m).1 ≠ ROResult.success :=
    nofun
  revert h
  unfold rebaseHeader
  dsimp only
  repeat' split
  all_goals intro h
  all_goals try exact absurd h hrefused
  rename_i hcode horder hend
  have hcode : croHeaderSize ≤ getField moduleAddress memory .codeOffset := UInt32.not_lt.mp hcode
  rw [Bool.not_eq_true', Bool.not_eq_false] at horder
  refine ⟨by dsimp only, ?_, ?_⟩
  · intro f hmem
    rcases List.mem_cons.mp hmem with rfl | hrest
    · exact hcode
    · exact UInt32.le_trans hcode (inOrder_le horder f hrest)
  · intro table hmem
    have hall := List.any_eq_false.mp (Bool.not_eq_true _ ▸ hend) table hmem
    exact UInt32.not_lt.mp (by simpa using hall)

/-- Where the words of a table lead once the header is rebased. -/
theorem rebaseOffsets_table {table : Table} (hmem : table ∈ tables)
    (hoffsets : ∀ f ∈ offsetOrder, croHeaderSize ≤ getField moduleAddress memory f) :
    getField moduleAddress (rebaseOffsets moduleAddress memory) table.offsetField =
        getField moduleAddress memory table.offsetField + moduleAddress ∧
      getField moduleAddress (rebaseOffsets moduleAddress memory) table.sizeField =
        getField moduleAddress memory table.sizeField := by
  have hshape : ∀ table ∈ tables, table.offsetField ∈ offsetOrder ∧
      HeaderField.nameOffset ≠ table.offsetField ∧ HeaderField.nameOffset ≠ table.sizeField ∧
      table.sizeField ∉ tables.map Table.offsetField := by decide
  obtain ⟨hordered, hname, hname', hsize⟩ := hshape table hmem
  have hname := @getField_rebaseOffset_of_ne moduleAddress memory _ _ hname
  have hle := hoffsets table.offsetField hordered
  have hne : getField moduleAddress memory table.offsetField ≠ 0 := by
    intro hzero
    rw [hzero] at hle
    exact absurd hle (by decide)
  unfold rebaseOffsets
  constructor
  · rw [getField_foldl_of_mem (by decide) (List.mem_map_of_mem hmem) (by rw [hname]; exact hne),
      hname]
  · rw [getField_foldl_of_notMem hsize, getField_rebaseOffset_of_ne hname']

/-- A header is accepted if its words pass the checks, and no end of a table lies behind the end of
the module once the offset is rebased. -/
theorem rebaseHeader_accepts
    (hmagic : getField moduleAddress memory .magic = magicCRO0)
    (hlinks : getField moduleAddress memory .nextCRO = 0 ∧
      getField moduleAddress memory .previousCRO = 0)
    (hsizes : getField moduleAddress memory .fileSize ≤ 0x10000000 ∧
      getField moduleAddress memory .bssSize ≤ 0x10000000)
    (hfixed : getField moduleAddress memory .fixedSize = 0)
    (hcode : croHeaderSize ≤ getField moduleAddress memory .codeOffset)
    (horder : inOrder moduleAddress memory (getField moduleAddress memory .codeOffset)
      offsetOrder.tail = true)
    (hends : ∀ table ∈ tables, getField moduleAddress memory table.offsetField + moduleAddress +
      getField moduleAddress memory table.sizeField * table.entrySize ≤ moduleAddress + croSize) :
    (rebaseHeader moduleAddress memory croSize).1 = .success := by
  have hoffsets : ∀ f ∈ offsetOrder, croHeaderSize ≤ getField moduleAddress memory f := by
    intro f hmem
    rcases List.mem_cons.mp hmem with rfl | hrest
    · exact hcode
    · exact UInt32.le_trans hcode (inOrder_le horder f hrest)
  have hrefuses : ¬ (tables.any fun table =>
      getField moduleAddress (rebaseOffsets moduleAddress memory) table.offsetField +
        getField moduleAddress (rebaseOffsets moduleAddress memory) table.sizeField *
          table.entrySize > moduleAddress + croSize) = true := by
    rw [List.any_eq_true]
    rintro ⟨table, hmem, hbehind⟩
    obtain ⟨haddress, hentries⟩ := rebaseOffsets_table hmem hoffsets
    rw [haddress, hentries] at hbehind
    exact UInt32.not_lt.mpr (hends table hmem) (of_decide_eq_true hbehind)
  unfold rebaseHeader
  dsimp only
  rw [if_neg (not_not_intro hmagic), if_neg (by simp [hlinks]),
    if_neg (not_or.mpr ⟨UInt32.not_lt.mpr hsizes.1, UInt32.not_lt.mpr hsizes.2⟩),
    if_neg (not_not_intro hfixed), if_neg (UInt32.not_lt.mpr hcode), if_neg (by simp [horder]),
    if_neg hrefuses]

/-- A table whose end passes the check lies inside the module exactly if it does not wrap. -/
theorem tableInside_iff {offset entries entrySize : UInt32}
    (h : offset + moduleAddress + entries * entrySize ≤ moduleAddress + croSize) :
    (moduleAddress.toNat ≤ (offset + moduleAddress).toNat ∧
        (offset + moduleAddress).toNat + entries.toNat * entrySize.toNat ≤
          moduleAddress.toNat + croSize.toNat) ↔
      moduleAddress.toNat + offset.toNat < 2 ^ 32 ∧
        (moduleAddress.toNat + offset.toNat + entries.toNat * entrySize.toNat) / 2 ^ 32 ≤
          (moduleAddress.toNat + croSize.toNat) / 2 ^ 32 := by
  rw [UInt32.le_iff_toNat_le, UInt32.toNat_add, UInt32.toNat_add, UInt32.toNat_add,
    UInt32.toNat_mul] at h
  rw [UInt32.toNat_add]
  have hm := moduleAddress.toNat_lt
  have ho := offset.toNat_lt
  generalize entries.toNat * entrySize.toNat = size at h ⊢
  omega

/-- The tables of a module whose header is accepted lie inside it exactly if no table wraps around at
`2 ^ 32`. -/
theorem tablesContained_iff (h : (rebaseHeader moduleAddress memory croSize).1 = .success) :
    TablesContained moduleAddress croSize memory ↔
      ∀ table ∈ tables, TableWrapsNot moduleAddress croSize memory table := by
  obtain ⟨hmemory, hoffsets, hends⟩ := rebaseHeader_success h
  apply forall₂_congr
  intro table hmem
  obtain ⟨haddress, hentries⟩ := rebaseOffsets_table hmem hoffsets
  have hend := hends table hmem
  rw [haddress, hentries] at hend
  unfold TableInside TableWrapsNot
  dsimp only
  rw [hmemory, haddress, hentries]
  exact tableInside_iff hend

end Acceptance

section Examples

/-- A memory that holds a header at an address and nothing else. -/
def moduleHeader (moduleAddress : UInt32) (words : List UInt32) : ByteMemory :=
  fun a => (words.flatMap fun word => toLittleEndian 4 word.toNat).getD
    (a - moduleAddress - croHashSize).toNat 0

/-- The words of a module of one page whose tables all start behind the header and are empty, except
for a number of exported named symbols. -/
def emptyTables (exportNamedSymbolNum : UInt32) : List UInt32 :=
  [magicCRO0, 0, 0, 0, 0x1000, 0, 0, 0, 0, 0, 0, 0, 0x138, 0, 0x138, 0, 0x138, 0, 0x138, 0,
    0x138, exportNamedSymbolNum, 0x138, 0, 0x138, 0, 0x138, 0, 0x138, 0, 0x138, 0, 0x138, 0,
    0x138, 0, 0x138, 0, 0x138, 0, 0x138, 0, 0x138, 0, 0x138, 0]

/-- The bytes of a word among the bytes of all words. -/
theorem getD_wordBytes (words : List UInt32) (i : ℕ) {k : ℕ} (hk : k < 4) :
    (words.flatMap fun word => toLittleEndian 4 word.toNat).getD (4 * i + k) 0 =
      (toLittleEndian 4 (words.getD i 0).toNat).getD k 0 := by
  induction words generalizing i with
  | nil =>
      have hzero : ∀ k < 4, (toLittleEndian 4 (0 : UInt32).toNat).getD k 0 = 0 := by decide
      rw [List.flatMap_nil, List.getD_nil, List.getD_nil, hzero k hk]
  | cons word words ih =>
      have hlength := length_toLittleEndian 4 word.toNat
      rw [List.flatMap_cons]
      cases i with
      | zero =>
          rw [Nat.mul_zero, Nat.zero_add, List.getD_eq_getElem?_getD, List.getElem?_append_left (by rw [hlength]; exact hk),
            ← List.getD_eq_getElem?_getD, List.getD_cons_zero]
      | succ i =>
          have hplace : 4 * (i + 1) + k - 4 = 4 * i + k := by omega
          rw [List.getD_eq_getElem?_getD, List.getElem?_append_right (by rw [hlength]; omega), hlength, hplace, ← List.getD_eq_getElem?_getD, ih,
            List.getD_cons_succ]

theorem getField_moduleHeader (moduleAddress : UInt32) (words : List UInt32) (f : HeaderField) :
    getField moduleAddress (moduleHeader moduleAddress words) f = words.getD f.index 0 := by
  have hindex := HeaderField.index_lt f
  have hm := moduleAddress.toNat_lt
  have hbyte : ∀ k : UInt32, k.toNat < 4 →
      moduleHeader moduleAddress words (fieldAddress moduleAddress f + k) =
        (toLittleEndian 4 (words.getD f.index 0).toNat).getD k.toNat 0 := by
    intro k hk
    have hplace : (fieldAddress moduleAddress f + k - moduleAddress - croHashSize).toNat =
        4 * f.index + k.toNat := by
      unfold fieldAddress croHashSize
      simp only [UInt32.toNat_sub, UInt32.toNat_add, UInt32.toNat_ofNat', UInt32.toNat_ofNat]
      omega
    unfold moduleHeader
    rw [hplace, getD_wordBytes words f.index hk]
  have hfirst := hbyte 0 (by decide)
  rw [UInt32.add_zero] at hfirst
  unfold getField ByteMemory.read32
  rw [hfirst, hbyte 1 (by decide), hbyte 2 (by decide), hbyte 3 (by decide)]
  have hword : ofLittleEndian (toLittleEndian 4 (words.getD f.index 0).toNat) =
      (words.getD f.index 0).toNat := ofLittleEndian_of_lt (words.getD f.index 0).toNat_lt
  exact (congrArg UInt32.ofNat hword).trans UInt32.ofNat_toNat

theorem emptyTables_accepted {n : UInt32} (h : n = 1 ∨ n = 0x20000000) :
    (rebaseHeader 0x900000 (moduleHeader 0x900000 (emptyTables n)) 0x1000).1 = .success := by
  have horder : inOrder 0x900000 (moduleHeader 0x900000 (emptyTables n)) 0x138 offsetOrder.tail =
      true := by
    simp only [inOrder, offsetOrder, getField_moduleHeader, List.tail_cons]
    rcases h with rfl | rfl
    all_goals decide
  apply rebaseHeader_accepts
  all_goals simp only [getField_moduleHeader]
  case horder => exact horder
  all_goals
    rcases h with rfl | rfl
    all_goals decide

theorem tablesContained_emptyTables :
    (rebaseHeader 0x900000 (moduleHeader 0x900000 (emptyTables 1)) 0x1000).1 = .success ∧
      (TablesContained 0x900000 0x1000 (moduleHeader 0x900000 (emptyTables 1)) ↔
        ∀ table ∈ tables,
          TableWrapsNot 0x900000 0x1000 (moduleHeader 0x900000 (emptyTables 1)) table) :=
  ⟨emptyTables_accepted (Or.inl rfl), tablesContained_iff (emptyTables_accepted (Or.inl rfl))⟩

/-- The size of a table of `2 ^ 29` exported symbols is zero to the machine. -/
theorem tablesContained_hugeTable :
    ¬ ∀ (moduleAddress croSize : UInt32) (memory : ByteMemory),
      (rebaseHeader moduleAddress memory croSize).1 = .success →
        TablesContained moduleAddress croSize memory := by
  intro hall
  have haccepted := emptyTables_accepted (Or.inr rfl)
  have hwraps := (tablesContained_iff haccepted).mp (hall _ _ _ haccepted)
    ⟨.exportNamedSymbolTableOffset, .exportNamedSymbolNum, 8⟩ (by decide)
  unfold TableWrapsNot at hwraps
  simp only [getField_moduleHeader] at hwraps
  exact absurd hwraps (by decide)

end Examples

/-! ## Lookups -/

section Lookups

variable {moduleAddress : UInt32} {memory : ByteMemory} {name : List UInt8} {next : Child}

theorem findTurn_of_end (h : next.isEnd = true) :
    findTurn moduleAddress memory name next = .ok none := by
  unfold findTurn
  rw [if_pos h]
  rfl

theorem findTurn_of_inner (h : next.isEnd = false) :
    findTurn moduleAddress memory name next =
      .ok (some ((getTreeEntry moduleAddress memory next.nextIndex).select name)) := by
  unfold findTurn
  rw [if_neg (by rw [h]; decide)]
  rfl

/-- The walk comes from one child on the path of the name to the next. -/
theorem findTurn_childOnPath {n : ℕ}
    (h : (childOnPath moduleAddress memory name n).isEnd = false) :
    findTurn moduleAddress memory name (childOnPath moduleAddress memory name n) =
      .ok (some (childOnPath moduleAddress memory name (n + 1))) :=
  findTurn_of_inner h

/-- The walk visits the children on the path up to the first one that ends it. -/
theorem visits_iff : Visits (findTurn moduleAddress memory name)
    (getTreeEntry moduleAddress memory 0).left next ↔
      ∃ n, next = childOnPath moduleAddress memory name n ∧
        ∀ k < n, (childOnPath moduleAddress memory name k).isEnd = false := by
  constructor
  · intro h
    induction h with
    | refl => exact ⟨0, rfl, fun k hk => absurd hk (Nat.not_lt_zero k)⟩
    | @tail child next _ hturn ih =>
      obtain ⟨n, rfl, hinner⟩ := ih
      cases hend : (childOnPath moduleAddress memory name n).isEnd with
      | true =>
        rw [findTurn_of_end hend] at hturn
        cases hturn
      | false =>
        rw [findTurn_childOnPath hend] at hturn
        refine ⟨n + 1, (Option.some.inj (Except.ok.inj hturn)).symm, fun k hk => ?_⟩
        rcases Nat.lt_succ_iff_lt_or_eq.mp hk with hlt | rfl
        · exact hinner k hlt
        · exact hend
  · rintro ⟨n, rfl, hinner⟩
    induction n with
    | zero => exact .refl
    | succ n ih =>
      exact .tail (ih fun k hk => hinner k (by omega)) (findTurn_childOnPath (hinner n (by omega)))

/-- The walk from a child on the path is over at the first one that ends it. -/
theorem whileLoop_iff {fuel n : ℕ} {final : Child} :
    whileLoop (findTurn moduleAddress memory name) fuel (childOnPath moduleAddress memory name n) =
        .ok (some final) ↔
      ∃ m, n ≤ m ∧ m < n + fuel ∧ final = childOnPath moduleAddress memory name m ∧
        final.isEnd = true ∧
          ∀ k, n ≤ k → k < m → (childOnPath moduleAddress memory name k).isEnd = false := by
  induction fuel generalizing n with
  | zero =>
    constructor
    · intro h
      cases h
    · rintro ⟨m, hle, hlt, -⟩
      omega
  | succ fuel ih =>
    unfold whileLoop
    cases hend : (childOnPath moduleAddress memory name n).isEnd with
    | true =>
      rw [findTurn_of_end hend]
      constructor
      · intro h
        obtain rfl := Option.some.inj (Except.ok.inj h)
        exact ⟨n, Nat.le_refl n, by omega, rfl, hend, fun k hle hlt => by omega⟩
      · rintro ⟨m, hle, -, rfl, -, hinner⟩
        rcases Nat.lt_or_eq_of_le hle with hlt | rfl
        · rw [hinner n (Nat.le_refl n) hlt] at hend
          cases hend
        · rfl
    | false =>
      rw [findTurn_childOnPath hend]
      change whileLoop _ fuel (childOnPath moduleAddress memory name (n + 1)) = _ ↔ _
      rw [ih]
      constructor
      · rintro ⟨m, hle, hlt, hfinal, hlast, hinner⟩
        refine ⟨m, by omega, by omega, hfinal, hlast, fun k hk hkm => ?_⟩
        rcases Nat.lt_or_eq_of_le hk with hmore | rfl
        · exact hinner k hmore hkm
        · exact hend
      · rintro ⟨m, hle, hlt, hfinal, hlast, hinner⟩
        have hne : m ≠ n := by
          rintro rfl
          rw [hfinal, hend] at hlast
          cases hlast
        exact ⟨m, by omega, by omega, hfinal, hlast, fun k hk hkm => hinner k (by omega) hkm⟩

theorem childOnPath_shift {i j : ℕ} (hsame : childOnPath moduleAddress memory name i =
    childOnPath moduleAddress memory name j) (d : ℕ) :
    childOnPath moduleAddress memory name (i + d) =
      childOnPath moduleAddress memory name (j + d) := by
  induction d with
  | zero => exact hsame
  | succ d ih =>
    show (getTreeEntry moduleAddress memory
      (childOnPath moduleAddress memory name (i + d)).nextIndex).select name = _
    rw [ih]
    rfl

/-- No child comes back in front of the first one that ends the walk. -/
theorem childOnPath_ne {i j n : ℕ}
    (hend : (childOnPath moduleAddress memory name n).isEnd = true)
    (hinner : ∀ k < n, (childOnPath moduleAddress memory name k).isEnd = false)
    (hij : i < j) (hjn : j < n) :
    childOnPath moduleAddress memory name i ≠ childOnPath moduleAddress memory name j := by
  intro hsame
  have hcopy := childOnPath_shift hsame (n - j)
  rw [Nat.add_sub_cancel' (Nat.le_of_lt hjn)] at hcopy
  have hfalse := hinner (i + (n - j)) (by omega)
  rw [hcopy, hend] at hfalse
  cases hfalse

/-- A child that does not end the walk is its index. -/
theorem child_eq {child other : Child} (h : child.isEnd = false) (hother : other.isEnd = false)
    (hsame : child.nextIndex = other.nextIndex) : child = other := by
  have hraw : ∀ c : Child, c.isEnd = false → c.raw.toNat = c.nextIndex := by
    intro c hc
    have hnot := of_decide_eq_false hc
    have hlt := c.raw.toNat_lt
    unfold Child.nextIndex
    omega
  rw [← hraw _ h, ← hraw _ hother] at hsame
  exact congrArg Child.mk (UInt16.toNat_inj.mp hsame)

section Verified

variable (htree : verifyExportTreeTable moduleAddress memory = .success)
include htree

theorem children_lt {i : ℕ} (hi : i < (getField moduleAddress memory .exportTreeNum).toNat) :
    (getTreeEntry moduleAddress memory i).left.nextIndex <
        (getField moduleAddress memory .exportTreeNum).toNat ∧
      (getTreeEntry moduleAddress memory i).right.nextIndex <
        (getField moduleAddress memory .exportTreeNum).toNat := by
  unfold verifyExportTreeTable at htree
  dsimp only at htree
  split at htree
  · cases htree
  · rename_i hnone
    simp only [List.any_eq_true, List.mem_range, decide_eq_true_eq, not_exists, not_and,
      not_or, not_le] at hnone
    exact hnone i hi

theorem childOnPath_lt (htrees : getField moduleAddress memory .exportTreeNum ≠ 0) (n : ℕ) :
    (childOnPath moduleAddress memory name n).nextIndex <
      (getField moduleAddress memory .exportTreeNum).toNat := by
  have hpos : 0 < (getField moduleAddress memory .exportTreeNum).toNat :=
    Nat.pos_of_ne_zero fun hzero => htrees (UInt32.toNat_inj.mp hzero)
  induction n with
  | zero => exact (children_lt htree hpos).1
  | succ n ih =>
    obtain ⟨hleft, hright⟩ := children_lt htree ih
    unfold childOnPath ExportTreeEntry.select
    dsimp only
    split
    · exact hleft
    · split
      · exact hright
      · exact hleft

/-- The children in front of the first one that ends the walk are different ones, each the number of
an entry. -/
theorem firstEnd_le (htrees : getField moduleAddress memory .exportTreeNum ≠ 0) {n : ℕ}
    (hend : (childOnPath moduleAddress memory name n).isEnd = true)
    (hinner : ∀ k < n, (childOnPath moduleAddress memory name k).isEnd = false) :
    n ≤ (getField moduleAddress memory .exportTreeNum).toNat := by
  have hcard := Finset.card_le_card_of_injOn (s := Finset.range n)
    (t := Finset.range (getField moduleAddress memory .exportTreeNum).toNat)
    (fun k => (childOnPath moduleAddress memory name k).nextIndex)
    (fun k _ => Finset.mem_coe.mpr (Finset.mem_range.mpr (childOnPath_lt htree htrees k)))
    (fun i hi j hj hsame => by
      have hi := Finset.mem_range.mp hi
      have hj := Finset.mem_range.mp hj
      have hchild := child_eq (hinner i hi) (hinner j hj) hsame
      rcases Nat.lt_trichotomy i j with hlt | heq | hlt
      · exact absurd hchild (childOnPath_ne hend hinner hlt hj)
      · exact heq
      · exact absurd hchild.symm (childOnPath_ne hend hinner hlt hi))
  rwa [Finset.card_range, Finset.card_range] at hcard

end Verified

/-! ## Strings -/

/-- A string that is read up to its end. -/
theorem readCString_spec {address : UInt32} {length maxLength : ℕ} (hmax : length < maxLength)
    (hzero : memory (address + UInt32.ofNat length) = 0) :
    let string := readCString memory address maxLength
    0 ∉ string ∧ ∀ i ≤ string.length,
      memory (address + UInt32.ofNat i) = (string ++ [0]).getD i 0 := by
  induction length generalizing address maxLength with
  | zero =>
    obtain ⟨more, rfl⟩ := Nat.exists_eq_add_one_of_ne_zero (Nat.ne_of_gt hmax)
    have hend : memory address = 0 := by simpa using hzero
    have hstring : readCString memory address (more + 1) = [] := by
      simp [readCString, hend]
    simp [hstring, hend]
  | succ length ih =>
    obtain ⟨more, rfl⟩ := Nat.exists_eq_add_one_of_ne_zero (Nat.ne_of_gt (Nat.zero_lt_of_lt hmax))
    have hshift : ∀ i : ℕ, address + UInt32.ofNat (i + 1) = address + 1 + UInt32.ofNat i := by
      intro i
      rw [UInt32.ofNat_add, UInt32.add_comm (UInt32.ofNat i), ← UInt32.add_assoc]
      rfl
    by_cases hend : memory address = 0
    · have hstring : readCString memory address (more + 1) = [] := by
        simp [readCString, hend]
      simp [hstring, hend]
    · have hstring : readCString memory address (more + 1) =
          memory address :: readCString memory (address + 1) more := by
        simp [readCString, hend]
      rw [hshift] at hzero
      obtain ⟨hnone, hrest⟩ := ih (Nat.lt_of_succ_lt_succ hmax) hzero
      dsimp only
      rw [hstring]
      refine ⟨fun hmem => ?_, fun i hi => ?_⟩
      · rcases List.mem_cons.mp hmem with hfirst | hmore
        · exact hend hfirst.symm
        · exact hnone hmore
      · cases i with
        | zero => simp
        | succ i =>
          rw [hshift, hrest i (Nat.le_of_succ_le_succ hi)]
          rfl

/-- A string that begins in the export strings ends there. -/
theorem inExportStrings_iff {address : UInt32}
    (hstrings : verifyStringTableLength memory (getField moduleAddress memory .exportStringsOffset)
      (getField moduleAddress memory .exportStringsSize) = .success) :
    InExportStrings moduleAddress memory address ↔
      getField moduleAddress memory .exportStringsOffset ≤ address ∧
        address.toNat < (getField moduleAddress memory .exportStringsOffset).toNat +
          (getField moduleAddress memory .exportStringsSize).toNat := by
  constructor
  · rintro ⟨hle, length, hlt, -⟩
    exact ⟨hle, by omega⟩
  · rintro ⟨hle, hlt⟩
    have hstart := UInt32.le_iff_toNat_le.mp hle
    generalize hfirst : getField moduleAddress memory .exportStringsOffset = start at *
    generalize hmany : getField moduleAddress memory .exportStringsSize = size at *
    have hsize : size ≠ 0 := by
      rintro rfl
      rw [UInt32.toNat_zero] at hlt
      omega
    have hzero : memory (start + size - 1) = 0 := by
      unfold verifyStringTableLength at hstrings
      by_contra hne
      rw [if_pos ⟨hsize, hne⟩] at hstrings
      cases hstrings
    refine ⟨by rw [hfirst]; exact hle, start.toNat + size.toNat - 1 - address.toNat,
      by rw [hfirst, hmany]; omega, ?_⟩
    have hplace : address + UInt32.ofNat (start.toNat + size.toNat - 1 - address.toNat) =
        start + size - 1 := by
      apply UInt32.toNat_inj.mp
      have haddress := address.toNat_lt
      rw [UInt32.toNat_add, UInt32.toNat_ofNat', UInt32.toNat_sub, UInt32.toNat_add,
        UInt32.toNat_one]
      omega
    rw [hplace, hzero]

/-- The lookup in a tree that is not empty. -/
theorem find_eq_ok {fuel : ℕ} {result : UInt32}
    (htrees : getField moduleAddress memory .exportTreeNum ≠ 0) :
    findExportNamedSymbol moduleAddress memory fuel name = .ok (some result) ↔
      ∃ n < fuel, (childOnPath moduleAddress memory name n).isEnd = true ∧
        (∀ k < n, (childOnPath moduleAddress memory name k).isEnd = false) ∧
          result = foundSymbol moduleAddress memory name
            (childOnPath moduleAddress memory name n) := by
  unfold findExportNamedSymbol
  rw [if_neg htrees]
  constructor
  · intro h
    obtain ⟨found, hfound, hmap⟩ := bind_eq_ok.mp h
    obtain ⟨final, rfl, rfl⟩ := Option.map_eq_some_iff.mp (Except.ok.inj hmap)
    obtain ⟨n, -, hlt, rfl, hend, hinner⟩ := (whileLoop_iff (n := 0)).mp hfound
    exact ⟨n, by omega, hend, fun k hk => hinner k (Nat.zero_le k) hk, rfl⟩
  · rintro ⟨n, hlt, hend, hinner, rfl⟩
    refine bind_eq_ok.mpr ⟨_, (whileLoop_iff (n := 0)).mpr
      ⟨n, Nat.zero_le n, by omega, rfl, hend, fun k _ hk => hinner k hk⟩, rfl⟩

/-- The first child that ends the walk. -/
theorem firstEnd_unique {m n : ℕ}
    (hm : (childOnPath moduleAddress memory name m).isEnd = true)
    (hmInner : ∀ k < m, (childOnPath moduleAddress memory name k).isEnd = false)
    (hn : (childOnPath moduleAddress memory name n).isEnd = true)
    (hnInner : ∀ k < n, (childOnPath moduleAddress memory name k).isEnd = false) : m = n := by
  rcases Nat.lt_trichotomy m n with hlt | heq | hlt
  · rw [hnInner m hlt] at hm
    cases hm
  · exact heq
  · rw [hmInner n hlt] at hn
    cases hn

/-- What is found has the name that was looked for. -/
theorem isExport_of_found
    (hstring : let id := (getTreeEntry moduleAddress memory next.nextIndex).exportTableIndex
      id < (getField moduleAddress memory .exportNamedSymbolNum).toNat →
        InExportStrings moduleAddress memory (getNamedSymbol moduleAddress memory id).nameOffset)
    (hfound : foundSymbol moduleAddress memory name next ≠ 0) :
    ∃ id, IsExport moduleAddress memory name id (foundSymbol moduleAddress memory name next) := by
  unfold foundSymbol at hfound ⊢
  dsimp only at hstring hfound ⊢
  split at hfound
  · exact absurd rfl hfound
  · rename_i hid
    split at hfound
    · exact absurd rfl hfound
    · rename_i hname
      obtain ⟨hle, length, hlt, hzero⟩ := hstring (Nat.lt_of_not_le hid)
      have hstart := UInt32.le_iff_toNat_le.mp hle
      obtain ⟨hnone, hbytes⟩ := readCString_spec (by omega :
        length < (getField moduleAddress memory .exportStringsSize).toNat) hzero
      rw [not_not.mp hname] at hnone hbytes
      rw [if_neg hid, if_neg hname]
      exact ⟨_, Nat.lt_of_not_le hid, hnone, hbytes, rfl⟩

/-- A rebased module with no exports whose tree has one entry of zeros. -/
def oneEntryTree : ByteMemory :=
  (rebaseHeader 0x900000 (moduleHeader 0x900000 ((emptyTables 0).set 27 1)) 0x1000).2

/-- The module with an entry both of whose children end the walk. -/
def oneLeafTree : ByteMemory :=
  (oneEntryTree.write32 0x900138 0x80000000).write32 0x90013C 0x8000

/-- What a lookup in the module reads first. -/
theorem oneLeafTree_reads : verifyExportTreeTable 0x900000 oneLeafTree = .success ∧
    verifyStringTableLength oneLeafTree (getField 0x900000 oneLeafTree .exportStringsOffset)
      (getField 0x900000 oneLeafTree .exportStringsSize) = .success ∧
    (childOnPath 0x900000 oneLeafTree [0x66] 0).isEnd = true ∧
    (getField 0x900000 oneLeafTree .exportNamedSymbolNum).toNat = 0 := by
  decide +kernel

theorem oneEntryTree_reads : (verifyExportTreeTable 0x900000 oneEntryTree = .success ∧
      verifyStringTableLength oneEntryTree (getField 0x900000 oneEntryTree .exportStringsOffset)
        (getField 0x900000 oneEntryTree .exportStringsSize) = .success) ∧
    getTreeEntry 0x900000 oneEntryTree 0 = ⟨0, ⟨0⟩, ⟨0⟩, 0⟩ ∧
    getField 0x900000 oneEntryTree .exportTreeNum ≠ 0 := by
  decide +kernel

end Lookups

end Borked3DS.Analysis
