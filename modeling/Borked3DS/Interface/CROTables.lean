import Borked3DS.Model.CROHelper

/-!
# Where the tables of a module lie

What accepting the header of a module promises about its tables, and what a lookup in the tree of
its exported names is to find.
-/

set_option autoImplicit false

namespace Borked3DS.Interface

open Borked3DS.Library Borked3DS.Model.LDR

variable (moduleAddress croSize : UInt32) (memory : ByteMemory)

/-- Every byte of a table, from its address on, lies inside the module. The sums and products are
those of numbers, not of machine words. -/
def TableInside (table : Table) : Prop :=
  let address := (getField moduleAddress memory table.offsetField).toNat
  let entries := (getField moduleAddress memory table.sizeField).toNat
  moduleAddress.toNat ≤ address ∧
    address + entries * table.entrySize.toNat ≤ moduleAddress.toNat + croSize.toNat

/-- The tables of a module lie inside it once its header has been rebased. -/
def TablesContained : Prop :=
  ∀ table ∈ tables,
    TableInside moduleAddress croSize (rebaseHeader moduleAddress memory croSize).2 table

/-- The address of a table does not wrap around at `2 ^ 32`, and its end wraps around no more often
than the end of the module does. -/
def TableWrapsNot (table : Table) : Prop :=
  let offset := (getField moduleAddress memory table.offsetField).toNat
  let entries := (getField moduleAddress memory table.sizeField).toNat
  moduleAddress.toNat + offset < 2 ^ 32 ∧
    (moduleAddress.toNat + offset + entries * table.entrySize.toNat) / 2 ^ 32 ≤
      (moduleAddress.toNat + croSize.toNat) / 2 ^ 32

/-! ## Lookups in the tree of exported names -/

section Lookups

variable (moduleAddress : UInt32) (memory : ByteMemory) (name : List UInt8)

/-- The string at an address has its end in the export strings. -/
def InExportStrings (address : UInt32) : Prop :=
  let start := getField moduleAddress memory .exportStringsOffset
  let size := getField moduleAddress memory .exportStringsSize
  start ≤ address ∧ ∃ length : ℕ, address.toNat + length < start.toNat + size.toNat ∧
    memory (address + UInt32.ofNat length) = 0

/-- The export with an index has a name, and a position. -/
def IsExport (id : ℕ) (position : UInt32) : Prop :=
  let symbol := getNamedSymbol moduleAddress memory id
  id < (getField moduleAddress memory .exportNamedSymbolNum).toNat ∧ 0 ∉ name ∧
    (∀ i ≤ name.length,
      memory (symbol.nameOffset + UInt32.ofNat i) = (name ++ [0]).getD i 0) ∧
    position = segmentTagToAddress moduleAddress memory symbol.symbolPosition

/-- The lookup of a name ends, reads entries of the tree and a string of the export strings only,
and finds nothing but the export of that name. -/
structure LookupSound : Prop where
  ends : ∃ fuel result, findExportNamedSymbol moduleAddress memory fuel name = .ok (some result)
  entries : getField moduleAddress memory .exportTreeNum ≠ 0 → ∀ next,
    Visits (findTurn moduleAddress memory name) (getTreeEntry moduleAddress memory 0).left next →
      next.nextIndex < (getField moduleAddress memory .exportTreeNum).toNat
  strings : getField moduleAddress memory .exportTreeNum ≠ 0 → ∀ next,
    Visits (findTurn moduleAddress memory name) (getTreeEntry moduleAddress memory 0).left next →
      next.isEnd = true →
        let id := (getTreeEntry moduleAddress memory next.nextIndex).exportTableIndex
        id < (getField moduleAddress memory .exportNamedSymbolNum).toNat →
          InExportStrings moduleAddress memory (getNamedSymbol moduleAddress memory id).nameOffset
  sound : ∀ fuel result, findExportNamedSymbol moduleAddress memory fuel name = .ok (some result) →
    result ≠ 0 → ∃ id, IsExport moduleAddress memory name id result

/-- The children that the bits of a name select one after another. -/
def childOnPath : ℕ → Child
  | 0 => (getTreeEntry moduleAddress memory 0).left
  | n + 1 => (getTreeEntry moduleAddress memory (childOnPath n).nextIndex).select name

/-- The tree is empty; or among the first children that the bits of the name select, no more than
the tree has entries behind the first of them, is one that ends the walk, and where its entry names
an export, the name of that export begins in the export strings. -/
def LookupFits : Prop :=
  let treeNum := (getField moduleAddress memory .exportTreeNum).toNat
  treeNum = 0 ∨ ∃ n ≤ treeNum, (childOnPath moduleAddress memory name n).isEnd = true ∧
    (∀ k < n, (childOnPath moduleAddress memory name k).isEnd = false) ∧
    let id := (getTreeEntry moduleAddress memory
      (childOnPath moduleAddress memory name n).nextIndex).exportTableIndex
    let start := getField moduleAddress memory .exportStringsOffset
    let nameOffset := (getNamedSymbol moduleAddress memory id).nameOffset
    id < (getField moduleAddress memory .exportNamedSymbolNum).toNat →
      start ≤ nameOffset ∧ nameOffset.toNat <
        start.toNat + (getField moduleAddress memory .exportStringsSize).toNat

end Lookups

end Borked3DS.Interface
