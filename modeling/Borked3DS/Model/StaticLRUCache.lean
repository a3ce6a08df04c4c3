import Mathlib.Algebra.Order.Ring.Nat
import Mathlib.Data.List.Nodup
import Mathlib.Data.List.Perm.Basic
import Mathlib.Data.Nat.Notation

/-!
# The statically allocated cache

`StaticLRUCache` of `static_lru_cache.h`: an array of values and a list of keys with their places in
it, the most recently used one first. Every place but the unused ones behind the first few belongs
to one key.
-/

set_option autoImplicit false

namespace Borked3DS.Model

/-- SOURCE: static_lru_cache.h:27-127 -/
structure StaticLRUCache (Key Value : Type) (Size : ℕ) where
  array : Vector Value Size
  list : List (Key × Fin Size) := []
  size_pos : 0 < Size := by decide
  keys_nodup : (list.map Prod.fst).Nodup := by exact List.nodup_nil
  indices_nodup : (list.map Prod.snd).Nodup := by exact List.nodup_nil
  index_lt : ∀ e ∈ list, e.2.val < list.length := by exact fun _ h => nomatch h

namespace StaticLRUCache

variable {Key Value : Type} {Size : ℕ} [DecidableEq Key]

/-- `find`. -/
def find (c : StaticLRUCache Key Value Size) (key : Key) : Option (Key × Fin Size) :=
  c.list.find? fun e => e.1 = key

/-- `clear`. -/
def clear (c : StaticLRUCache Key Value Size) : StaticLRUCache Key Value Size :=
  { array := c.array, size_pos := c.size_pos }

/-- Writing through the reference that `request` returns. -/
def store (c : StaticLRUCache Key Value Size) (i : Fin Size) (value : Value) :
    StaticLRUCache Key Value Size :=
  { c with array := c.array.set i.val value i.isLt }

section Find

variable {c : StaticLRUCache Key Value Size} {key : Key} {e : Key × Fin Size}

omit [DecidableEq Key] in
/-- A key has one place. -/
theorem eq_of_key {d : Key × Fin Size} (hd : d ∈ c.list) (he : e ∈ c.list) (h : d.1 = e.1) :
    d = e :=
  List.inj_on_of_nodup_map c.keys_nodup hd he h

theorem find_eq_some : c.find key = some e ↔ e ∈ c.list ∧ e.1 = key := by
  unfold find
  constructor
  · intro h
    have hkey := List.find?_some h
    exact ⟨List.mem_of_find?_eq_some h, of_decide_eq_true hkey⟩
  · rintro ⟨hmem, hkey⟩
    cases hfind : c.list.find? fun e => e.1 = key with
    | none =>
        have hnone := List.find?_eq_none.mp hfind e hmem
        exact absurd (decide_eq_true hkey) hnone
    | some d =>
        have hd := List.find?_some hfind
        rw [eq_of_key (List.mem_of_find?_eq_some hfind) hmem
          ((of_decide_eq_true hd).trans hkey.symm)]

theorem find_eq_none : c.find key = none ↔ ∀ e ∈ c.list, e.1 ≠ key := by
  unfold find
  rw [List.find?_eq_none]
  simp only [decide_eq_true_eq, ne_eq]

theorem key_not_mem (h : c.find key = none) : key ∉ c.list.map Prod.fst := by
  rw [List.mem_map]
  rintro ⟨e, he, rfl⟩
  exact find_eq_none.mp h e he rfl

end Find

/-- A found element moves to the front of the list. -/
def touch (c : StaticLRUCache Key Value Size) (e : Key × Fin Size) (h : e ∈ c.list) :
    StaticLRUCache Key Value Size :=
  have hperm : (e :: c.list.erase e).Perm c.list := (List.perm_cons_erase h).symm
  { c with
    list := e :: c.list.erase e
    keys_nodup := (hperm.map Prod.fst).nodup_iff.mpr c.keys_nodup
    indices_nodup := (hperm.map Prod.snd).nodup_iff.mpr c.indices_nodup
    index_lt := by
      intro d hd
      rw [hperm.length_eq]
      exact c.index_lt d (hperm.mem_iff.mp hd) }

/-- A new element takes the first unused place. -/
def insertNew (c : StaticLRUCache Key Value Size) (key : Key) (h : c.find key = none)
    (hroom : c.list.length < Size) : StaticLRUCache Key Value Size :=
  { c with
    list := (key, ⟨c.list.length, hroom⟩) :: c.list
    keys_nodup := List.nodup_cons.mpr ⟨key_not_mem h, c.keys_nodup⟩
    indices_nodup := by
      refine List.nodup_cons.mpr ⟨?_, c.indices_nodup⟩
      rw [List.mem_map]
      rintro ⟨d, hd, heq⟩
      have hlt := c.index_lt d hd
      rw [heq] at hlt
      exact Nat.lt_irrefl _ hlt
    index_lt := by
      intro d hd
      rw [List.length_cons]
      rcases List.mem_cons.mp hd with rfl | hmem
      · exact Nat.lt_succ_self _
      · exact Nat.lt_succ_of_lt (c.index_lt d hmem) }

omit [DecidableEq Key] in
theorem list_ne_nil (c : StaticLRUCache Key Value Size) (h : ¬ c.list.length < Size) :
    c.list ≠ [] := by
  intro hnil
  have hpos := c.size_pos
  rw [hnil, List.length_nil] at h
  exact h hpos

/-- A new element takes the place of the least recently used one (`evict`). -/
def replaceLast (c : StaticLRUCache Key Value Size) (key : Key) (h : c.find key = none)
    (hfull : ¬ c.list.length < Size) : StaticLRUCache Key Value Size :=
  have hne := list_ne_nil c hfull
  have hsplit : c.list.dropLast ++ [c.list.getLast hne] = c.list :=
    List.dropLast_append_getLast hne
  { c with
    list := (key, (c.list.getLast hne).2) :: c.list.dropLast
    keys_nodup := by
      refine List.nodup_cons.mpr ⟨?_, ?_⟩
      · intro hmem
        obtain ⟨d, hd, hkey⟩ := List.mem_map.mp hmem
        exact find_eq_none.mp h d (List.dropLast_subset _ hd) hkey
      · exact c.keys_nodup.sublist ((List.dropLast_sublist _).map _)
    indices_nodup := by
      have hperm : (c.list.getLast hne :: c.list.dropLast).Perm c.list := by
        have hswap : ([c.list.getLast hne] ++ c.list.dropLast).Perm
            (c.list.dropLast ++ [c.list.getLast hne]) := List.perm_append_comm
        rw [hsplit] at hswap
        exact hswap
      exact (hperm.map Prod.snd).nodup_iff.mpr c.indices_nodup
    index_lt := by
      have hlength : c.list.dropLast.length + 1 = c.list.length := by
        rw [List.length_dropLast]
        have hpos := List.length_pos_of_ne_nil hne
        omega
      intro d hd
      rw [List.length_cons, hlength]
      rcases List.mem_cons.mp hd with rfl | hmem
      · exact c.index_lt (c.list.getLast hne) (List.getLast_mem hne)
      · exact c.index_lt d (List.dropLast_subset _ hmem) }

/-- `request`: whether the element was present, its place, and the cache after the request.
SOURCE: static_lru_cache.h:64-95 -/
def request (c : StaticLRUCache Key Value Size) (key : Key) :
    Bool × Fin Size × StaticLRUCache Key Value Size :=
  match h : c.find key with
  | some e => (true, e.2, c.touch e (find_eq_some.mp h).1)
  | none =>
      if hroom : c.list.length < Size then
        (false, ⟨c.list.length, hroom⟩, c.insertNew key h hroom)
      else (false, (c.list.getLast (list_ne_nil c hroom)).2, c.replaceLast key h hroom)

/-- What is cached under a key. -/
def value? (c : StaticLRUCache Key Value Size) (key : Key) : Option Value :=
  (c.find key).map fun e => c.array[e.2]

section Request

variable {c : StaticLRUCache Key Value Size} {key : Key} {value : Value}

theorem value?_eq_some :
    c.value? key = some value ↔ ∃ i, (key, i) ∈ c.list ∧ c.array[i] = value := by
  unfold value?
  rw [Option.map_eq_some_iff]
  constructor
  · rintro ⟨⟨k, i⟩, hfind, hvalue⟩
    obtain ⟨hmem, rfl⟩ := find_eq_some.mp hfind
    exact ⟨i, hmem, hvalue⟩
  · rintro ⟨i, hmem, hvalue⟩
    exact ⟨(key, i), find_eq_some.mpr ⟨hmem, rfl⟩, hvalue⟩

theorem value?_eq_none : c.value? key = none ↔ c.find key = none := by
  unfold value?
  exact Option.map_eq_none_iff

/-- A request for what is cached returns it and changes nothing that is cached. -/
theorem request_found (h : c.value? key = some value) :
    ∃ i c', c.request key = (true, i, c') ∧ c'.array[i] = value ∧
      ∀ k, c'.value? k = c.value? k := by
  unfold value? at h
  obtain ⟨e, hfind, hvalue⟩ := Option.map_eq_some_iff.mp h
  have hmem := (find_eq_some.mp hfind).1
  refine ⟨e.2, c.touch e hmem, ?_, hvalue, ?_⟩
  · unfold request
    split
    · rename_i e' h'
      rw [hfind] at h'
      cases h'
      rfl
    · rename_i h'
      rw [hfind] at h'
      cases h'
  · intro k
    apply Option.ext
    intro w
    have hlist : ∀ d, d ∈ (c.touch e hmem).list ↔ d ∈ c.list := fun d =>
      (List.perm_cons_erase hmem).symm.mem_iff
    have harray : (c.touch e hmem).array = c.array := rfl
    rw [value?_eq_some, value?_eq_some]
    simp only [hlist, harray]

/-- A request for what is not cached gives a place of its own: what is stored there is cached then,
and of the rest some may be forgotten. -/
theorem request_missing (h : c.value? key = none) :
    ∃ i c', c.request key = (false, i, c') ∧ c'.array = c.array ∧
      ∀ v, (c'.store i v).value? key = some v ∧
        ∀ k w, k ≠ key → (c'.store i v).value? k = some w → c.value? k = some w := by
  have hfind := value?_eq_none.mp h
  suffices hplace : ∃ i c', c.request key = (false, i, c') ∧ c'.array = c.array ∧
      (key, i) ∈ c'.list ∧ ∀ k j, k ≠ key → (k, j) ∈ c'.list → (k, j) ∈ c.list ∧ j ≠ i by
    obtain ⟨i, c', hrequest, harray, hnew, hold⟩ := hplace
    refine ⟨i, c', hrequest, harray, ?_⟩
    intro v
    constructor
    · apply value?_eq_some.mpr
      exact ⟨i, hnew, Vector.getElem_set_self i.2⟩
    · intro k w hk hw
      obtain ⟨j, hmem, hvalue⟩ := value?_eq_some.mp hw
      obtain ⟨hmem', hj⟩ := hold k j hk hmem
      apply value?_eq_some.mpr
      refine ⟨j, hmem', ?_⟩
      rw [← harray, ← hvalue]
      exact (Vector.getElem_set_ne i.2 j.2 (fun heq => hj (Fin.ext heq.symm))).symm
  have hmiss : ∀ e, c.find key = some e → False := by
    intro e he
    rw [hfind] at he
    cases he
  unfold request
  split
  · rename_i e he
    exact (hmiss e he).elim
  · split
    · rename_i hroom
      refine ⟨_, _, rfl, rfl, List.mem_cons_self, ?_⟩
      intro k j hk hmem
      rcases List.mem_cons.mp hmem with heq | hmem
      · exact absurd (congrArg Prod.fst heq) hk
      · refine ⟨hmem, ?_⟩
        rintro rfl
        exact Nat.lt_irrefl _ (c.index_lt _ hmem)
    · rename_i hfull
      refine ⟨_, _, rfl, rfl, List.mem_cons_self, ?_⟩
      intro k j hk hmem
      rcases List.mem_cons.mp hmem with heq | hrest
      · exact absurd (congrArg Prod.fst heq) hk
      · refine ⟨List.dropLast_subset _ hrest, ?_⟩
        rintro rfl
        have hnodup := (c.replaceLast key hfind hfull).indices_nodup
        exact (List.nodup_cons.mp hnodup).1 (List.mem_map.mpr ⟨_, hrest, rfl⟩)

end Request

end StaticLRUCache

end Borked3DS.Model
