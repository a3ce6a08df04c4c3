import Borked3DS.Model.ParamPackage

/-!
# Parameter packages written and read back

The escapes leave no separator in a key or a value, and are undone exactly. What is lost is a value
that is the empty string: nothing is left of it behind its separator.
-/

set_option autoImplicit false

namespace Borked3DS.Analysis

open Borked3DS.Model Borked3DS.Model.ParamPackage
open Borked3DS.Model.PathParser (splitString splitLoop_piece splitLoop_last)

/-! ## Replacing -/

section Replacing

variable {c d e x : UInt8} {dest text : List UInt8}

/-- Replacing a character goes character by character. -/
theorem replaceAll_char (hne : [c] ≠ dest) (text : List UInt8) :
    replaceAll text [c] dest = text.flatMap fun x => if x = c then dest else [x] := by
  unfold replaceAll
  rw [if_neg hne]
  induction text with
  | nil => rfl
  | cons x text ih =>
    rw [replaceLoop, List.flatMap_cons]
    by_cases hx : x = c
    · subst hx
      simp [ih]
    · have hcx : ¬ c = x := fun h => hx h.symm
      simp [hx, hcx, ih]

/-- An escape that is replaced by a character, in a text that is made up of the escape, of other
escapes and of characters that begin none. -/
theorem replaceAll_escape (token : UInt8 → List UInt8)
    (htoken : ∀ y, token y = [d, e] ∨ (∃ f, f ≠ e ∧ f ≠ d ∧ token y = [d, f]) ∨
      ∃ f, f ≠ d ∧ token y = [f]) (text : List UInt8) :
    replaceAll (text.flatMap token) [d, e] [x] =
      text.flatMap fun y => if token y = [d, e] then [x] else token y := by
  unfold replaceAll
  rw [if_neg (by simp)]
  induction text with
  | nil => rfl
  | cons y text ih =>
    rw [List.flatMap_cons, List.flatMap_cons, ← ih]
    rcases htoken y with htok | ⟨f, hfe, hfd, htok⟩ | ⟨f, hfd, htok⟩
    · simp [htok, replaceLoop]
    · have hdf : ¬ d = f := fun h => hfd h.symm
      have hef : ¬ e = f := fun h => hfe h.symm
      simp [htok, replaceLoop, hdf, hef, hfe]
    · have hdf : ¬ d = f := fun h => hfd h.symm
      simp [htok, replaceLoop, hdf]

end Replacing

/-! ## Escapes -/

/-- A character as it is written. -/
def escapeChar (c : UInt8) : List UInt8 :=
  if c = escapeCharacter then escapeCharacterEscape
  else if c = paramSeparator then paramSeparatorEscape
  else if c = keyValueSeparator then keyValueSeparatorEscape
  else [c]

/-- The three replacements do not get in each other's way.
SOURCE: param_package.cpp:61-65 -/
theorem escape_eq (part : List UInt8) : escape part = part.flatMap escapeChar := by
  unfold escape
  rw [replaceAll_char (by decide), replaceAll_char (by decide), replaceAll_char (by decide),
    List.flatMap_assoc, List.flatMap_assoc]
  congr 1
  funext c
  unfold escapeChar
  by_cases hescape : c = escapeCharacter
  · subst hescape
    decide
  · by_cases hparam : c = paramSeparator
    · subst hparam
      decide
    · simp [hescape, hparam]

/-- What is written has no separator left. -/
theorem escape_separators {part : List UInt8} {c : UInt8} (h : c ∈ escape part) :
    c ≠ keyValueSeparator ∧ c ≠ paramSeparator := by
  rw [escape_eq, List.mem_flatMap] at h
  obtain ⟨x, -, hx⟩ := h
  unfold escapeChar at hx
  split at hx
  next =>
    rcases List.mem_pair.mp hx with rfl | rfl <;> decide
  next =>
    split at hx
    next =>
      rcases List.mem_pair.mp hx with rfl | rfl <;> decide
    next hparam =>
      split at hx
      next =>
        rcases List.mem_pair.mp hx with rfl | rfl <;> decide
      next hkey =>
        obtain rfl := List.mem_singleton.mp hx
        exact ⟨hkey, hparam⟩

/-- Reading undoes writing, one replacement after the other.
SOURCE: param_package.cpp:41-45, 61-65 -/
theorem unescape_escape (part : List UInt8) : unescape (escape part) = part := by
  have hchar : ∀ y, y = keyValueSeparator ∨ y = paramSeparator ∨ y = escapeCharacter ∨
      y ≠ escapeCharacter ∧ escapeChar y = [y] := by
    intro y
    unfold escapeChar
    split_ifs with hescape hparam hkey
    · exact .inr (.inr (.inl hescape))
    · exact .inr (.inl hparam)
    · exact .inl hkey
    · exact .inr (.inr (.inr ⟨hescape, rfl⟩))
  have hkeys : replaceAll (escape part) keyValueSeparatorEscape [keyValueSeparator] =
      part.flatMap fun y => if y = keyValueSeparator then [y] else escapeChar y := by
    rw [escape_eq, keyValueSeparatorEscape, replaceAll_escape]
    · congr 1
      funext y
      rcases hchar y with rfl | rfl | rfl | ⟨hne, hy⟩
      · rfl
      · rfl
      · rfl
      · simp [hy]
    · intro y
      rcases hchar y with rfl | rfl | rfl | ⟨hne, hy⟩
      · exact .inl (by decide)
      · exact .inr (.inl ⟨0x31, by decide⟩)
      · exact .inr (.inl ⟨0x32, by decide⟩)
      · exact .inr (.inr ⟨y, hne, hy⟩)
  have hparams : replaceAll (part.flatMap fun y => if y = keyValueSeparator then [y]
      else escapeChar y) paramSeparatorEscape [paramSeparator] =
      part.flatMap fun y => if y = escapeCharacter then escapeCharacterEscape else [y] := by
    rw [paramSeparatorEscape, replaceAll_escape]
    · congr 1
      funext y
      rcases hchar y with rfl | rfl | rfl | ⟨hne, hy⟩
      · rfl
      · rfl
      · rfl
      · simp [hy, hne]
    · intro y
      rcases hchar y with rfl | rfl | rfl | ⟨hne, hy⟩
      · exact .inr (.inr ⟨keyValueSeparator, by decide⟩)
      · exact .inl (by decide)
      · exact .inr (.inl ⟨0x32, by decide⟩)
      · exact .inr (.inr ⟨y, hne, by simp [hy]⟩)
  have hescapes : replaceAll (part.flatMap fun y => if y = escapeCharacter then
      escapeCharacterEscape else [y]) escapeCharacterEscape [escapeCharacter] = part := by
    rw [escapeCharacterEscape, replaceAll_escape]
    · refine Eq.trans (congrArg part.flatMap (funext fun y => ?_)) (List.flatMap_singleton' part)
      by_cases hy : y = escapeCharacter
      · subst hy
        rfl
      · simp [hy]
    · intro y
      by_cases hy : y = escapeCharacter
      · exact .inl (if_pos hy)
      · exact .inr (.inr ⟨y, hy, if_neg hy⟩)
  simp only [unescape, hkeys, hparams, hescapes]

@[simp] theorem escape_eq_nil {part : List UInt8} : escape part = [] ↔ part = [] := by
  constructor
  · intro h
    rw [← unescape_escape part, h]
    rfl
  · rintro rfl
    rfl

/-! ## Pairs -/

section Pairs

variable {p : ParamPackage} {key value : List UInt8} {data : List (List UInt8 × List UInt8)}

/-- A pair without the separator behind it. -/
def pairText (pair : List UInt8 × List UInt8) : List UInt8 :=
  escape pair.1 ++ keyValueSeparator :: escape pair.2

theorem writePair_eq (pair : List UInt8 × List UInt8) :
    writePair pair = pairText pair ++ [paramSeparator] := by
  simp [writePair, pairText]

theorem paramSeparator_notMem_pairText (pair : List UInt8 × List UInt8) :
    paramSeparator ∉ pairText pair := by
  unfold pairText
  rw [List.mem_append, List.mem_cons]
  rintro (h | h | h)
  · exact (escape_separators h).2 rfl
  · exact absurd h (by decide)
  · exact (escape_separators h).2 rfl

/-- A pair is read unless its value is empty.
SOURCE: param_package.cpp:35-47 -/
theorem readPair_pairText :
    readPair p (pairText (key, value)) = if value = [] then p else p.set key value := by
  have hkey : keyValueSeparator ∉ escape key := fun h => (escape_separators h).1 rfl
  have hvalue : keyValueSeparator ∉ escape value := fun h => (escape_separators h).1 rfl
  unfold readPair pairText splitString
  rw [splitLoop_piece hkey, splitLoop_last hvalue, List.nil_append, List.nil_append]
  by_cases hempty : value = []
  · rw [if_pos hempty, if_pos (escape_eq_nil.mpr hempty)]
  · rw [if_neg hempty, if_neg fun h => hempty (escape_eq_nil.mp h)]
    simp only [unescape_escape]

/-- The pairs are told apart.
SOURCE: param_package.cpp:33, 67-70 -/
theorem splitString_pairs (hne : data ≠ []) :
    splitString (data.flatMap writePair).dropLast paramSeparator = data.map pairText := by
  unfold splitString
  induction data with
  | nil => exact absurd rfl hne
  | cons pair rest ih =>
    have hpair := paramSeparator_notMem_pairText pair
    rw [List.flatMap_cons, writePair_eq]
    cases rest with
    | nil =>
      rw [List.flatMap_nil, List.append_nil, List.dropLast_concat, splitLoop_last hpair,
        if_neg (by simp [pairText])]
      rfl
    | cons next rest =>
      have hrest : (next :: rest).flatMap writePair ≠ [] := by simp [writePair]
      rw [List.dropLast_append_of_ne_nil hrest, List.append_assoc, List.singleton_append,
        splitLoop_piece hpair, ih (List.cons_ne_nil _ _)]
      rfl

/-- A key that is larger than the others comes last. -/
theorem insertOrAssign_last (h : ∀ entry ∈ data, entry.1 < key) :
    insertOrAssign key value data = data ++ [(key, value)] := by
  induction data with
  | nil => rfl
  | cons entry rest ih =>
    have hlt := h entry List.mem_cons_self
    have hne : key ≠ entry.1 := fun heq => List.lt_irrefl _ (heq ▸ hlt)
    rw [insertOrAssign, if_neg (List.lt_asymm hlt), if_neg hne,
      ih fun other hmem => h other (List.mem_cons_of_mem _ hmem)]
    rfl

/-- Pairs that are read in the order of their keys are put one behind the other. -/
theorem foldl_readPair (hsorted : data.Pairwise fun a b => a.1 < b.1)
    (h : ∀ a ∈ p.data, ∀ b ∈ data, a.1 < b.1) :
    ((data.map pairText).foldl readPair p).data =
      p.data ++ data.filter fun pair => decide (pair.2 ≠ []) := by
  induction data generalizing p with
  | nil => simp
  | cons pair rest ih =>
    obtain ⟨key, value⟩ := pair
    obtain ⟨hpair, hrest⟩ := List.pairwise_cons.mp hsorted
    have hbefore : ∀ a ∈ p.data, a.1 < key := fun a ha => h a ha _ List.mem_cons_self
    rw [List.map_cons, List.foldl_cons, readPair_pairText]
    by_cases hempty : value = []
    · rw [if_pos hempty, ih hrest fun a ha b hb => h a ha b (List.mem_cons_of_mem _ hb),
        List.filter_cons_of_neg (by simp [hempty])]
    · rw [if_neg hempty, ih hrest, List.filter_cons_of_pos (by simp [hempty])]
      · simp [ParamPackage.set, insertOrAssign_last hbefore]
      · intro a ha b hb
        rcases mem_insertOrAssign ha with rfl | ha
        · exact hpair b hb
        · exact h a ha b (List.mem_cons_of_mem _ hb)

end Pairs

/-! ## Whole packages -/

/-- The placeholder stands for nothing else. -/
theorem serialize_ne_placeholder {p : ParamPackage} (hne : p.data ≠ []) :
    serialize p ≠ emptyPlaceholder := by
  unfold serialize
  rw [if_neg hne]
  intro heq
  obtain ⟨pair, hpair⟩ := List.exists_mem_of_ne_nil _ hne
  have hpairs := splitString_pairs hne
  rw [heq, show splitString emptyPlaceholder paramSeparator = [emptyPlaceholder] from rfl] at hpairs
  have htext : pairText pair ∈ [emptyPlaceholder] := hpairs ▸ List.mem_map_of_mem hpair
  have hmem : keyValueSeparator ∈ pairText pair := by simp [pairText]
  rw [List.mem_singleton.mp htext] at hmem
  exact absurd hmem (by decide)

/-- What is read back is the entries whose values are not empty.
SOURCE: param_package.cpp:28-71 -/
theorem parse_serialize (p : ParamPackage) :
    (parse (serialize p)).data = p.data.filter fun pair => decide (pair.2 ≠ []) := by
  by_cases hne : p.data = []
  · simp [serialize, parse, hne, ParamPackage.empty]
  · unfold parse
    rw [if_neg (serialize_ne_placeholder hne)]
    unfold serialize
    rw [if_neg hne, splitString_pairs hne, foldl_readPair p.sorted]
    · rfl
    · intro a ha
      cases ha

theorem ParamPackage.ext {p q : ParamPackage} (h : p.data = q.data) : p = q := by
  cases p
  cases q
  cases h
  rfl

/-- A package comes back from its string exactly when none of its values is empty.
SOURCE: param_package.cpp:28-71 -/
theorem parse_serialize_iff (p : ParamPackage) :
    parse (serialize p) = p ↔ ∀ pair ∈ p.data, pair.2 ≠ [] := by
  constructor
  · intro h pair hpair
    have hdata := parse_serialize p
    rw [h] at hdata
    simpa using List.filter_eq_self.mp hdata.symm pair hpair
  · intro h
    apply ParamPackage.ext
    rw [parse_serialize]
    exact List.filter_eq_self.mpr fun pair hpair => by simpa using h pair hpair

/-- A value that is empty is lost.
SOURCE: param_package.cpp:35-39 -/
theorem parse_serialize_loses :
    parse (serialize ⟨[([0x61], [])], List.pairwise_singleton _ _⟩) ≠
      ⟨[([0x61], [])], List.pairwise_singleton _ _⟩ := by
  intro h
  have hdata := congrArg ParamPackage.data h
  rw [parse_serialize] at hdata
  exact absurd hdata (by decide)

end Borked3DS.Analysis
