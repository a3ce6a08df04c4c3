import Borked3DS.Interface.PathContainment

/-!
# Containment of guest paths

The host path of an accepted guest path, read by the host, enters one directory after the other. The
level that the parser counts is how far below the mount point that leads, up to the component that
holds the first NUL: the parser counts the whole of it, the host reads what stands before the NUL.
-/

set_option autoImplicit false

namespace Borked3DS.Analysis

open Borked3DS.Model Borked3DS.Model.PathParser Borked3DS.Interface

section Strings

variable {s t : List UInt8}

theorem cString_append (h : 0 ∉ s) : cString (s ++ t) = s ++ cString t := by
  apply List.takeWhile_append_of_pos
  intro c hc
  apply decide_eq_true
  rintro rfl
  exact h hc

theorem cString_of_not_mem (h : 0 ∉ s) : cString s = s := by
  have happend := cString_append (t := []) h
  rwa [List.append_nil, show cString [] = [] from rfl, List.append_nil] at happend

/-- Nothing behind a NUL is seen. -/
theorem cString_append_of_mem (h : 0 ∈ s) : cString (s ++ t) = cString s := by
  induction s with
  | nil => cases h
  | cons c s ih =>
      unfold cString at ih ⊢
      rw [List.cons_append, List.takeWhile_cons, List.takeWhile_cons]
      by_cases hc : c = 0
      · rw [if_neg (by simp [hc]), if_neg (by simp [hc])]
      · have hmem : 0 ∈ s := by
          rcases List.mem_cons.mp h with heq | hmem
          · exact absurd heq.symm hc
          · exact hmem
        rw [ih hmem]

theorem cString_subset : cString s ⊆ s := (List.takeWhile_prefix _).subset

end Strings

section Components

variable {s t node : List UInt8}

theorem components_ne_nil (s : List UInt8) : components s ≠ [] := by
  cases s with
  | nil => exact List.cons_ne_nil _ _
  | cons c s =>
      rw [components]
      split
      · exact List.cons_ne_nil _ _
      · split
        · exact List.cons_ne_nil _ _
        · exact List.cons_ne_nil _ _

theorem components_cons {c : UInt8} {first : List UInt8} {others : List (List UInt8)}
    (hc : c ≠ slash) (h : components s = first :: others) :
    components (c :: s) = (c :: first) :: others := by
  rw [components, if_neg hc, h]

/-- A slash separates the components before it from those behind it. -/
theorem components_append_slash (s t : List UInt8) :
    components (s ++ slash :: t) = components s ++ components t := by
  induction s with
  | nil =>
      rw [List.nil_append, components.eq_2, if_pos rfl]
      rfl
  | cons c s ih =>
      by_cases hc : c = slash
      · rw [List.cons_append, components, components, if_pos hc, if_pos hc, ih]
        rfl
      · obtain ⟨first, others, hs⟩ := List.exists_cons_of_ne_nil (components_ne_nil s)
        rw [hs, List.cons_append] at ih
        rw [List.cons_append, components_cons hc ih, components_cons hc hs]
        rfl

theorem components_of_not_mem (h : slash ∉ node) : components node = [node] := by
  induction node with
  | nil => rfl
  | cons c node ih =>
      have hc : c ≠ slash := fun heq => h (heq ▸ List.mem_cons_self)
      exact components_cons hc (ih fun hmem => h (List.mem_cons_of_mem _ hmem))

theorem slash_not_mem_components {component : List UInt8} (h : component ∈ components s) :
    slash ∉ component := by
  induction s generalizing component with
  | nil =>
      rw [List.mem_singleton.mp h]
      exact List.not_mem_nil
  | cons c s ih =>
      by_cases hc : c = slash
      · rw [components, if_pos hc] at h
        rcases List.mem_cons.mp h with rfl | hmem
        · exact List.not_mem_nil
        · exact ih hmem
      · obtain ⟨first, others, hs⟩ := List.exists_cons_of_ne_nil (components_ne_nil s)
        rw [components_cons hc hs] at h
        rw [hs] at ih
        rcases List.mem_cons.mp h with rfl | hmem
        · intro hslash
          rcases List.mem_cons.mp hslash with heq | hfirst
          · exact hc heq.symm
          · exact ih List.mem_cons_self hfirst
        · exact ih (List.mem_cons_of_mem _ hmem)

/-- Adding a node to a path, with a slash between them if there is none, leads from where the path
leads into the node. -/
theorem resolve_join (directory : List (List UInt8)) (hs : s ≠ []) (hnode : slash ∉ node) :
    resolve directory ((if s.getLast hs ≠ slash then s ++ [slash] else s) ++ node) =
      enter (resolve directory s) node := by
  have hhead : ∀ t : List UInt8, (s ++ t).head? = s.head? := fun t =>
    List.head?_append_of_ne_nil s hs
  unfold resolve
  by_cases hlast : s.getLast hs = slash
  · have hsplit : s.dropLast ++ [slash] = s := by
      rw [← hlast]
      exact List.dropLast_append_getLast hs
    have hcomponents : components s = components s.dropLast ++ [[]] := by
      conv_lhs => rw [← hsplit]
      exact components_append_slash _ _
    have hadded : components (s ++ node) = components s.dropLast ++ [node] := by
      conv_lhs => rw [← hsplit, List.append_assoc]
      have happend := components_append_slash s.dropLast node
      rwa [components_of_not_mem hnode] at happend
    rw [if_neg (not_not.mpr hlast), hhead, hadded, hcomponents, List.foldl_append, List.foldl_append]
    rfl
  · have hadded : components (s ++ [slash] ++ node) = components s ++ [node] := by
      have happend := components_append_slash s node
      rw [components_of_not_mem hnode] at happend
      rw [List.append_assoc]
      exact happend
    rw [if_pos hlast, hadded, List.append_assoc, hhead, List.foldl_append]
    rfl

end Components

section Nodes

/-- What the host sees of some nodes: those before the first NUL, and the front of the one that
holds it. -/
def cutNodes : List (List UInt8) → List (List UInt8)
  | [] => []
  | node :: rest => if 0 ∈ node then [cString node] else node :: cutNodes rest

variable {s path : List UInt8} {nodes : List (List UInt8)}

theorem components_cString (s : List UInt8) : components (cString s) = cutNodes (components s) := by
  induction s with
  | nil => rfl
  | cons c s ih =>
      obtain ⟨first, others, hs⟩ := List.exists_cons_of_ne_nil (components_ne_nil s)
      by_cases hzero : c = 0
      · subst hzero
        have hcut : cString (0 :: s) = [] := rfl
        have hfirst : cString (0 :: first) = [] := rfl
        rw [hcut, components_cons (by decide) hs, cutNodes, if_pos List.mem_cons_self, hfirst]
        rfl
      · have hcons : ∀ l : List UInt8, cString (c :: l) = c :: cString l := by
          intro l
          exact List.takeWhile_cons_of_pos (decide_eq_true hzero)
        have hmem : ∀ l : List UInt8, 0 ∈ c :: l ↔ 0 ∈ l := by
          intro l
          rw [List.mem_cons]
          exact ⟨fun h => h.resolve_left fun heq => hzero heq.symm, Or.inr⟩
        rw [hcons]
        by_cases hc : c = slash
        · subst hc
          rw [components, if_pos rfl, components, if_pos rfl, cutNodes, if_neg List.not_mem_nil, ih]
        · rw [components_cons hc hs]
          rw [hs, cutNodes] at ih
          by_cases hfirst : 0 ∈ first
          · rw [if_pos hfirst] at ih
            rw [components_cons hc ih, cutNodes, if_pos ((hmem first).mpr hfirst), hcons]
          · rw [if_neg hfirst] at ih
            rw [components_cons hc ih, cutNodes, if_neg (fun h => hfirst ((hmem first).mp h))]

/-- The pieces that `SplitString` yields are the components, but for an empty last one. -/
theorem splitLoop_filter (p : List UInt8 → Bool) (hp : p [] = false) (piece s : List UInt8)
    {first : List UInt8} {others : List (List UInt8)} (hs : components s = first :: others) :
    (splitLoop slash piece s).filter p = ((piece ++ first) :: others).filter p := by
  induction s generalizing piece first others with
  | nil =>
      cases hs
      rw [splitLoop, List.append_nil]
      split
      · rename_i hpiece
        rw [hpiece, List.filter_cons, hp]
        rfl
      · rfl
  | cons c s ih =>
      obtain ⟨first', others', hs'⟩ := List.exists_cons_of_ne_nil (components_ne_nil s)
      rw [splitLoop]
      by_cases hc : c = slash
      · rw [components, if_pos hc, hs'] at hs
        cases hs
        have hrest := ih [] hs'
        rw [List.nil_append] at hrest
        rw [if_pos hc, List.append_nil, List.filter_cons, List.filter_cons (x := piece), hrest]
      · rw [components_cons hc hs'] at hs
        cases hs
        have hrest := ih (piece ++ [c]) hs'
        rw [List.append_assoc] at hrest
        rw [if_neg hc]
        exact hrest

/-- The nodes that are neither empty nor `"."`. -/
def properNodes (nodes : List (List UInt8)) : List (List UInt8) :=
  nodes.filter fun str => ¬ (str = [] ∨ str = dot)

theorem properNodes_splitString (s : List UInt8) :
    properNodes (splitString s slash) = properNodes (components s) := by
  obtain ⟨first, others, hs⟩ := List.exists_cons_of_ne_nil (components_ne_nil s)
  unfold properNodes
  rw [splitString, splitLoop_filter _ (by decide) [] s hs, hs, List.nil_append]

theorem mem_properNodes {node : List UInt8} :
    node ∈ properNodes nodes ↔ node ∈ nodes ∧ node ≠ [] ∧ node ≠ dot := by
  unfold properNodes
  rw [List.mem_filter, decide_eq_true_eq, not_or]

theorem staysBelow_cons (level : ℕ) (node : List UInt8) (nodes : List (List UInt8)) :
    StaysBelow level (node :: nodes) =
      if node = [] ∨ node = dot then StaysBelow level nodes
      else if node = dotDot then
        match level with
        | 0 => False
        | level + 1 => StaysBelow level nodes
      else StaysBelow (level + 1) nodes := by
  cases level <;> rfl

/-- Leaving out the empty nodes and `"."` changes nothing for the host. -/
theorem staysBelow_properNodes (level : ℕ) (nodes : List (List UInt8)) :
    StaysBelow level (cutNodes (properNodes nodes)) ↔ StaysBelow level (cutNodes nodes) := by
  induction nodes generalizing level with
  | nil => exact Iff.rfl
  | cons node nodes ih =>
      by_cases hskip : node = [] ∨ node = dot
      · have hdrop : properNodes (node :: nodes) = properNodes nodes :=
          List.filter_cons_of_neg (by simpa [or_iff_not_imp_left] using hskip)
        have hzero : 0 ∉ node := by
          rcases hskip with rfl | rfl
          · exact List.not_mem_nil
          · decide
        rw [hdrop, cutNodes, if_neg hzero, staysBelow_cons, if_pos hskip, ih]
      · have hkeep : properNodes (node :: nodes) = node :: properNodes nodes :=
          List.filter_cons_of_pos (by simpa using hskip)
        rw [hkeep, cutNodes, cutNodes]
        by_cases hzero : 0 ∈ node
        · rw [if_pos hzero, if_pos hzero]
        · rw [if_neg hzero, if_neg hzero, staysBelow_cons, staysBelow_cons, if_neg hskip,
            if_neg hskip]
          split
          · cases level with
            | zero => exact Iff.rfl
            | succ level => exact ih level
          · exact ih (level + 1)

/-- Following components that never lead out of a directory ends below it. -/
theorem foldl_enter_of_staysBelow {level : ℕ} (base extra : List (List UInt8))
    (hlevel : extra.length = level) (h : StaysBelow level nodes) :
    base <+: nodes.foldl enter (base ++ extra) := by
  induction nodes generalizing level extra with
  | nil => exact List.prefix_append base extra
  | cons node nodes ih =>
      rw [List.foldl_cons]
      rw [staysBelow_cons] at h
      unfold enter
      by_cases hskip : node = [] ∨ node = dot
      · rw [if_pos hskip] at h ⊢
        exact ih extra hlevel h
      · rw [if_neg hskip] at h ⊢
        by_cases hup : node = dotDot
        · rw [if_pos hup] at h ⊢
          cases level with
          | zero => exact h.elim
          | succ level =>
              have hne : extra ≠ [] := by
                rintro rfl
                cases hlevel
              rw [List.dropLast_append_of_ne_nil hne]
              apply ih _ _ h
              rw [List.length_dropLast, hlevel]
              rfl
        · rw [if_neg hup] at h ⊢
          rw [List.append_assoc]
          apply ih _ _ h
          rw [List.length_append, List.length_singleton, hlevel]

/-- Nodes that pass the parser's check leave the directory at most by the front of the one that
holds the first NUL, and then they lead to its parent. -/
theorem foldl_enter_of_checkLevel {level : ℕ} (base extra : List (List UInt8)) {top : ℤ}
    (hlevel : extra.length = level) (hproper : ∀ node ∈ nodes, node ≠ [] ∧ node ≠ dot)
    (h : checkLevel level nodes = some top) :
    StaysBelow level (cutNodes nodes) ∨
      (cutNodes nodes).foldl enter (base ++ extra) = base.dropLast := by
  induction nodes generalizing level extra with
  | nil => exact Or.inl trivial
  | cons node nodes ih =>
      have hskip : ¬ (node = [] ∨ node = dot) :=
        not_or.mpr (hproper node List.mem_cons_self)
      have hrest : ∀ node ∈ nodes, node ≠ [] ∧ node ≠ dot := fun n hn =>
        hproper n (List.mem_cons_of_mem _ hn)
      rw [cutNodes]
      by_cases hzero : 0 ∈ node
      · rw [if_pos hzero, List.foldl_cons, List.foldl_nil, staysBelow_cons]
        unfold enter
        by_cases hskip' : cString node = [] ∨ cString node = dot
        · rw [if_pos hskip']
          exact Or.inl trivial
        · rw [if_neg hskip', if_neg hskip']
          by_cases hup : cString node = dotDot
          · rw [if_pos hup, if_pos hup]
            cases level with
            | zero =>
                rw [List.eq_nil_of_length_eq_zero hlevel, List.append_nil]
                exact Or.inr rfl
            | succ level => exact Or.inl trivial
          · rw [if_neg hup]
            exact Or.inl trivial
      · rw [if_neg hzero, List.foldl_cons, staysBelow_cons, if_neg hskip]
        rw [checkLevel] at h
        unfold enter
        rw [if_neg hskip]
        by_cases hup : node = dotDot
        · rw [if_pos hup] at h
          rw [if_pos hup, if_pos hup]
          dsimp only at h
          split at h
          · cases h
          · cases level with
            | zero => omega
            | succ level =>
                have hne : extra ≠ [] := by
                  rintro rfl
                  cases hlevel
                have hpred : ((level + 1 : ℕ) : ℤ) - 1 = (level : ℤ) := by omega
                rw [hpred] at h
                rw [List.dropLast_append_of_ne_nil hne]
                apply ih _ _ hrest h
                rw [List.length_dropLast, hlevel]
                rfl
        · rw [if_neg hup] at h
          rw [if_neg hup, if_neg hup, List.append_assoc]
          apply ih _ _ hrest
          · exact_mod_cast h
          · rw [List.length_append, List.length_singleton, hlevel]

end Nodes

section HostPath

variable {path : List UInt8} {nodes : List (List UInt8)}

/-- A step of `BuildHostPath`, on a path that is not empty. -/
theorem joinNodes_cons (hpath : path ≠ []) (node : List UInt8) (nodes : List (List UInt8)) :
    joinNodes path (node :: nodes) =
      joinNodes ((if path.getLast hpath ≠ slash then path ++ [slash] else path) ++ node) nodes := by
  rw [joinNodes, List.getLast?_eq_some_getLast hpath]

/-- What a step adds goes behind the path. -/
theorem join_eq_append (hpath : path ≠ []) (node : List UInt8) :
    ∃ joint, 0 ∉ joint ∧
      (if path.getLast hpath ≠ slash then path ++ [slash] else path) ++ node =
        path ++ joint ++ node := by
  split
  · exact ⟨[slash], by decide, rfl⟩
  · exact ⟨[], List.not_mem_nil, by rw [List.append_nil]⟩

theorem joinNodes_ok (hpath : path ≠ []) (nodes : List (List UInt8)) :
    ∃ tail, joinNodes path nodes = .ok (path ++ tail) := by
  induction nodes generalizing path with
  | nil => exact ⟨[], by rw [List.append_nil]; rfl⟩
  | cons node nodes ih =>
      obtain ⟨joint, -, hjoint⟩ := join_eq_append hpath node
      have hne : path ++ joint ++ node ≠ [] :=
        List.append_ne_nil_of_left_ne_nil (List.append_ne_nil_of_left_ne_nil hpath _) _
      obtain ⟨tail, htail⟩ := ih hne
      refine ⟨joint ++ node ++ tail, ?_⟩
      rw [joinNodes_cons hpath, hjoint, htail]
      simp only [List.append_assoc]

/-- The host follows the nodes that it sees, from where the path leads. -/
theorem resolve_joinNodes (directory : List (List UInt8)) (hpath : path ≠ []) (hzero : 0 ∉ path)
    (hnodes : ∀ node ∈ nodes, slash ∉ node) :
    ∃ hostPath, joinNodes path nodes = .ok hostPath ∧
      resolve directory (cString hostPath) =
        (cutNodes nodes).foldl enter (resolve directory path) := by
  induction nodes generalizing path with
  | nil => exact ⟨path, rfl, by rw [cString_of_not_mem hzero]; rfl⟩
  | cons node nodes ih =>
      have hslash := hnodes node List.mem_cons_self
      have hrest : ∀ node ∈ nodes, slash ∉ node := fun n hn =>
        hnodes n (List.mem_cons_of_mem _ hn)
      obtain ⟨joint, hjointzero, hjoint⟩ := join_eq_append hpath node
      have hne : path ++ joint ++ node ≠ [] :=
        List.append_ne_nil_of_left_ne_nil (List.append_ne_nil_of_left_ne_nil hpath _) _
      have hfront : 0 ∉ path ++ joint := by
        rw [List.mem_append, not_or]
        exact ⟨hzero, hjointzero⟩
      rw [joinNodes_cons hpath, hjoint, cutNodes]
      by_cases hnode : 0 ∈ node
      · obtain ⟨tail, htail⟩ := joinNodes_ok hne nodes
        refine ⟨_, htail, ?_⟩
        have hcut : cString (path ++ joint ++ node ++ tail) = path ++ joint ++ cString node := by
          rw [List.append_assoc, cString_append hfront, cString_append_of_mem hnode]
        have hjoint' : (if path.getLast hpath ≠ slash then path ++ [slash] else path) ++
            cString node = path ++ joint ++ cString node := by
          have hsame := List.append_cancel_right hjoint
          rw [hsame]
        rw [hcut, ← hjoint', resolve_join directory hpath (fun h => hslash (cString_subset h)),
          if_pos hnode]
        rfl
      · have hzero' : 0 ∉ path ++ joint ++ node := by
          rw [List.mem_append, not_or]
          exact ⟨hfront, hnode⟩
        obtain ⟨hostPath, hjoin, hresolve⟩ := ih hne hzero' hrest
        refine ⟨hostPath, hjoin, ?_⟩
        rw [hresolve, ← hjoint, resolve_join directory hpath hslash, if_neg hnode]
        rfl

end HostPath

section Containment

variable {utf16ToUtf8 : List UInt16 → List UInt8} {path : Path}

/-- What the parser keeps of an accepted path. -/
theorem pathSequence_of_isValid (h : (ofPath utf16ToUtf8 path).isValid = true) :
    (ofPath utf16ToUtf8 path).pathSequence =
        properNodes (components (path.asString utf16ToUtf8)) ∧
      ∃ top, checkLevel 0 (properNodes (components (path.asString utf16ToUtf8))) = some top := by
  rw [← properNodes_splitString]
  unfold ofPath at h ⊢
  split at h
  · cases h
  · rename_i htype
    rw [if_neg htype]
    dsimp only at h ⊢
    split at h
    · cases h
    · rename_i hstart
      rw [if_neg hstart]
      split at h
      · cases h
      · rename_i hchars
        rw [if_neg hchars]
        split at h
        · cases h
        · rename_i top hlevel
          exact ⟨rfl, top, hlevel⟩

/-- A guest path is contained in a mount point exactly when, if it is accepted, the part of it that
the host sees does not lead out of the root of the archive. -/
theorem pathContained_iff (utf16ToUtf8 : List UInt16 → List UInt8)
    (workingDirectory : List (List UInt8)) (mountPoint : List UInt8) (path : Path)
    (hmount : IsMountPoint mountPoint) :
    PathContained utf16ToUtf8 workingDirectory mountPoint path ↔
      NulSafe utf16ToUtf8 workingDirectory mountPoint path := by
  unfold PathContained NulSafe
  apply imp_congr_right
  intro hvalid
  obtain ⟨hsequence, top, hlevel⟩ := pathSequence_of_isValid hvalid
  generalize hall : components (path.asString utf16ToUtf8) = all at hsequence hlevel
  have hslash : ∀ node ∈ properNodes all, slash ∉ node := by
    intro node hnode
    rw [← hall] at hnode
    exact slash_not_mem_components (mem_properNodes.mp hnode).1
  have hproper : ∀ node ∈ properNodes all, node ≠ [] ∧ node ≠ dot := fun node hnode =>
    (mem_properNodes.mp hnode).2
  obtain ⟨hostPath, hbuild, hresolve⟩ :=
    resolve_joinNodes workingDirectory hmount.1 hmount.2 hslash
  unfold buildHostPath
  rw [hsequence, hbuild, components_cString, hall, ← staysBelow_properNodes]
  generalize resolve workingDirectory mountPoint = base at hresolve ⊢
  constructor
  · rintro ⟨hostPath', heq, hinside⟩
    cases heq
    rw [hresolve] at hinside
    rcases foldl_enter_of_checkLevel base [] rfl hproper hlevel with
      hstays | hleaves
    · exact Or.inr hstays
    · left
      rw [List.append_nil] at hleaves
      rw [hleaves] at hinside
      have hlength := hinside.length_le
      rw [List.length_dropLast] at hlength
      exact List.eq_nil_of_length_eq_zero (by omega)
  · rintro (hroot | hstays)
    · exact ⟨hostPath, rfl, by rw [hroot]; exact List.nil_prefix⟩
    · refine ⟨hostPath, rfl, ?_⟩
      have hprefix := foldl_enter_of_staysBelow base [] rfl hstays
      rw [List.append_nil] at hprefix
      rw [hresolve]
      exact hprefix

/-- `"/a/../b"` under `"/m"`. -/
theorem pathContained_iff_plain :
    IsMountPoint [0x2F, 0x6D] ∧
      (PathContained (fun _ => []) [] [0x2F, 0x6D]
          { type := .char, string := [0x2F, 0x61, 0x2F, 0x2E, 0x2E, 0x2F, 0x62] } ↔
        NulSafe (fun _ => []) [] [0x2F, 0x6D]
          { type := .char, string := [0x2F, 0x61, 0x2F, 0x2E, 0x2E, 0x2F, 0x62] }) := by
  have hmount : IsMountPoint [0x2F, 0x6D] := by
    unfold IsMountPoint
    decide
  exact ⟨hmount, pathContained_iff _ _ _ _ hmount⟩

/-- `".."` and a NUL: the parser takes the component for a name, the host goes to the parent of the
mount point. -/
theorem pathContained_nul :
    ¬ PathContained (fun _ => []) [] [0x2F, 0x6D]
      { type := .char, string := [0x2F, 0x2E, 0x2E, 0x00] } := by
  intro hcontained
  obtain ⟨hostPath, hbuild, hinside⟩ := hcontained (by decide)
  have hhost : hostPath = [0x2F, 0x6D, 0x2F, 0x2E, 0x2E, 0x00] := by
    have hjoin : (ofPath (fun _ => [])
        { type := .char, string := [0x2F, 0x2E, 0x2E, 0x00] }).buildHostPath [0x2F, 0x6D] =
          .ok [0x2F, 0x6D, 0x2F, 0x2E, 0x2E, 0x00] := by
      decide
    exact Except.ok.inj (hbuild.symm.trans hjoin)
  subst hhost
  have hlength := hinside.length_le
  exact absurd hlength (by decide)

end Containment

end Borked3DS.Analysis
