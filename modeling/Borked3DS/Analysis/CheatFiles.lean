import Borked3DS.Interface.CheatFiles

/-!
# Cheats and their files

Every cheat that is read from a file survives being written and read again, and a list of such cheats
comes back as it was: the reader's loop is in step with the writer because each name it meets ends a
cheat that has a line of code.
-/

set_option autoImplicit false

namespace Borked3DS.Analysis

open Borked3DS.Model.Cheats Borked3DS.Model.Cheats.GatewayCheat Borked3DS.Interface
open Borked3DS.Model.PathParser (splitString splitLoop splitLoop_piece)

section Lines

variable {line : List UInt8} {lines : List (List UInt8)}

theorem stripSpaces_subset (line : List UInt8) : stripSpaces line ⊆ line :=
  fun _ hc => (List.dropWhile_suffix _).subset ((List.rdropWhile_prefix _ _).subset hc)

/-- A text whose ends are not spaces is not stripped. -/
theorem stripSpaces_eq_self (hhead : ∀ c, line.head? = some c → isSpace c = false)
    (hlast : ∀ h : line ≠ [], isSpace (line.getLast h) = false) : stripSpaces line = line := by
  have hdrop : line.dropWhile isSpace = line := by
    cases line with
    | nil => rfl
    | cons c rest => exact List.dropWhile_cons_of_neg (by simp [hhead c rfl])
  rw [stripSpaces, hdrop]
  apply List.rdropWhile_eq_self_iff.mpr
  intro hne
  simp [hlast hne]

/-- Stripping twice is stripping once. -/
theorem stripSpaces_stripSpaces (line : List UInt8) :
    stripSpaces (stripSpaces line) = stripSpaces line := by
  apply stripSpaces_eq_self
  · intro c hc
    -- The head of what is stripped is the head of what `dropWhile` leaves.
    have hprefix := List.rdropWhile_prefix isSpace (line.dropWhile isSpace)
    obtain ⟨rest, hrest⟩ := hprefix
    cases hstrip : (line.dropWhile isSpace).rdropWhile isSpace with
    | nil =>
        rw [stripSpaces, hstrip] at hc
        cases hc
    | cons d tail =>
        rw [stripSpaces, hstrip] at hc
        cases hc
        rw [hstrip] at hrest
        have hhead := List.head?_dropWhile_not isSpace line
        rw [← hrest] at hhead
        simpa using hhead
  · intro hne
    exact Bool.eq_false_iff.mpr
      (List.rdropWhile_last_not isSpace (line.dropWhile isSpace) hne)

theorem cleanLine_subset (line : List UInt8) : cleanLine line ⊆ line :=
  fun _ hc => (List.mem_filter.mp (stripSpaces_subset _ hc)).1

theorem nul_not_mem_cleanLine (line : List UInt8) : 0 ∉ cleanLine line := by
  intro hmem
  have hfilter := (List.mem_filter.mp (stripSpaces_subset _ hmem)).2
  simp at hfilter

theorem cleanLine_of_not_mem (h : 0 ∉ line) : cleanLine line = stripSpaces line := by
  have hfilter : line.filter (fun c => c != 0) = line := by
    apply List.filter_eq_self.mpr
    rintro c hc
    exact bne_iff_ne.mpr fun heq => h (heq ▸ hc)
  rw [cleanLine, hfilter]

theorem keptLine_cleanLine (h : newline ∉ line) : KeptLine (cleanLine line) := by
  refine ⟨fun hmem => h (cleanLine_subset line hmem), ?_⟩
  rw [cleanLine_of_not_mem (nul_not_mem_cleanLine line)]
  exact stripSpaces_stripSpaces _

/-- Lines that end with newlines are split at them, and an empty one is left. -/
theorem splitOn_lines (h : ∀ line ∈ lines, newline ∉ line) :
    (lines.flatMap fun line => line ++ [newline]).splitOn newline = lines ++ [[]] := by
  induction lines with
  | nil => rfl
  | cons line lines ih =>
      rw [List.flatMap_cons, List.append_assoc, List.singleton_append,
        List.splitOn_append_cons_self_of_not_mem (h line List.mem_cons_self),
        ih fun other hmem => h other (List.mem_cons_of_mem _ hmem)]
      rfl

/-- `SplitString` gives lines that end with newlines back. -/
theorem splitString_lines (h : ∀ line ∈ lines, newline ∉ line) :
    splitString (lines.flatMap fun line => line ++ [newline]) newline = lines := by
  unfold splitString
  induction lines with
  | nil => rfl
  | cons line lines ih =>
      rw [List.flatMap_cons, List.append_assoc, List.singleton_append,
        splitLoop_piece (h line List.mem_cons_self),
        ih fun other hmem => h other (List.mem_cons_of_mem _ hmem), List.nil_append]

end Lines

section Reading

/-- What the reader has read so far survives. -/
structure SurvivesSoFar (s : LoadState) : Prop where
  cheats : ∀ cheat ∈ s.cheats, SurvivesFile cheat
  name : newline ∉ s.name ∧ 0 ∉ s.name
  comments : ∃ lines : List (List UInt8),
    s.comments = (lines.flatMap fun line => line ++ [newline]) ∧
      ∀ line ∈ lines, KeptLine (star :: line) ∧ star :: line ≠ enabledText
  cheatLines : ∀ line ∈ s.cheatLines, KeptLine line ∧ line ≠ [] ∧ isHeader line = false ∧
    isComment line = false

theorem SurvivesSoFar.flushed {s : LoadState} (h : SurvivesSoFar s) :
    ∀ cheat ∈ s.flushed, SurvivesFile cheat := by
  intro cheat hmem
  unfold LoadState.flushed at hmem
  split at hmem
  · exact h.cheats cheat hmem
  · rename_i hcode
    rcases List.mem_append.mp hmem with hmem | hmem
    · exact h.cheats cheat hmem
    · rw [List.mem_singleton] at hmem
      subst hmem
      exact ⟨h.name, h.comments, fun hnil => hcode (List.isEmpty_iff.mpr hnil), h.cheatLines⟩

/-- One line keeps it so. -/
theorem loadLine_survives {s : LoadState} {line : List UInt8} (h : SurvivesSoFar s)
    (hline : newline ∉ line) : SurvivesSoFar (loadLine s line) := by
  have hkept := keptLine_cleanLine hline
  have hnul := nul_not_mem_cleanLine line
  unfold loadLine
  dsimp only
  split
  · have hname : ((cleanLine line).drop 1).take ((cleanLine line).length - 2) ⊆ cleanLine line :=
      fun c hc => List.mem_of_mem_drop (List.mem_of_mem_take hc)
    refine ⟨h.flushed, ⟨fun hmem => hkept.1 (hname hmem), fun hmem => hnul (hname hmem)⟩,
      ⟨[], rfl, ?_⟩, ?_⟩
    · intro other hmem
      cases hmem
    · intro other hmem
      cases hmem
  · rename_i hheader
    split
    · rename_i hcomment
      split
      · exact ⟨h.cheats, h.name, h.comments, h.cheatLines⟩
      · rename_i henabled
        refine ⟨h.cheats, h.name, ?_, h.cheatLines⟩
        obtain ⟨lines, hlines, hall⟩ := h.comments
        have hcons : star :: (cleanLine line).drop 1 = cleanLine line := by
          cases hclean : cleanLine line with
          | nil =>
              rw [hclean] at hcomment
              cases hcomment
          | cons c rest =>
              rw [hclean] at hcomment
              have hc : c = star := by simpa [isComment] using hcomment
              rw [hc]
              rfl
        refine ⟨lines ++ [(cleanLine line).drop 1], ?_, ?_⟩
        · rw [List.flatMap_append, ← hlines, List.flatMap_singleton]
        · intro other hmem
          rcases List.mem_append.mp hmem with hmem | hmem
          · exact hall other hmem
          · rw [List.mem_singleton] at hmem
            rw [hmem, hcons]
            exact ⟨hkept, henabled⟩
    · rename_i hcomment
      split
      · rename_i hempty
        refine ⟨h.cheats, h.name, h.comments, ?_⟩
        intro other hmem
        rcases List.mem_append.mp hmem with hmem | hmem
        · exact h.cheatLines other hmem
        · rw [List.mem_singleton] at hmem
          rw [hmem]
          refine ⟨hkept, ?_, Bool.eq_false_iff.mpr hheader, Bool.eq_false_iff.mpr hcomment⟩
          intro hnil
          rw [hnil] at hempty
          cases hempty
      · exact h

theorem foldl_loadLine_survives {lines : List (List UInt8)} {s : LoadState}
    (h : SurvivesSoFar s) (hlines : ∀ line ∈ lines, newline ∉ line) :
    SurvivesSoFar (lines.foldl loadLine s) := by
  induction lines generalizing s with
  | nil => exact h
  | cons line lines ih =>
      apply ih
      · exact loadLine_survives h (hlines line List.mem_cons_self)
      · exact fun other hmem => hlines other (List.mem_cons_of_mem _ hmem)

theorem newline_not_mem_splitOn {file line : List UInt8} (h : line ∈ file.splitOn newline) :
    newline ∉ line := by
  induction file generalizing line with
  | nil =>
      rw [List.splitOn_nil, List.mem_singleton] at h
      rw [h]
      exact List.not_mem_nil
  | cons c file ih =>
      rw [List.splitOn_cons_eq_if_modifyHead] at h
      split at h
      · rcases List.mem_cons.mp h with rfl | hmem
        · exact List.not_mem_nil
        · exact ih hmem
      · rename_i hc
        cases hsplit : file.splitOn newline with
        | nil => exact absurd hsplit (List.splitOn_ne_nil _ _)
        | cons first others =>
            rw [hsplit] at h ih
            rcases List.mem_cons.mp h with rfl | hmem
            · intro hnew
              rcases List.mem_cons.mp hnew with heq | hnew
              · exact hc (beq_iff_eq.mpr heq.symm)
              · exact ih List.mem_cons_self hnew
            · exact ih (List.mem_cons_of_mem _ hmem)

/-- Whatever is read from a file survives. -/
theorem loadFile_survives (file : List UInt8) : ∀ cheat ∈ loadFile file, SurvivesFile cheat := by
  apply SurvivesSoFar.flushed
  apply foldl_loadLine_survives
  · refine ⟨?_, ⟨List.not_mem_nil, List.not_mem_nil⟩, ⟨[], rfl, ?_⟩, ?_⟩ <;>
      · intro _ hmem
        cases hmem
  · exact fun line hmem => newline_not_mem_splitOn hmem

end Reading

section Writing

variable {s : LoadState} {line name : List UInt8} {lines : List (List UInt8)}

/-- The line with the name of a cheat ends the cheat before. -/
theorem loadLine_header (s : LoadState) (h : 0 ∉ name) :
    loadLine s (openingBracket :: name ++ [closingBracket]) =
      { cheats := s.flushed
        enabled := if s.cheatLines.isEmpty then s.enabled else false
        name } := by
  have hclean : cleanLine (openingBracket :: name ++ [closingBracket]) =
      openingBracket :: name ++ [closingBracket] := by
    rw [cleanLine_of_not_mem]
    · apply stripSpaces_eq_self
      · rintro c hc
        cases hc
        decide
      · intro hne
        rw [List.getLast_append_singleton]
        decide
    · intro hmem
      rcases List.mem_append.mp hmem with hmem | hmem
      · rcases List.mem_cons.mp hmem with heq | hmem
        · exact absurd heq (by decide)
        · exact h hmem
      · exact absurd (List.mem_singleton.mp hmem) (by decide)
  have hheader : isHeader (openingBracket :: name ++ [closingBracket]) = true := by
    simp [isHeader]
  have hname : ((openingBracket :: name ++ [closingBracket]).drop 1).take
      ((openingBracket :: name ++ [closingBracket]).length - 2) = name := by
    simp
  unfold loadLine
  dsimp only
  rw [hclean, if_pos hheader, hname]

theorem isHeader_star (line : List UInt8) : isHeader (star :: line) = false := by
  rw [isHeader, List.head?_cons, show (some star == some openingBracket) = false from rfl,
    Bool.and_false]

theorem loadLine_enabled (s : LoadState) : loadLine s enabledText = { s with enabled := true } := by
  have hclean : cleanLine enabledText = enabledText := by decide
  unfold loadLine
  dsimp only
  rw [hclean, if_neg (by decide), if_pos (by decide), if_pos rfl]

theorem loadLine_comment (s : LoadState) (h : KeptLine (star :: line))
    (hne : star :: line ≠ enabledText) :
    loadLine s (star :: line) = { s with comments := s.comments ++ (line ++ [newline]) } := by
  unfold loadLine
  dsimp only
  have hcomment : isComment (star :: line) = true := by simp [isComment]
  rw [h.2, if_neg (by rw [isHeader_star]; exact Bool.false_ne_true), if_pos hcomment, if_neg hne]
  rfl

theorem loadLine_code (s : LoadState) (h : KeptLine line) (hne : line ≠ [])
    (hheader : isHeader line = false) (hcomment : isComment line = false) :
    loadLine s line = { s with cheatLines := s.cheatLines ++ [line] } := by
  have hempty : (!line.isEmpty) = true := by
    simpa using hne
  unfold loadLine
  dsimp only
  rw [h.2, if_neg (by rw [hheader]; exact Bool.false_ne_true),
    if_neg (by rw [hcomment]; exact Bool.false_ne_true), if_pos hempty]

theorem loadLine_nil (s : LoadState) : loadLine s [] = s := rfl

theorem foldl_comments (h : ∀ line ∈ lines, KeptLine (star :: line) ∧ star :: line ≠ enabledText)
    (s : LoadState) :
    (lines.map fun line => star :: line).foldl loadLine s =
      { s with comments := s.comments ++ lines.flatMap fun line => line ++ [newline] } := by
  induction lines generalizing s with
  | nil => simp
  | cons line lines ih =>
      obtain ⟨hkept, hne⟩ := h line List.mem_cons_self
      rw [List.map_cons, List.foldl_cons, loadLine_comment s hkept hne,
        ih fun other hmem => h other (List.mem_cons_of_mem _ hmem)]
      simp

theorem foldl_code (h : ∀ line ∈ lines, KeptLine line ∧ line ≠ [] ∧ isHeader line = false ∧
    isComment line = false) (s : LoadState) :
    lines.foldl loadLine s = { s with cheatLines := s.cheatLines ++ lines } := by
  induction lines generalizing s with
  | nil => simp
  | cons line lines ih =>
      obtain ⟨hkept, hne, hheader, hcomment⟩ := h line List.mem_cons_self
      rw [List.foldl_cons, loadLine_code s hkept hne hheader hcomment,
        ih fun other hmem => h other (List.mem_cons_of_mem _ hmem)]
      simp

/-- The lines that a cheat is written as. -/
def cheatFileLines (cheat : GatewayCheat) : List (List UInt8) :=
  (openingBracket :: cheat.name ++ [closingBracket]) ::
    ((if cheat.enabled then [enabledText] else []) ++
      ((splitString cheat.comments newline).map fun line => star :: line) ++
      cheat.cheatLines ++ [[]])

theorem toString_eq (cheat : GatewayCheat) :
    cheat.toString = (cheatFileLines cheat).flatMap fun line => line ++ [newline] := by
  unfold GatewayCheat.toString cheatFileLines GatewayCheat.getCode
  cases cheat.enabled <;> simp [List.flatMap_append, List.flatMap_map]

theorem newline_not_mem_cheatFileLines {cheat : GatewayCheat} (h : SurvivesFile cheat) :
    ∀ line ∈ cheatFileLines cheat, newline ∉ line := by
  obtain ⟨lines, hlines, hall⟩ := h.comments
  have hnew : ∀ line ∈ lines, newline ∉ line := fun line hmem hc =>
    (hall line hmem).1.1 (List.mem_cons_of_mem _ hc)
  intro line hmem
  rw [cheatFileLines, hlines, splitString_lines hnew] at hmem
  rcases List.mem_cons.mp hmem with rfl | hmem
  · intro hc
    rcases List.mem_append.mp hc with hc | hc
    · rcases List.mem_cons.mp hc with heq | hc
      · exact absurd heq (by decide)
      · exact h.name.1 hc
    · exact absurd (List.mem_singleton.mp hc) (by decide)
  · rcases List.mem_append.mp hmem with hmem | hmem
    · rcases List.mem_append.mp hmem with hmem | hmem
      · rcases List.mem_append.mp hmem with hmem | hmem
        · split at hmem
          · rw [List.mem_singleton] at hmem
            rw [hmem]
            decide
          · cases hmem
        · obtain ⟨comment, hcomment, rfl⟩ := List.mem_map.mp hmem
          exact (hall comment hcomment).1.1
      · exact (h.cheatLines line hmem).1.1
    · rw [List.mem_singleton.mp hmem]
      exact List.not_mem_nil

/-- Reading the lines of a cheat. The mark of the cheat before is gone when it had a line of code,
or was not set. -/
theorem foldl_cheat {cheat : GatewayCheat} (h : SurvivesFile cheat)
    (hs : s.cheatLines = [] → s.enabled = false) :
    (cheatFileLines cheat).foldl loadLine s =
      { cheats := s.flushed
        comments := cheat.comments
        cheatLines := cheat.cheatLines
        name := cheat.name
        enabled := cheat.enabled } := by
  obtain ⟨lines, hlines, hall⟩ := h.comments
  have hnew : ∀ line ∈ lines, newline ∉ line := fun line hmem hc =>
    (hall line hmem).1.1 (List.mem_cons_of_mem _ hc)
  have hreset : (if s.cheatLines.isEmpty then s.enabled else false) = false := by
    split
    · rename_i hempty
      exact hs (List.isEmpty_iff.mp hempty)
    · rfl
  rw [cheatFileLines, List.foldl_cons, loadLine_header s h.name.2, hreset, List.foldl_append,
    List.foldl_append, List.foldl_append, hlines, splitString_lines hnew]
  have henabled : ∀ t : LoadState, t.enabled = false →
      (if cheat.enabled then [enabledText] else []).foldl loadLine t =
        { t with enabled := cheat.enabled } := by
    intro t ht
    cases hcheat : cheat.enabled with
    | true => exact loadLine_enabled t
    | false =>
        show t = { t with enabled := false }
        rw [← ht]
  rw [henabled _ rfl, foldl_comments hall, foldl_code h.cheatLines]
  rfl

/-- Reading some cheats, one after the other. -/
theorem foldl_cheats {cheats : List GatewayCheat} (h : ∀ cheat ∈ cheats, SurvivesFile cheat)
    (hs : s.cheatLines = [] → s.enabled = false) :
    ((cheats.flatMap cheatFileLines).foldl loadLine s).flushed = s.flushed ++ cheats := by
  induction cheats generalizing s with
  | nil =>
      rw [List.flatMap_nil, List.foldl_nil, List.append_nil]
  | cons cheat cheats ih =>
      have hcheat := h cheat List.mem_cons_self
      have hcode : cheat.cheatLines.isEmpty = false := by
        simpa using hcheat.code
      rw [List.flatMap_cons, List.foldl_append, foldl_cheat hcheat hs,
        ih (fun other hmem => h other (List.mem_cons_of_mem _ hmem))
          fun hnil => absurd hnil hcheat.code]
      simp [LoadState.flushed, hcode]

theorem loadFile_toString {cheats : List GatewayCheat}
    (h : ∀ cheat ∈ cheats, SurvivesFile cheat) :
    loadFile (cheats.flatMap GatewayCheat.toString) = cheats := by
  have htext : cheats.flatMap GatewayCheat.toString =
      (cheats.flatMap cheatFileLines).flatMap fun line => line ++ [newline] := by
    rw [List.flatMap_assoc]
    exact List.flatMap_congr fun cheat _ => toString_eq cheat
  have hnew : ∀ line ∈ cheats.flatMap cheatFileLines, newline ∉ line := by
    intro line hmem
    obtain ⟨cheat, hcheat, hline⟩ := List.mem_flatMap.mp hmem
    exact newline_not_mem_cheatFileLines (h cheat hcheat) line hline
  rw [loadFile, htext, splitOn_lines hnew, List.foldl_append, List.foldl_cons, List.foldl_nil,
    loadLine_nil, foldl_cheats h fun _ => rfl]
  rfl

end Writing

section RoundTrip

/-- A list of cheats comes back from its file exactly if each of them survives. -/
theorem roundTripsCheats_iff (cheats : List GatewayCheat) :
    RoundTripsCheats cheats ↔ ∀ cheat ∈ cheats, SurvivesFile cheat := by
  have hload : ∀ (titleId : UInt64) (files : CheatFiles),
      (({} : CheatEngine).loadCheatFile titleId
        (({ cheatsList := cheats } : CheatEngine).saveCheatFile titleId files)).cheatsList =
      loadFile (cheats.flatMap GatewayCheat.toString) := by
    intro titleId files
    unfold CheatEngine.loadCheatFile CheatEngine.saveCheatFile
    rw [if_neg (fun h => nomatch h), Function.update_self]
  constructor
  · intro h
    have hself := h 0 fun _ => none
    rw [hload] at hself
    rw [← hself]
    exact loadFile_survives _
  · intro h titleId files
    rw [hload, loadFile_toString h]

/-- An enabled cheat without a line of code and a disabled one with a line. -/
def emptyThenPlain : List GatewayCheat :=
  [{ name := ascii "a", cheatLines := [], comments := [], enabled := true },
    { name := ascii "b", cheatLines := [ascii "00000000 00000000"], comments := [] }]

/-- The first of the cheats is gone, and the second one is enabled. -/
theorem roundTripsCheats_emptyThenPlain :
    ¬ ∀ cheats : List GatewayCheat, (∀ cheat ∈ cheats, PlainCheat cheat) →
      RoundTripsCheats cheats := by
  intro h
  have hplain : ∀ cheat ∈ emptyThenPlain, PlainCheat cheat := by
    unfold PlainCheat
    decide
  have hself := h emptyThenPlain hplain 0 fun _ => none
  have hleak : (({} : CheatEngine).loadCheatFile 0
      (({ cheatsList := emptyThenPlain } : CheatEngine).saveCheatFile 0 fun _ => none)).cheatsList =
      [{ name := ascii "b", cheatLines := [ascii "00000000 00000000"], comments := [],
         enabled := true }] := by
    decide
  rw [hleak] at hself
  exact absurd hself (by decide)

end RoundTrip

end Borked3DS.Analysis
