import Borked3DS.Library.Run
import Borked3DS.Interface.RomFSTree

/-!
# The walk over the entries of a RomFS

The loops and the recursion of the loaders are a depth-first walk over the entries, with the entries
that are still to be loaded as its stack.
-/

set_option autoImplicit false

namespace Borked3DS.Analysis

open Borked3DS.Library Borked3DS.Model Borked3DS.Model.LayeredFS Borked3DS.Interface

variable {text : TextConversion} {romfs : List UInt8} {header : RomFSHeader}

/-! ## Entries -/

section Entries

theorem leadsTo_directory {offset : ℕ} {metadata : DirectoryMetadata}
    (h : readDirectory text romfs header offset = .ok metadata) :
    leadsTo text romfs header (.directory offset) =
      some (contents metadata ++ directoryAt metadata.nextSiblingOffset) := by
  simp [leadsTo, h, Except.toOption]

theorem leadsTo_file {offset next : ℕ} {file : File}
    (h : loadFile text romfs header offset = .ok (file, next)) :
    leadsTo text romfs header (.file offset) = some (fileAt next) := by
  simp [leadsTo, h, Except.toOption]

theorem number_lt (bytes : List UInt8) (offset width : ℕ) :
    number bytes offset width < 256 ^ width := by
  refine (ofLittleEndian_lt _).trans_le (Nat.pow_le_pow_right (by decide) ?_)
  rw [List.length_take]
  exact Nat.min_le_left _ _

/-- The offset of an entry fits into 32 bits. -/
def OffsetFits : RomFSEntry → Prop
  | .directory offset => offset < 2 ^ 32
  | .file offset => offset < 2 ^ 32

theorem small_fileAt {offset : ℕ} (h : offset < 2 ^ 32) : ∀ e ∈ fileAt offset, OffsetFits e := by
  intro e he
  unfold fileAt at he
  split at he
  next => cases he
  next =>
    rw [List.mem_singleton.mp he]
    exact h

theorem small_directoryAt {offset : ℕ} (h : offset < 2 ^ 32) :
    ∀ e ∈ directoryAt offset, OffsetFits e := by
  intro e he
  unfold directoryAt at he
  split at he
  next => cases he
  next =>
    rw [List.mem_singleton.mp he]
    exact h

theorem readDirectory_cases {offset : ℕ} {metadata : DirectoryMetadata}
    (h : readDirectory text romfs header offset = .ok metadata) :
    ∃ bytes, metadata = DirectoryMetadata.ofBytes bytes := by
  obtain ⟨metadata', hread, hrest⟩ := bind_eq_ok.mp h
  obtain ⟨name, -, hpure⟩ := bind_eq_ok.mp hrest
  cases hpure
  obtain ⟨bytes, -, hpure⟩ := bind_eq_ok.mp hread
  cases hpure
  exact ⟨bytes, rfl⟩

theorem loadFile_next_lt {offset next : ℕ} {file : File}
    (h : loadFile text romfs header offset = .ok (file, next)) : next < 2 ^ 32 := by
  obtain ⟨metadata, hread, hrest⟩ := bind_eq_ok.mp h
  obtain ⟨name, -, hpure⟩ := bind_eq_ok.mp hrest
  cases hpure
  obtain ⟨bytes, -, hpure⟩ := bind_eq_ok.mp hread
  cases hpure
  exact number_lt _ _ _

theorem small_contents {offset : ℕ} {metadata : DirectoryMetadata}
    (h : readDirectory text romfs header offset = .ok metadata) :
    (∀ e ∈ contents metadata, OffsetFits e) ∧
      ∀ e ∈ directoryAt metadata.nextSiblingOffset, OffsetFits e := by
  obtain ⟨bytes, rfl⟩ := readDirectory_cases h
  refine ⟨fun e he => ?_, small_directoryAt (number_lt _ _ _)⟩
  rcases List.mem_append.mp he with he | he
  · exact small_fileAt (number_lt _ _ _) e he
  · exact small_directoryAt (number_lt _ _ _) e he

theorem small_leadsTo {e : RomFSEntry} :
    ∀ e' ∈ nexts (leadsTo text romfs header) e, OffsetFits e' := by
  intro e' he'
  cases e with
  | directory offset =>
      cases hread : readDirectory text romfs header offset with
      | error err => simp [nexts, leadsTo, hread, Except.toOption] at he'
      | ok metadata =>
          rw [nexts, leadsTo_directory hread] at he'
          rcases List.mem_append.mp he' with he' | he'
          · exact (small_contents hread).1 e' he'
          · exact (small_contents hread).2 e' he'
  | file offset =>
      cases hload : loadFile text romfs header offset with
      | error err => simp [nexts, leadsTo, hload, Except.toOption] at he'
      | ok loaded =>
          rw [nexts, leadsTo_file hload] at he'
          exact small_fileAt (loadFile_next_lt hload) e' he'

theorem finite_small : {e : RomFSEntry | OffsetFits e}.Finite := by
  refine ((Set.finite_lt_nat (2 ^ 32)).image RomFSEntry.directory |>.union
    ((Set.finite_lt_nat (2 ^ 32)).image RomFSEntry.file)).subset fun e he => ?_
  cases e with
  | directory offset => exact Or.inl ⟨offset, he, rfl⟩
  | file offset => exact Or.inr ⟨offset, he, rfl⟩

/-- There are finitely many entries below the root. -/
theorem finite_reached {metadata : DirectoryMetadata}
    (h : readDirectory text romfs header 0 = .ok metadata) :
    {e | Reached (leadsTo text romfs header) (contents metadata) e}.Finite := by
  refine finite_small.subset fun e he => ?_
  cases he with
  | start he => exact (small_contents h).1 e he
  | step _ he => exact small_leadsTo e he

end Entries

/-! ## The loaders walk -/

section Walks

variable {fuel offset : ℕ} {stack entries rest visited : List RomFSEntry}

theorem fileAt_of_ne (h : offset ≠ noOffset) : fileAt offset = [.file offset] := if_neg h

theorem directoryAt_of_ne (h : offset ≠ noOffset) : directoryAt offset = [.directory offset] :=
  if_neg h

theorem fileAt_noOffset : fileAt noOffset = [] := rfl

theorem directoryAt_noOffset : directoryAt noOffset = [] := rfl

/-- A turn of the walk at a file. -/
theorem walk_file {next : ℕ} {file : File}
    (h : loadFile text romfs header offset = .ok (file, next))
    (hrest : walk (leadsTo text romfs header) fuel (fileAt next ++ stack) = some visited) :
    walk (leadsTo text romfs header) (fuel + 1) (.file offset :: stack) =
      some (.file offset :: visited) := by
  simp [walk, leadsTo_file h, hrest]

/-- A turn of the walk at a directory. -/
theorem walk_directory {metadata : DirectoryMetadata}
    (h : readDirectory text romfs header offset = .ok metadata)
    (hrest : walk (leadsTo text romfs header) fuel
      (contents metadata ++ (directoryAt metadata.nextSiblingOffset ++ stack)) = some visited) :
    walk (leadsTo text romfs header) (fuel + 1) (.directory offset :: stack) =
      some (.directory offset :: visited) := by
  simp [walk, leadsTo_directory h, hrest]

/-- The files that are visited are walked over. -/
theorem walk_visitFiles (h : visitFiles text romfs header fuel offset = .ok entries)
    {turns : ℕ} (hrest : walk (leadsTo text romfs header) turns stack = some rest) :
    ∃ turns', walk (leadsTo text romfs header) turns' (fileAt offset ++ stack) =
      some (entries ++ rest) := by
  induction fuel generalizing offset entries with
  | zero => cases h
  | succ fuel ih =>
      unfold visitFiles at h
      by_cases hend : offset = noOffset
      · rw [if_pos hend] at h
        cases h
        exact ⟨turns, by rw [hend, fileAt_noOffset]; exact hrest⟩
      · rw [if_neg hend] at h
        obtain ⟨⟨file, next⟩, hload, h⟩ := bind_eq_ok.mp h
        obtain ⟨others, hothers, hpure⟩ := bind_eq_ok.mp h
        cases hpure
        obtain ⟨turns', hwalk⟩ := ih hothers
        exact ⟨turns' + 1, by rw [fileAt_of_ne hend]; exact walk_file hload hwalk⟩

/-- The entries of a directory are walked over, and those of its siblings behind them. -/
theorem walk_visitDirectory_and (fuel : ℕ) :
    (∀ offset entries next, visitDirectory text romfs header fuel offset = .ok (entries, next) →
      ∃ metadata below, readDirectory text romfs header offset = .ok metadata ∧
        next = metadata.nextSiblingOffset ∧ entries = .directory offset :: below ∧
        ∀ turns stack rest, walk (leadsTo text romfs header) turns stack = some rest →
          ∃ turns', walk (leadsTo text romfs header) turns' (contents metadata ++ stack) =
            some (below ++ rest)) ∧
    ∀ offset entries, visitDirectories text romfs header fuel offset = .ok entries →
      ∀ turns stack rest, walk (leadsTo text romfs header) turns stack = some rest →
        ∃ turns', walk (leadsTo text romfs header) turns' (directoryAt offset ++ stack) =
          some (entries ++ rest) := by
  induction fuel with
  | zero =>
      refine ⟨fun _ _ _ h => ?_, fun _ _ h => ?_⟩
      all_goals cases h
  | succ fuel ih =>
      obtain ⟨ihDirectory, ihDirectories⟩ := ih
      refine ⟨fun offset entries next h => ?_, fun offset entries h turns stack rest hrest => ?_⟩
      · obtain ⟨metadata, hread, h⟩ := bind_eq_ok.mp h
        obtain ⟨files, hfiles, h⟩ := bind_eq_ok.mp h
        obtain ⟨directories, hdirectories, hpure⟩ := bind_eq_ok.mp h
        cases hpure
        refine ⟨metadata, files ++ directories, hread, rfl, rfl, fun turns stack rest hrest => ?_⟩
        obtain ⟨turns₁, hwalk₁⟩ := ihDirectories _ _ hdirectories _ _ _ hrest
        obtain ⟨turns₂, hwalk₂⟩ := walk_visitFiles hfiles hwalk₁
        exact ⟨turns₂, by rw [contents, List.append_assoc, List.append_assoc]; exact hwalk₂⟩
      · unfold visitDirectories at h
        by_cases hend : offset = noOffset
        · rw [if_pos hend] at h
          cases h
          exact ⟨turns, by rw [hend, directoryAt_noOffset]; exact hrest⟩
        · rw [if_neg hend] at h
          obtain ⟨⟨own, next⟩, hown, h⟩ := bind_eq_ok.mp h
          obtain ⟨others, hothers, hpure⟩ := bind_eq_ok.mp h
          cases hpure
          obtain ⟨metadata, below, hread, rfl, rfl, hbelow⟩ := ihDirectory _ _ _ hown
          obtain ⟨turns₁, hwalk₁⟩ := ihDirectories _ _ hothers _ _ _ hrest
          obtain ⟨turns₂, hwalk₂⟩ := hbelow _ _ _ hwalk₁
          refine ⟨turns₂ + 1, ?_⟩
          rw [directoryAt_of_ne hend, List.append_assoc]
          exact walk_directory hread hwalk₂

/-- What is walked over behind a file is visited by the loop over the files, and the rest is walked
over behind it. -/
theorem visitFiles_of_walk {turns : ℕ}
    (h : walk (leadsTo text romfs header) turns (fileAt offset ++ stack) = some visited) :
    ∃ entries rest turns', turns' ≤ turns ∧ visited = entries ++ rest ∧
      walk (leadsTo text romfs header) turns' stack = some rest ∧
      ∀ fuel, turns ≤ fuel → visitFiles text romfs header fuel offset = .ok entries := by
  induction turns generalizing offset visited with
  | zero => cases h
  | succ turns ih =>
      by_cases hend : offset = noOffset
      · rw [hend, fileAt_noOffset, List.nil_append] at h
        refine ⟨[], visited, turns + 1, le_rfl, rfl, h, fun fuel hfuel => ?_⟩
        obtain ⟨fuel, rfl⟩ : ∃ n, fuel = n + 1 := ⟨fuel - 1, by omega⟩
        exact if_pos hend
      · rw [fileAt_of_ne hend, List.singleton_append] at h
        obtain ⟨found, behind, hfound, hbehind, rfl⟩ := walk_cons h
        cases hload : loadFile text romfs header offset with
        | error err => simp [leadsTo, hload, Except.toOption] at hfound
        | ok loaded =>
            rw [leadsTo_file hload] at hfound
            cases hfound
            obtain ⟨entries, rest, turns', hle, rfl, hrest, hvisit⟩ := ih hbehind
            refine ⟨.file offset :: entries, rest, turns', by omega, rfl, hrest, ?_⟩
            intro fuel hfuel
            obtain ⟨fuel, rfl⟩ : ∃ n, fuel = n + 1 := ⟨fuel - 1, by omega⟩
            rw [visitFiles, if_neg hend, hload, ok_bind]
            show (visitFiles text romfs header fuel loaded.2 >>= fun entries =>
              pure (RomFSEntry.file offset :: entries)) = _
            rw [hvisit fuel (by omega), ok_bind]
            rfl

/-- What is walked over below a directory is visited with it. -/
theorem visitDirectory_of_walk {metadata : DirectoryMetadata} {turns : ℕ}
    (hread : readDirectory text romfs header offset = .ok metadata)
    (hdirectories : ∀ turns' ≤ turns, ∀ visited,
      walk (leadsTo text romfs header) turns'
        (directoryAt metadata.firstChildDirectoryOffset ++ stack) = some visited →
      ∃ entries rest turns'', turns'' ≤ turns' ∧ visited = entries ++ rest ∧
        walk (leadsTo text romfs header) turns'' stack = some rest ∧
        ∀ fuel, 2 * turns' ≤ fuel → visitDirectories text romfs header fuel
          metadata.firstChildDirectoryOffset = .ok entries)
    (h : walk (leadsTo text romfs header) turns (contents metadata ++ stack) = some visited) :
    ∃ below rest turns', turns' ≤ turns ∧ visited = below ++ rest ∧
      walk (leadsTo text romfs header) turns' stack = some rest ∧
      ∀ fuel, 2 * turns + 1 ≤ fuel → visitDirectory text romfs header fuel offset =
        .ok (.directory offset :: below, metadata.nextSiblingOffset) := by
  rw [contents, List.append_assoc] at h
  obtain ⟨files, behind, turns₁, hle₁, rfl, hwalk₁, hfiles⟩ := visitFiles_of_walk h
  obtain ⟨directories, rest, turns₂, hle₂, rfl, hwalk₂, hvisit⟩ :=
    hdirectories turns₁ hle₁ _ hwalk₁
  refine ⟨files ++ directories, rest, turns₂, hle₂.trans hle₁, by rw [List.append_assoc], hwalk₂,
    fun fuel hfuel => ?_⟩
  obtain ⟨fuel, rfl⟩ : ∃ n, fuel = n + 1 := ⟨fuel - 1, by omega⟩
  rw [visitDirectory, hread, ok_bind, hfiles fuel (by omega), ok_bind, hvisit fuel (by omega),
    ok_bind]
  rfl

theorem visitDirectories_of_walk {turns : ℕ}
    (h : walk (leadsTo text romfs header) turns (directoryAt offset ++ stack) = some visited) :
    ∃ entries rest turns', turns' ≤ turns ∧ visited = entries ++ rest ∧
      walk (leadsTo text romfs header) turns' stack = some rest ∧
      ∀ fuel, 2 * turns ≤ fuel → visitDirectories text romfs header fuel offset = .ok entries := by
  induction turns using Nat.strong_induction_on generalizing offset stack visited with
  | _ turns ih =>
      cases turns with
      | zero => cases h
      | succ turns =>
          by_cases hend : offset = noOffset
          · rw [hend, directoryAt_noOffset, List.nil_append] at h
            refine ⟨[], visited, turns + 1, le_rfl, rfl, h, fun fuel hfuel => ?_⟩
            obtain ⟨fuel, rfl⟩ : ∃ n, fuel = n + 1 := ⟨fuel - 1, by omega⟩
            rw [visitDirectories, if_pos hend]
            rfl
          · rw [directoryAt_of_ne hend, List.singleton_append] at h
            obtain ⟨found, behind, hfound, hbehind, rfl⟩ := walk_cons h
            cases hread : readDirectory text romfs header offset with
            | error err => simp [leadsTo, hread, Except.toOption] at hfound
            | ok metadata =>
                rw [leadsTo_directory hread] at hfound
                cases hfound
                rw [List.append_assoc] at hbehind
                obtain ⟨below, rest₁, turns₁, hle₁, rfl, hwalk₁, hbelow⟩ :=
                  visitDirectory_of_walk hread
                    (fun turns' hle _ hwalk => ih turns' (by omega) hwalk) hbehind
                obtain ⟨others, rest₂, turns₂, hle₂, rfl, hwalk₂, hothers⟩ :=
                  ih turns₁ (by omega) hwalk₁
                refine ⟨.directory offset :: (below ++ others), rest₂, turns₂, by omega, ?_, hwalk₂,
                  fun fuel hfuel => ?_⟩
                · rw [List.cons_append, List.append_assoc]
                · obtain ⟨fuel, rfl⟩ : ∃ n, fuel = n + 1 := ⟨fuel - 1, by omega⟩
                  rw [visitDirectories, if_neg hend, hbelow fuel (by omega), ok_bind]
                  show (visitDirectories text romfs header fuel metadata.nextSiblingOffset >>=
                    fun others => pure (RomFSEntry.directory offset :: below ++ others)) = _
                  rw [hothers fuel (by omega), ok_bind]
                  rfl

end Walks

/-! ## Loading -/

section Loading

variable {fuel offset : ℕ}

theorem loadFiles_of_visit {entries : List RomFSEntry}
    (h : visitFiles text romfs header fuel offset = .ok entries) :
    ∃ files, loadFiles text romfs header fuel offset = .ok files := by
  induction fuel generalizing offset entries with
  | zero => cases h
  | succ fuel ih =>
      unfold visitFiles at h
      unfold loadFiles
      by_cases hend : offset = noOffset
      · exact ⟨[], if_pos hend⟩
      · rw [if_neg hend] at h ⊢
        obtain ⟨⟨file, next⟩, hload, h⟩ := bind_eq_ok.mp h
        obtain ⟨others, hothers, -⟩ := bind_eq_ok.mp h
        obtain ⟨files, hfiles⟩ := ih hothers
        exact ⟨file :: files, bind_eq_ok.mpr ⟨_, hload, bind_eq_ok.mpr ⟨files, hfiles, rfl⟩⟩⟩

/-- Where the entries are visited, the directories are loaded. -/
theorem load_of_visit (fuel : ℕ) :
    (∀ offset entries next, visitDirectory text romfs header fuel offset = .ok (entries, next) →
      ∃ directory, loadDirectory text romfs header fuel offset = .ok (directory, next)) ∧
    ∀ offset entries, visitDirectories text romfs header fuel offset = .ok entries →
      ∃ directories, loadDirectories text romfs header fuel offset = .ok directories := by
  induction fuel with
  | zero =>
      refine ⟨fun _ _ _ h => ?_, fun _ _ h => ?_⟩
      all_goals cases h
  | succ fuel ih =>
      refine ⟨fun offset entries next h => ?_, fun offset entries h => ?_⟩
      · obtain ⟨metadata, hread, h⟩ := bind_eq_ok.mp h
        obtain ⟨metadata', hmetadata, hread⟩ := bind_eq_ok.mp hread
        obtain ⟨name, hname, hpure⟩ := bind_eq_ok.mp hread
        cases hpure
        obtain ⟨files, hfiles, h⟩ := bind_eq_ok.mp h
        obtain ⟨directories, hdirectories, hpure⟩ := bind_eq_ok.mp h
        cases hpure
        obtain ⟨loadedFiles, hloadedFiles⟩ := loadFiles_of_visit hfiles
        obtain ⟨loaded, hloaded⟩ := ih.2 _ _ hdirectories
        refine ⟨.mk name loadedFiles loaded, bind_eq_ok.mpr ⟨_, hmetadata, bind_eq_ok.mpr
          ⟨_, hname, bind_eq_ok.mpr ⟨_, hloadedFiles, bind_eq_ok.mpr ⟨_, hloaded, rfl⟩⟩⟩⟩⟩
      · unfold visitDirectories at h
        unfold loadDirectories
        by_cases hend : offset = noOffset
        · exact ⟨[], if_pos hend⟩
        · rw [if_neg hend] at h ⊢
          obtain ⟨⟨own, next⟩, hown, h⟩ := bind_eq_ok.mp h
          obtain ⟨others, hothers, -⟩ := bind_eq_ok.mp h
          obtain ⟨directory, hdirectory⟩ := ih.1 _ _ _ hown
          obtain ⟨directories, hdirectories⟩ := ih.2 _ _ hothers
          exact ⟨directory :: directories,
            bind_eq_ok.mpr ⟨_, hdirectory, bind_eq_ok.mpr ⟨_, hdirectories, rfl⟩⟩⟩

/-- A root directory with a file that is its own next sibling. -/
def cyclicTables : List UInt8 :=
  [0, 0, 0, 0, 0xFF, 0xFF, 0xFF, 0xFF, 0xFF, 0xFF, 0xFF, 0xFF, 0, 0, 0, 0] ++
    List.replicate 40 0

/-- The headers of these tables, the directory in front of the file. -/
def cyclicHeader : RomFSHeader where
  headerLength := romFSHeaderSize
  directoryHashTable := ⟨0, 0⟩
  directoryMetadataTable := ⟨0, 0x18⟩
  fileHashTable := ⟨0, 0⟩
  fileMetadataTable := ⟨0x18, 0x20⟩
  fileDataOffset := 0

/-- The file is loaded again and again. -/
theorem cyclicTables_endless (text : TextConversion) (fuel : ℕ) :
    ∀ r, loadDirectory text cyclicTables cyclicHeader fuel 0 ≠ .ok r := by
  intro r h
  have hloop : ∀ fuel files, loadFiles text cyclicTables cyclicHeader fuel 0 ≠ .ok files := by
    intro fuel
    induction fuel with
    | zero =>
        intro files h
        cases h
    | succ fuel ih =>
        intro files h
        obtain ⟨⟨file, next⟩, hload, h⟩ := bind_eq_ok.mp h
        obtain ⟨others, hothers, -⟩ := bind_eq_ok.mp h
        cases hload
        exact ih others hothers
  cases fuel with
  | zero => cases h
  | succ fuel =>
      obtain ⟨metadata, hmetadata, h⟩ := bind_eq_ok.mp h
      obtain ⟨name, hname, h⟩ := bind_eq_ok.mp h
      obtain ⟨files, hfiles, -⟩ := bind_eq_ok.mp h
      cases hmetadata
      exact hloop fuel files hfiles

end Loading

end Borked3DS.Analysis
