import Mathlib.Data.List.Nodup
import Borked3DS.Interface.RomFSTree
import Borked3DS.Library.FixedRecords

/-!
# The directories and files of a tree

Their pointers, and the offsets that the rebuild assigns to them.
-/

set_option autoImplicit false

namespace Borked3DS.Analysis

open Borked3DS.Library Borked3DS.Model Borked3DS.Model.LayeredFS Borked3DS.Interface

/-!
## The directories and files of a tree, by their pointers

A directory is in the order of its table exactly when its pointer leads to it, and no pointer
stands there twice; the same for the kept files.
-/

variable {ptr q : DirectoryPtr} {d e root : Directory} {i : ℕ}

theorem child?_cons (d : Directory) (i : ℕ) (path : List ℕ) :
    d.child? (i :: path) = d.directories[i]?.bind fun child => child.child? path := rfl

section Files

variable {file : File} {f : FilePtr}

theorem mem_keptFrom {files : List File} {i : ℕ} :
    (f, file) ∈ keptFrom ptr i files ↔
      ∃ j, files[j]? = some file ∧ file.kept = true ∧ f = ⟨ptr, i + j⟩ := by
  induction files generalizing i with
  | nil => simp [keptFrom]
  | cons g files ih =>
      have hrest : (∃ j, files[j]? = some file ∧ file.kept = true ∧ f = ⟨ptr, i + 1 + j⟩) ↔
          ∃ j, (g :: files)[j + 1]? = some file ∧ file.kept = true ∧ f = ⟨ptr, i + (j + 1)⟩ := by
        simp only [List.getElem?_cons_succ, Nat.add_assoc, Nat.add_comm 1]
      have hsplit : (∃ j, (g :: files)[j]? = some file ∧ file.kept = true ∧ f = ⟨ptr, i + j⟩) ↔
          (g = file ∧ file.kept = true ∧ f = ⟨ptr, i⟩) ∨
            ∃ j, (g :: files)[j + 1]? = some file ∧ file.kept = true ∧
              f = ⟨ptr, i + (j + 1)⟩ := by
        constructor
        · rintro ⟨j, hj, hk, hf⟩
          cases j with
          | zero => exact .inl ⟨Option.some.inj hj, hk, hf⟩
          | succ j => exact .inr ⟨j, hj, hk, hf⟩
        · rintro (⟨hg, hk, hf⟩ | ⟨j, hj, hk, hf⟩)
          · exact ⟨0, congrArg some hg, hk, hf⟩
          · exact ⟨j + 1, hj, hk, hf⟩
      rw [hsplit, ← hrest, keptFrom]
      by_cases hg : g.kept = true
      · rw [if_pos hg, List.mem_cons, ih, Prod.mk.injEq]
        constructor
        · rintro (⟨rfl, rfl⟩ | h)
          · exact .inl ⟨rfl, hg, rfl⟩
          · exact .inr h
        · rintro (⟨rfl, -, rfl⟩ | h)
          · exact .inl ⟨rfl, rfl⟩
          · exact .inr h
      · rw [if_neg hg, ih]
        constructor
        · exact .inr
        · rintro (⟨rfl, hk, -⟩ | h)
          · exact absurd hk hg
          · exact h

mutual

theorem mem_filesBelow : ∀ (d : Directory) (ptr : DirectoryPtr) (f : FilePtr) (file : File),
    (f, file) ∈ filesBelow ptr d ↔
      ∃ path e, f.parent = ptr ++ path ∧ d.child? path = some e ∧
        e.files[f.index]? = some file ∧ file.kept = true
  | .mk name files directories, ptr, f, file => by
      rw [filesBelow, List.mem_append, mem_keptFrom, mem_filesBelowAll directories ptr f file 0]
      constructor
      · rintro (⟨j, hj, hk, rfl⟩ | ⟨j, child, path, e, hj, hp, he, hf, hk⟩)
        · refine ⟨[], _, (List.append_nil ptr).symm, rfl, ?_, hk⟩
          rw [Nat.zero_add]
          exact hj
        · refine ⟨j :: path, e, by rw [hp, Nat.zero_add], ?_, hf, hk⟩
          rw [child?_cons, Directory.directories, hj]
          exact he
      · rintro ⟨path, e, hp, he, hf, hk⟩
        cases path with
        | nil =>
            left
            cases he
            refine ⟨f.index, hf, hk, ?_⟩
            rw [Nat.zero_add, ← List.append_nil ptr, ← hp]
        | cons j path =>
            right
            rw [child?_cons, Directory.directories] at he
            obtain ⟨child, hj, hchild⟩ := Option.bind_eq_some_iff.mp he
            exact ⟨j, child, path, e, hj, by rw [hp, Nat.zero_add], hchild, hf, hk⟩

theorem mem_filesBelowAll : ∀ (ds : List Directory) (ptr : DirectoryPtr) (f : FilePtr)
    (file : File) (i : ℕ), (f, file) ∈ filesBelowAll ptr i ds ↔
      ∃ j child path e, ds[j]? = some child ∧ f.parent = ptr ++ (i + j) :: path ∧
        child.child? path = some e ∧ e.files[f.index]? = some file ∧ file.kept = true
  | [], ptr, f, file, i => by simp [filesBelowAll]
  | d :: ds, ptr, f, file, i => by
      rw [filesBelowAll, List.mem_append, mem_filesBelow d (ptr ++ [i]) f file,
        mem_filesBelowAll ds ptr f file (i + 1)]
      constructor
      · rintro (⟨path, e, hp, he, hf, hk⟩ | ⟨j, child, path, e, hj, hp, he, hf, hk⟩)
        · exact ⟨0, d, path, e, rfl, by rw [hp, List.append_assoc]; rfl, he, hf, hk⟩
        · exact ⟨j + 1, child, path, e, hj, by rw [hp, Nat.add_assoc, Nat.add_comm 1], he, hf, hk⟩
      · rintro ⟨j, child, path, e, hj, hp, he, hf, hk⟩
        cases j with
        | zero =>
            left
            cases hj
            exact ⟨path, e, by rw [hp, List.append_assoc]; rfl, he, hf, hk⟩
        | succ j =>
            right
            exact ⟨j, child, path, e, hj, by rw [hp, Nat.add_assoc, Nat.add_comm 1], he, hf, hk⟩

end

/-- A file is in the order of its table exactly when its pointer leads to it and it is kept. -/
theorem mem_filesOf : (f, file) ∈ filesOf root ↔
    ∃ e, root.child? f.parent = some e ∧ e.files[f.index]? = some file ∧ file.kept = true := by
  rw [filesOf, mem_filesBelow]
  constructor
  · rintro ⟨path, e, hp, h⟩
    exact ⟨e, hp ▸ h⟩
  · rintro ⟨e, h⟩
    exact ⟨f.parent, e, rfl, h⟩

end Files

end Borked3DS.Analysis

/-!
## The offsets that the rebuild assigns

`PrepareBuild` puts the directories and the kept files of the tree into its lists in the order of
`directoriesOf` and `filesOf`, and gives each the offset that the entries before it leave.
-/

namespace Borked3DS.Analysis

open Borked3DS.Library Borked3DS.Model Borked3DS.Model.LayeredFS Borked3DS.Interface

variable (text : TextConversion)

/-- What a directory takes in its table, as the code computes it. -/
def directorySize (e : DirectoryPtr × Directory) : ℕ :=
  directoryMetadataSize + getNameSize text e.2.name

/-- What a file takes in its table, as the code computes it. -/
def fileSize (e : FilePtr × File) : ℕ := fileMetadataSize + getNameSize text e.2.name

/-- Put directories into the list one by one. -/
def addDirectories (fs : LayeredFS) (es : List (DirectoryPtr × Directory)) : LayeredFS :=
  es.foldl (fun fs e => prepareBuildDirectory text fs e.1 e.2) fs

/-- Put files into the list one by one. -/
def addFiles (fs : LayeredFS) (es : List (FilePtr × File)) : LayeredFS :=
  es.foldl (fun fs e => prepareBuildFile text fs e.1 e.2) fs

theorem addDirectories_append (fs : LayeredFS) (es es' : List (DirectoryPtr × Directory)) :
    addDirectories text fs (es ++ es') = addDirectories text (addDirectories text fs es) es' :=
  List.foldl_append

theorem addFiles_append (fs : LayeredFS) (es es' : List (FilePtr × File)) :
    addFiles text fs (es ++ es') = addFiles text (addFiles text fs es) es' :=
  List.foldl_append

/-- Files and directories go into different members. -/
theorem prepareBuild_comm (fs : LayeredFS) (e : DirectoryPtr × Directory) (f : FilePtr × File) :
    prepareBuildFile text (prepareBuildDirectory text fs e.1 e.2) f.1 f.2 =
      prepareBuildDirectory text (prepareBuildFile text fs f.1 f.2) e.1 e.2 := by
  unfold prepareBuildFile
  by_cases h : f.2.kept = true
  · rw [if_pos h, if_pos h]
    rfl
  · rw [if_neg h, if_neg h]

theorem addFiles_prepareBuildDirectory (fs : LayeredFS) (e : DirectoryPtr × Directory)
    (fes : List (FilePtr × File)) :
    addFiles text (prepareBuildDirectory text fs e.1 e.2) fes =
      prepareBuildDirectory text (addFiles text fs fes) e.1 e.2 := by
  induction fes generalizing fs with
  | nil => rfl
  | cons f fes ih =>
      show addFiles text (prepareBuildFile text (prepareBuildDirectory text fs e.1 e.2) f.1 f.2)
        fes = _
      rw [prepareBuild_comm, ih]
      rfl

theorem addFiles_addDirectories (fs : LayeredFS) (des : List (DirectoryPtr × Directory))
    (fes : List (FilePtr × File)) :
    addFiles text (addDirectories text fs des) fes =
      addDirectories text (addFiles text fs fes) des := by
  induction des generalizing fs with
  | nil => rfl
  | cons e des ih =>
      show addFiles text (addDirectories text (prepareBuildDirectory text fs e.1 e.2) des) fes = _
      rw [ih, addFiles_prepareBuildDirectory]
      rfl

theorem prepareBuildFiles_eq (fs : LayeredFS) (ptr : DirectoryPtr) (i : ℕ) (files : List File) :
    prepareBuildFiles text fs ptr i files = addFiles text fs (keptFrom ptr i files) := by
  induction files generalizing fs i with
  | nil => rfl
  | cons file files ih =>
      rw [prepareBuildFiles, ih, keptFrom]
      by_cases h : file.kept = true
      · rw [if_pos h]
        rfl
      · rw [if_neg h, prepareBuildFile, if_neg h]

theorem prepareBuildDirectories_eq (fs : LayeredFS) (ptr : DirectoryPtr) (i : ℕ)
    (ds : List Directory) :
    prepareBuildDirectories text fs ptr i ds =
      addDirectories text fs (childrenFrom ptr i ds) := by
  induction ds generalizing fs i with
  | nil => rfl
  | cons d ds ih =>
      rw [prepareBuildDirectories, ih]
      rfl

mutual

/-- `PrepareBuild` adds everything below a directory. -/
theorem prepareBuild_eq : ∀ (d : Directory) (fs : LayeredFS) (ptr : DirectoryPtr),
    prepareBuild text fs ptr d =
      addDirectories text (addFiles text fs (filesBelow ptr d)) (directoriesBelow ptr d)
  | .mk name files directories, fs, ptr => by
      rw [prepareBuild, prepareBuildBelow_eq directories, prepareBuildDirectories_eq,
        prepareBuildFiles_eq, addFiles_addDirectories, ← addFiles_append, ← addDirectories_append]
      rfl

theorem prepareBuildBelow_eq : ∀ (ds : List Directory) (fs : LayeredFS) (ptr : DirectoryPtr)
    (i : ℕ), prepareBuildBelow text fs ptr i ds =
      addDirectories text (addFiles text fs (filesBelowAll ptr i ds))
        (directoriesBelowAll ptr i ds)
  | [], fs, ptr, i => rfl
  | d :: ds, fs, ptr, i => by
      rw [prepareBuildBelow, prepareBuildBelow_eq ds, prepareBuild_eq d, addFiles_addDirectories,
        ← addFiles_append, ← addDirectories_append]
      rfl

end

/-- The state after `PrepareBuild` ran on the root. -/
theorem prepareBuild_root (root : Directory) :
    prepareBuild text (prepareBuildDirectory text { root := root } [] root) [] root =
      addDirectories text (addFiles text { root := root } (filesOf root)) (directoriesOf root) := by
  rw [prepareBuild_eq]
  show addDirectories text (addFiles text (addDirectories text { root := root } [([], root)])
    (filesOf root)) (directoriesBelow [] root) = _
  rw [addFiles_addDirectories, ← addDirectories_append]
  rfl

/-! ### Offset maps -/

section Offsets

variable {κ α : Type} [DecidableEq κ] (size : κ × α → ℕ)

/-- An offset map into which entries are put one by one. -/
def offsetsFrom : ℕ → List (κ × ℕ) → List (κ × α) → List (κ × ℕ)
  | _, map, [] => map
  | start, map, e :: es => offsetsFrom (start + size e) (emplace map e.1 (u32 start)) es

variable {size} {es : List (κ × α)} {start : ℕ} {map : List (κ × ℕ)} {k : κ}

end Offsets

/-! ### What the members hold afterwards -/

theorem addDirectories_eq (fs : LayeredFS) (es : List (DirectoryPtr × Directory)) :
    addDirectories text fs es = { fs with
      directoryMetadataOffsetMap := offsetsFrom (directorySize text) fs.currentDirectoryOffset
        fs.directoryMetadataOffsetMap es
      directoryList := fs.directoryList ++ es.map Prod.fst
      currentDirectoryOffset :=
        fs.currentDirectoryOffset + totalSize (directorySize text) es } := by
  induction es generalizing fs with
  | nil =>
      rw [List.map_nil, List.append_nil]
      rfl
  | cons e es ih =>
      refine (ih (prepareBuildDirectory text fs e.1 e.2)).trans ?_
      rw [prepareBuildDirectory, List.append_assoc, totalSize_cons, Nat.add_assoc]
      rfl

theorem addFiles_eq (fs : LayeredFS) (es : List (FilePtr × File))
    (h : ∀ e ∈ es, e.2.kept = true) :
    addFiles text fs es = { fs with
      fileMetadataOffsetMap :=
        offsetsFrom (fileSize text) fs.currentFileOffset fs.fileMetadataOffsetMap es
      fileList := fs.fileList ++ es.map Prod.fst
      currentFileOffset := fs.currentFileOffset + totalSize (fileSize text) es } := by
  induction es generalizing fs with
  | nil =>
      rw [List.map_nil, List.append_nil]
      rfl
  | cons e es ih =>
      have hrest : ∀ e ∈ es, e.2.kept = true := fun e' he' => h e' (List.mem_cons_of_mem _ he')
      refine (ih (prepareBuildFile text fs e.1 e.2) hrest).trans ?_
      rw [prepareBuildFile, if_pos (h e List.mem_cons_self), List.append_assoc, totalSize_cons,
        Nat.add_assoc]
      rfl

theorem kept_of_mem_filesOf {root : Directory} {e : FilePtr × File} (h : e ∈ filesOf root) :
    e.2.kept = true := by
  obtain ⟨-, -, -, hk⟩ := mem_filesOf.mp h
  exact hk

/-- The offset map of the directories of a tree. -/
def directoryOffsets (root : Directory) : List (DirectoryPtr × ℕ) :=
  offsetsFrom (directorySize text) 0 [] (directoriesOf root)

/-- The offset map of the kept files of a tree. -/
def fileOffsets (root : Directory) : List (FilePtr × ℕ) :=
  offsetsFrom (fileSize text) 0 [] (filesOf root)

/-- The state that `PrepareBuild` leaves for a tree. -/
def prepared (root : Directory) : LayeredFS where
  root := root
  directoryMetadataOffsetMap := directoryOffsets text root
  directoryList := (directoriesOf root).map Prod.fst
  currentDirectoryOffset := totalSize (directorySize text) (directoriesOf root)
  fileMetadataOffsetMap := fileOffsets text root
  fileList := (filesOf root).map Prod.fst
  currentFileOffset := totalSize (fileSize text) (filesOf root)

theorem prepareBuild_prepared (root : Directory) :
    prepareBuild text (prepareBuildDirectory text { root := root } [] root) [] root =
      prepared text root := by
  rw [prepareBuild_root, addFiles_eq text _ _ fun e he => kept_of_mem_filesOf he,
    addDirectories_eq]
  simp only [Nat.zero_add, List.nil_append]
  rfl

/-! ## The loop of the directories -/

section Tables

variable {text : TextConversion} {root : Directory} {fs : LayeredFS}

theorem alignUp_of_lt {bits value size : ℕ} (hs : 0 < size)
    (h : (value + size - 1) / size * size < 2 ^ bits) :
    alignUp bits value size = (value + size - 1) / size * size := by
  have hdiv := Nat.div_add_mod value size
  have hmod := Nat.mod_lt value hs
  have hcomm : value / size * size = size * (value / size) := Nat.mul_comm _ _
  unfold alignUp
  by_cases hz : value % size = 0
  · rw [if_pos hz]
    have hq : (value + size - 1) / size = value / size := by
      rw [show value + size - 1 = (size - 1) + size * (value / size) by omega,
        Nat.add_mul_div_left _ _ hs, Nat.div_eq_of_lt (by omega), Nat.zero_add]
    rw [hq]
    omega
  · rw [if_neg hz]
    have hq : (value + size - 1) / size = value / size + 1 := by
      rw [show value + size - 1 = (value % size - 1) + size * (value / size + 1) by
          rw [Nat.mul_add]; omega,
        Nat.add_mul_div_left _ _ hs, Nat.div_eq_of_lt (by omega), Nat.zero_add]
    have hsum : value - value % size + size = (value / size + 1) * size := by
      rw [Nat.add_mul]
      omega
    rw [hq] at h ⊢
    rw [hsum, Nat.mod_eq_of_lt h]

theorem directory_ok (h : fs.root = root) {ptr : DirectoryPtr} {d : Directory}
    (hd : root.child? ptr = some d) : fs.directory ptr = .ok d := by
  unfold directory
  rw [h, hd]

theorem file_ok (h : fs.root = root) {e : FilePtr × File} (he : e ∈ filesOf root) :
    fs.file e.1 = .ok e.2 := by
  obtain ⟨parent, hparent, hfile, -⟩ := mem_filesOf.mp he
  unfold file
  rw [directory_ok h hparent, ok_bind]
  exact readAt_eq_ok.mpr hfile

/-- A turn of `BuildDirectories` changes the two tables only, and has made the record. -/
theorem buildDirectory_frame {s t : LayeredFS × ℕ} {ptr : DirectoryPtr}
    (h : buildDirectory text s ptr = .ok t) :
    (∃ heads table, t.1 =
        { s.1 with directoryHashTable := heads, directoryMetadataTable := table }) ∧
      ∃ d m, s.1.directory ptr = .ok d ∧ directoryRecord text s.1 ptr d = .ok m := by
  unfold buildDirectory at h
  dsimp only at h
  obtain ⟨d, hd, h⟩ := bind_eq_ok.mp h
  obtain ⟨m, hm, h⟩ := bind_eq_ok.mp h
  obtain ⟨next, -, h⟩ := bind_eq_ok.mp h
  obtain ⟨offset, -, h⟩ := bind_eq_ok.mp h
  obtain ⟨table, -, h⟩ := bind_eq_ok.mp h
  obtain ⟨table', -, h⟩ := bind_eq_ok.mp h
  cases h
  exact ⟨⟨_, _, rfl⟩, d, m, hd, hm⟩

theorem buildDirectories_frame {fs' : LayeredFS} (h : buildDirectories text fs = .ok fs') :
    ∃ heads table, fs' =
      { fs with directoryHashTable := heads, directoryMetadataTable := table } := by
  let rest : LayeredFS × ℕ → LayeredFS := fun s =>
    { s.1 with directoryHashTable := [], directoryMetadataTable := [] }
  unfold buildDirectories at h
  dsimp only at h
  obtain ⟨t, hloop, h⟩ := bind_eq_ok.mp h
  obtain ⟨-, -, h⟩ := bind_eq_ok.mp h
  cases h
  have hrest : rest t = (fs.directoryList.foldl (fun r _ => r)
      { fs with directoryHashTable := [], directoryMetadataTable := [] }) := by
    refine foldlM_component (g := rest) ?_ hloop
    intro s ptr t' hstep
    obtain ⟨⟨heads, table, ht'⟩, -⟩ := buildDirectory_frame hstep
    show { t'.1 with directoryHashTable := [], directoryMetadataTable := [] } = rest s
    rw [ht']
  rw [List.foldl_fixed] at hrest
  refine ⟨t.1.directoryHashTable, t.1.directoryMetadataTable, ?_⟩
  have hsame := congrArg (fun r : LayeredFS => { r with
    directoryHashTable := t.1.directoryHashTable
    directoryMetadataTable := t.1.directoryMetadataTable }) hrest
  exact hsame

end Tables

end Borked3DS.Analysis
