import Borked3DS.Analysis.HandleTables
import Borked3DS.Analysis.IpcEffects
import Borked3DS.Interface.Handles

/-!
# Handles that are handed over

A translation works on the tables through their calls: the source's loses the handles of the
descriptors `MoveHandle` for one handle, and the destination's gets new ones. What the two tables
show at the end follows from what a table promises over any sequence of calls.
-/

set_option autoImplicit false

namespace Borked3DS.Analysis

open Borked3DS.Library Borked3DS.Library.Touching Borked3DS.Model Borked3DS.Model.IPC
open Borked3DS.Model.Ipc Borked3DS.Interface HandleTable

/-! ## Tables under calls -/

section Calls

variable {Obj : Type} {table table' table'' : HandleTable Obj} {handle : ℕ} {obj : Obj}

/-- A table after calls of some kind. -/
def Called (kind : HandleCall Obj → Prop) (table table' : HandleTable Obj) : Prop :=
  ∃ calls, table' = after table calls ∧ ∀ c ∈ calls, kind c

variable {kind kind' : HandleCall Obj → Prop}

theorem Called.refl : Called kind table table := ⟨[], rfl, by simp⟩

theorem Called.trans (h : Called kind table table') (h' : Called kind table' table'') :
    Called kind table table'' := by
  obtain ⟨calls, rfl, hkind⟩ := h
  obtain ⟨calls', rfl, hkind'⟩ := h'
  refine ⟨calls ++ calls', (after_append table calls calls').symm, fun c hc => ?_⟩
  rcases List.mem_append.mp hc with hleft | hright
  · exact hkind c hleft
  · exact hkind' c hright

theorem Called.exec {c : HandleCall Obj} (h : kind c) : Called kind table (c.exec table).2 :=
  ⟨[c], rfl, by simpa using h⟩

theorem Called.create {created : ℕ} (hrun : table.create obj = .ok (created, table'))
    (h : kind (.create obj)) : Called kind table table' := by
  have hexec : ((HandleCall.create obj).exec table).2 = table' := by
    dsimp only [HandleCall.exec]
    rw [hrun]
  exact hexec ▸ Called.exec h

theorem Called.mono (h : Called kind table table') (himp : ∀ c, kind c → kind' c) :
    Called kind' table table' := by
  obtain ⟨calls, hafter, hkind⟩ := h
  exact ⟨calls, hafter, fun c hc => himp c (hkind c hc)⟩

theorem Called.sound (h : Called kind table table') (hsound : TableSound table) :
    TableSound table' := by
  obtain ⟨calls, rfl, -⟩ := h
  exact sound_after hsound calls

/-- A valid handle stays valid and keeps its object while it is not closed. -/
theorem Called.kept (h : Called kind table table') (hsound : TableSound table)
    (hkind : ∀ c, kind c → ¬ c.Closes handle) (hvalid : table.isValid handle = true)
    (hobject : table.objects (getSlot handle) = some obj) :
    table'.isValid handle = true ∧ table'.objects (getSlot handle) = some obj := by
  obtain ⟨calls, rfl, hcalls⟩ := h
  obtain ⟨hslot, -, hgen⟩ := isValid_iff.mp hvalid
  obtain ⟨hobject', hgen'⟩ := slot_kept_after hsound hobject hgen calls
    fun c hc => hkind c (hcalls c hc)
  refine ⟨isValid_iff.mpr ⟨hslot, ?_, hgen'⟩, hobject'⟩
  rw [hobject']
  rfl

/-- A handle that is not valid stays so while nothing is created. -/
theorem Called.notValid (h : Called kind table table')
    (hkind : ∀ c, kind c → ∃ other, c = .close other) (hinvalid : table.isValid handle = false) :
    table'.isValid handle = false := by
  obtain ⟨calls, rfl, hcalls⟩ := h
  induction calls generalizing table with
  | nil => exact hinvalid
  | cons c calls ih =>
    refine ih ?_ fun d hd => hcalls d (List.mem_cons_of_mem c hd)
    obtain ⟨other, rfl⟩ := hkind c (hcalls c List.mem_cons_self)
    dsimp only [HandleCall.exec]
    cases hrun : table.close other with
    | error result => exact hinvalid
    | ok closed =>
      obtain ⟨-, rfl⟩ := close_eq_ok.mp hrun
      apply Bool.eq_false_iff.mpr
      intro hvalid
      obtain ⟨hslot, hsome, hgen⟩ := isValid_iff.mp hvalid
      have hne : getSlot handle ≠ getSlot other := by
        intro heq
        rw [heq] at hsome
        simp at hsome
      simp only [Function.update_of_ne hne] at hsome hgen
      rw [isValid_iff.mpr ⟨hslot, hsome, hgen⟩] at hinvalid
      cases hinvalid

/-- A handle that is new keeps its object while it is not closed. -/
theorem fresh_resolves {before : HandleTable Obj} (hfresh : FreshHandle before table obj handle)
    (hsound : TableSound table) (h : Called kind table table')
    (hkind : ∀ c, kind c → ¬ c.Closes handle) (ct cp : Option Obj) :
    table'.getGeneric ct cp handle = some obj := by
  have hvalid := (hsound.liveHandle_iff.mp hfresh.live).1
  have hresolves := hfresh.resolves none none
  unfold getGeneric at hresolves ⊢
  by_cases hthread : handle = CurrentThread
  · rw [if_pos hthread] at hresolves
    cases hresolves
  by_cases hprocess : handle = CurrentProcess
  · rw [if_neg hthread, if_pos hprocess] at hresolves
    cases hresolves
  rw [if_neg hthread, if_neg hprocess, if_pos hvalid] at hresolves
  obtain ⟨hvalid', hobject⟩ := h.kept hsound hkind hvalid hresolves
  rw [if_neg hthread, if_neg hprocess, if_pos hvalid', hobject]

end Calls

/-! ## One handle -/

section Handle

variable {Proc Obj Mem : Type} [DecidableEq Proc] {parties : IpcParties Proc Obj Mem}
  {t t' : IpcState Proc Obj Mem} {descriptor i : ℕ}

/-- The object a handle in a command stands for. -/
def namedObject (parties : IpcParties Proc Obj Mem) (table : HandleTable Obj) (handle : ℕ) :
    Option Obj :=
  if handle = CurrentThread then some parties.srcThread
  else if handle = CurrentProcess then some parties.srcProcess
  else if handle ≠ 0 then table.getGeneric parties.currentThread parties.currentProcess handle
  else none

/-- The source's table when a handle is closed if its descriptor says so. -/
def closedTable (descriptor : ℕ) (table : HandleTable Obj) (handle : ℕ) : HandleTable Obj :=
  if (handle ≠ CurrentThread ∧ handle ≠ CurrentProcess ∧ handle ≠ 0) ∧ descriptor = MoveHandle then
    ((HandleCall.close handle).exec table).2
  else table

theorem tables_modifyProcess {process : Proc} {f : IpcProcess Obj → IpcProcess Obj}
    (h : Returns (modifyProcess process f : Ipc Proc Obj Mem Unit) t () t') :
    tables t' = Function.update (tables t) process (f (t.processes process)).handleTable := by
  obtain rfl := returns_modify.mp h
  funext p
  unfold tables
  by_cases hp : p = process
  · subst hp
    simp only [Function.update_self]
  · simp only [Function.update_of_ne hp]

theorem tables_closeMoved {process : Proc} {isMoved : Bool} {handle : ℕ}
    (h : Returns (closeMoved process isMoved handle : Ipc Proc Obj Mem Unit) t () t') :
    tables t' = Function.update (tables t) process
      (if isMoved then ((HandleCall.close handle).exec (tables t process)).2
        else tables t process) := by
  rw [tables_modifyProcess h]
  congr 1
  dsimp only [HandleCall.exec, tables]
  cases (t.processes process).handleTable.close handle with
  | error result => simp
  | ok table =>
    cases isMoved with
    | false => rfl
    | true => rfl

theorem returns_createHandle {process : Proc} {object : Obj} {created : ℕ}
    (h : Returns (Ipc.createHandle process object : Ipc Proc Obj Mem ℕ) t created t') :
    ∃ table, (tables t process).create object = .ok (created, table) ∧
      tables t' = Function.update (tables t) process table := by
  unfold Ipc.createHandle at h
  obtain ⟨s, _, hget, h⟩ := returns_bind.mp h
  obtain ⟨rfl, rfl⟩ := returns_get.mp hget
  cases hrun : (t.processes process).handleTable.create object with
  | error result =>
    rw [hrun] at h
    exact absurd h not_returns_stop
  | ok made =>
    obtain ⟨handle, table⟩ := made
    rw [hrun] at h
    obtain ⟨_, _, hmodify, hpure⟩ := returns_bind.mp h
    obtain ⟨rfl, rfl⟩ := returns_pure.mp hpure
    exact ⟨table, hrun, tables_modifyProcess hmodify⟩

omit [DecidableEq Proc] in
theorem returns_writeCmdBuf {word : ℕ}
    (h : Returns (writeCmdBuf i word : Ipc Proc Obj Mem Unit) t () t') :
    t' = { t with cmdBuf := Function.update t.cmdBuf i word } := by
  obtain ⟨_, _, htouch, hwrite⟩ := returns_bind.mp h
  obtain rfl := returns_touch.mp htouch
  exact (returns_modify.mp hwrite).symm

/-- What the translation of a handle does to the tables and to the words. -/
theorem returns_translateHandle (h : Returns (translateHandle parties descriptor i) t () t') :
    ∃ created, t'.cmdBuf = Function.update t.cmdBuf i created ∧
      let closed := Function.update (tables t) parties.src
        (closedTable descriptor (tables t parties.src) (t.cmdBuf i))
      (namedObject parties (tables t parties.src) (t.cmdBuf i) = none ∧ tables t' = closed) ∨
      ∃ object table, namedObject parties (tables t parties.src) (t.cmdBuf i) = some object ∧
        (closed parties.dst).create object = .ok (created, table) ∧
        tables t' = Function.update closed parties.dst table := by
  unfold translateHandle at h
  obtain ⟨handle, _, hread, h⟩ := returns_bind.mp h
  obtain ⟨rfl, rfl⟩ := returns_readCmdBuf.mp hread
  obtain ⟨s, _, hget, h⟩ := returns_bind.mp h
  obtain ⟨rfl, rfl⟩ := returns_get.mp hget
  obtain ⟨_, t₁, hclose, h⟩ := returns_bind.mp h
  have hwords : t₁.cmdBuf = t.cmdBuf := (quiet_closeMoved _ _ _).preserves _ _ _ hclose
  have hclosed : tables t₁ = Function.update (tables t) parties.src
      (closedTable descriptor (tables t parties.src) (t.cmdBuf i)) := by
    rw [tables_closeMoved hclose]
    unfold closedTable
    simp only [decide_eq_true_eq]
  have hobject : (if t.cmdBuf i = CurrentThread then some parties.srcThread
      else if t.cmdBuf i = CurrentProcess then some parties.srcProcess
      else if t.cmdBuf i ≠ 0 then
        (t.processes parties.src).handleTable.getGeneric parties.currentThread
          parties.currentProcess (t.cmdBuf i)
      else none) = namedObject parties (tables t parties.src) (t.cmdBuf i) := rfl
  rw [hobject] at h
  cases hnamed : namedObject parties (tables t parties.src) (t.cmdBuf i) with
  | none =>
    rw [hnamed] at h
    obtain rfl := returns_writeCmdBuf h
    refine ⟨0, ?_, Or.inl ⟨rfl, hclosed⟩⟩
    rw [← hwords]
  | some object =>
    rw [hnamed] at h
    obtain ⟨created, t₂, hcreate, h⟩ := returns_bind.mp h
    obtain rfl := returns_writeCmdBuf h
    have hwords' : t₂.cmdBuf = t₁.cmdBuf := (quiet_createHandle _ _).preserves _ _ _ hcreate
    obtain ⟨table, hrun, htables⟩ := returns_createHandle hcreate
    rw [hclosed] at hrun htables
    refine ⟨created, ?_, Or.inr ⟨object, table, rfl, hrun, htables⟩⟩
    rw [← hwords, ← hwords']

/-- The calls on a table that the translation of a handle makes. -/
def handleCalls (parties : IpcParties Proc Obj Mem) (descriptor handle : ℕ) (p : Proc)
    (c : HandleCall Obj) : Prop :=
  (p = parties.dst ∧ ∃ object, c = .create object) ∨
    (p = parties.src ∧ descriptor = MoveHandle ∧ c = .close handle)

theorem called_translateHandle (h : Returns (translateHandle parties descriptor i) t () t')
    (p : Proc) :
    Called (handleCalls parties descriptor (t.cmdBuf i) p) (tables t p) (tables t' p) := by
  obtain ⟨created, -, hcases⟩ := returns_translateHandle h
  have hclosed : Called (handleCalls parties descriptor (t.cmdBuf i) p) (tables t p)
      (Function.update (tables t) parties.src
        (closedTable descriptor (tables t parties.src) (t.cmdBuf i)) p) := by
    by_cases hp : p = parties.src
    · subst hp
      rw [Function.update_self]
      unfold closedTable
      split
      next hmoved => exact Called.exec (Or.inr ⟨rfl, hmoved.2, rfl⟩)
      next => exact Called.refl
    · rw [Function.update_of_ne hp]
      exact Called.refl
  rcases hcases with ⟨-, htables⟩ | ⟨object, table, -, hrun, htables⟩
  · rw [htables]
    exact hclosed
  · rw [htables]
    by_cases hp : p = parties.dst
    · subst hp
      rw [Function.update_self]
      exact hclosed.trans (Called.create hrun (Or.inl ⟨rfl, object, rfl⟩))
    · rw [Function.update_of_ne hp]
      exact hclosed

/-! A handle of its own that the source lists. -/

omit [DecidableEq Proc] in
theorem own_object (parties : IpcParties Proc Obj Mem) {table : HandleTable Obj} {handle : ℕ}
    (h : OwnHandle table handle) :
    ∃ object, table.objects (getSlot handle) = some object ∧
      (∀ ct cp, table.getGeneric ct cp handle = some object) ∧
      namedObject parties table handle = some object := by
  obtain ⟨-, hsome, -⟩ := isValid_iff.mp h.valid
  obtain ⟨object, hobject⟩ := Option.isSome_iff_exists.mp hsome
  have hgeneric : ∀ ct cp, table.getGeneric ct cp handle = some object := by
    intro ct cp
    unfold getGeneric
    rw [if_neg h.notPseudo.1, if_neg h.notPseudo.2, if_pos h.valid, hobject]
  refine ⟨object, hobject, hgeneric, ?_⟩
  unfold namedObject
  rw [if_neg h.notPseudo.1, if_neg h.notPseudo.2, if_pos h.notNull, hgeneric]

omit [DecidableEq Proc] in
theorem closedTable_other {table : HandleTable Obj} {handle : ℕ} (h : descriptor ≠ MoveHandle) :
    closedTable descriptor table handle = table :=
  if_neg fun hmoved => h hmoved.2

omit [DecidableEq Proc] in
theorem closedTable_own {table : HandleTable Obj} {handle : ℕ} (h : OwnHandle table handle) :
    table.close handle = .ok (closedTable MoveHandle table handle) := by
  unfold closedTable
  rw [if_pos ⟨⟨h.notPseudo.1, h.notPseudo.2, h.notNull⟩, rfl⟩]
  have hclose := close_eq_ok.mpr ⟨h.valid, rfl⟩
  dsimp only [HandleCall.exec]
  rw [hclose]

/-- The destination has a new handle, unless a process that sends to itself gives the closed handle
anew. -/
theorem fresh_translateHandle (hsound : ∀ p, TableSound (tables t p))
    (hown : OwnHandle (tables t parties.src) (t.cmdBuf i))
    (h : Returns (translateHandle parties descriptor i) t () t')
    (hanew : descriptor = MoveHandle → parties.src = parties.dst →
      (tables t parties.src).nextGeneration ≠ getGeneration (t.cmdBuf i)) :
    ∃ object, (∀ ct cp, (tables t parties.src).getGeneric ct cp (t.cmdBuf i) = some object) ∧
      FreshHandle (tables t parties.dst) (tables t' parties.dst) object (t'.cmdBuf i) := by
  obtain ⟨object, -, hgeneric, hnamed⟩ := own_object parties hown
  obtain ⟨created, hwords, ⟨hnone, -⟩ | ⟨object', table, hnamed', hrun, htables⟩⟩ :=
    returns_translateHandle h
  · rw [hnamed] at hnone
    cases hnone
  obtain rfl := Option.some.inj (hnamed.symm.trans hnamed')
  refine ⟨object, hgeneric, ?_⟩
  rw [hwords, htables, Function.update_self, Function.update_self]
  by_cases hclosed : descriptor = MoveHandle ∧ parties.src = parties.dst
  · obtain ⟨rfl, hsame⟩ := hclosed
    have hclose := closedTable_own hown
    rw [← hsame, Function.update_self] at hrun
    rw [← hsame]
    have hsound' := (hsound parties.src).close hclose
    have hpromise := hsound'.promise hrun
    refine ⟨?_, ?_, hpromise.live, hpromise.resolves [] (by simp)⟩
    · intro hlive
      have hslot : getSlot (t.cmdBuf i) = getSlot created := by
        by_contra hne
        exact hpromise.distinct created
          (((hsound parties.src).liveHandle_close hclose).mpr ⟨hlive, hne⟩) rfl
      have hcreated := (isValid_iff.mp ((hsound parties.src).liveHandle_iff.mp hlive).1).2.2
      have hgen := (isValid_iff.mp hown.valid).2.2
      rw [hslot, hcreated] at hgen
      apply hanew rfl hsame
      rw [← hgen]
      obtain ⟨-, rfl, -⟩ := create_eq_ok.mp hrun
      rw [getGeneration_handle hsound'.counter.2]
      obtain ⟨-, hclosedTable⟩ := close_eq_ok.mp hclose
      rw [hclosedTable]
    · intro other hlive
      rcases (hsound'.liveHandle_create hrun).mp hlive with hold | heq
      · exact Or.inl (((hsound parties.src).liveHandle_close hclose).mp hold).1
      · exact Or.inr heq.symm
  · have hkept : Function.update (tables t) parties.src
        (closedTable descriptor (tables t parties.src) (t.cmdBuf i)) parties.dst =
          tables t parties.dst := by
      by_cases hdescriptor : descriptor = MoveHandle
      · exact Function.update_of_ne (fun heq => hclosed ⟨hdescriptor, heq.symm⟩) _ _
      · rw [closedTable_other hdescriptor, Function.update_eq_self]
    rw [hkept] at hrun
    have hpromise := (hsound parties.dst).promise hrun
    refine ⟨fun hlive => hpromise.distinct created hlive rfl, ?_, hpromise.live,
      hpromise.resolves [] (by simp)⟩
    intro other hlive
    rcases ((hsound parties.dst).liveHandle_create hrun).mp hlive with hold | heq
    · exact Or.inl hold
    · exact Or.inr heq.symm

/-- Only the descriptor for one handle takes the handle away, -/
theorem kept_translateHandle (hsound : ∀ p, TableSound (tables t p)) {handle : ℕ}
    (hvalid : (tables t parties.src).isValid handle = true)
    (h : Returns (translateHandle parties descriptor i) t () t')
    (hdescriptor : descriptor ≠ MoveHandle) :
    (tables t' parties.src).isValid handle = true := by
  obtain ⟨object, hobject⟩ := Option.isSome_iff_exists.mp (isValid_iff.mp hvalid).2.1
  refine ((called_translateHandle h parties.src).kept (hsound _) ?_ hvalid hobject).1
  rintro c (⟨-, other, rfl⟩ | ⟨-, hmove, -⟩)
  · exact id
  · exact absurd hmove hdescriptor

/-- and it does, unless a process that sends to itself gives it anew. -/
theorem moved_translateHandle (hown : OwnHandle (tables t parties.src) (t.cmdBuf i))
    (h : Returns (translateHandle parties MoveHandle i) t () t') :
    (tables t' parties.src).isValid (t.cmdBuf i) = false ↔
      (parties.src = parties.dst →
        (tables t parties.src).nextGeneration ≠ getGeneration (t.cmdBuf i)) := by
  obtain ⟨object, -, -, hnamed⟩ := own_object parties hown
  obtain ⟨created, hwords, ⟨hnone, -⟩ | ⟨object', table, hnamed', hrun, htables⟩⟩ :=
    returns_translateHandle h
  · rw [hnamed] at hnone
    cases hnone
  have hclose := closedTable_own hown
  obtain ⟨-, hclosed⟩ := close_eq_ok.mp hclose
  rw [htables]
  by_cases hsame : parties.src = parties.dst
  · rw [← hsame, Function.update_self]
    rw [← hsame, Function.update_self] at hrun
    obtain ⟨-, -, rfl⟩ := create_eq_ok.mp hrun
    have hslot : (closedTable MoveHandle (tables t parties.src) (t.cmdBuf i)).nextFreeSlot =
        getSlot (t.cmdBuf i) := by
      rw [hclosed]
    have hnext : (closedTable MoveHandle (tables t parties.src) (t.cmdBuf i)).nextGeneration =
        (tables t parties.src).nextGeneration := by
      rw [hclosed]
    rw [Bool.eq_false_iff, ne_eq, isValid_iff]
    simp only [hslot, hnext, Function.update_self, Option.isSome_some, true_and]
    constructor
    · intro hnot _ heq
      exact hnot ⟨(isValid_iff.mp hown.valid).1, heq⟩
    · rintro hnot ⟨-, heq⟩
      exact hnot trivial heq
  · refine iff_of_true ?_ fun heq => absurd heq hsame
    rw [Function.update_of_ne hsame, Function.update_self, hclosed, Bool.eq_false_iff, ne_eq,
      isValid_iff]
    simp

end Handle

/-! ## Whole translations -/

section Translation

variable {Proc Obj Mem : Type} [DecidableEq Proc] {parties : IpcParties Proc Obj Mem}
  {s t t' t₀ u : IpcState Proc Obj Mem} {srcAddress dstAddress : ℕ} {reply : Bool} {i j n : ℕ}

theorem returns_handles {commandSize : ℕ} (hhandle : isHandleDescriptor (t.cmdBuf j))
    (h : Returns (translateDescriptor parties reply dstAddress commandSize j) t n t') :
    n = handleNumberFromDesc (t.cmdBuf j) ∧
      Returns (each (translateHandle parties (t.cmdBuf j)) n (j + 1)) t () t' := by
  unfold translateDescriptor at h
  obtain ⟨descriptor, _, hread, hrest⟩ := returns_bind.mp h
  obtain ⟨rfl, rfl⟩ := returns_readCmdBuf.mp hread
  dsimp only at hrest
  rcases hhandle with hkind | hkind
  all_goals
    rw [hkind] at hrest
    dsimp only at hrest
    split at hrest
    · exact absurd hrest not_returns_stop
    · obtain ⟨_, t₁, heach, hpure⟩ := returns_bind.mp hrest
      obtain ⟨rfl, rfl⟩ := returns_pure.mp hpure
      exact ⟨rfl, heach⟩

/-- What the handles up to one of them do to the tables, and which words are left to them. -/
theorem called_handles {descriptor m : ℕ} (hone : descriptor = MoveHandle → m ≤ 1)
    (h : Returns (each (translateHandle parties descriptor) m i) t () t') :
    (∀ p, Called (handleCalls parties descriptor (t.cmdBuf i) p) (tables t p) (tables t' p)) ∧
      ∀ k, k < i ∨ i + m ≤ k → t'.cmdBuf k = t.cmdBuf k := by
  constructor
  · intro p
    suffices hinv : Called (handleCalls parties descriptor (t.cmdBuf i) p) (tables t p)
        (tables t' p) ∧ ∀ k', i + m ≤ k' → t'.cmdBuf k' = t.cmdBuf k' from hinv.1
    apply returns_each_invariant (fun k v =>
      Called (handleCalls parties descriptor (t.cmdBuf i) p) (tables t p) (tables v p) ∧
        ∀ k', k ≤ k' → v.cmdBuf k' = t.cmdBuf k') ?_ ⟨.refl, fun _ _ => rfl⟩ h
    · rintro k v v' hle hlt ⟨hcalled, hwords⟩ hstep
      refine ⟨hcalled.trans ((called_translateHandle hstep p).mono ?_), fun k' hk' => ?_⟩
      · rintro c (hcreate | ⟨hp, hdescriptor, rfl⟩)
        · exact Or.inl hcreate
        · have hk : k = i := by
            have hm := hone hdescriptor
            omega
          rw [hwords k (Nat.le_refl k), hk]
          exact Or.inr ⟨hp, hdescriptor, rfl⟩
      · rw [← hwords k' (by omega)]
        exact preserves_translateHandle (by omega) v () v' hstep
  · intro k hk
    have hkept : Preserves (fun s => s.cmdBuf k) (each (translateHandle parties descriptor) m i) :=
      preserves_each fun j _ _ => preserves_translateHandle (by omega)
    exact hkept t () t' h

/-- The calls on a table that a round makes. -/
def roundCalls (parties : IpcParties Proc Obj Mem) (s : IpcState Proc Obj Mem) (srcAddress j : ℕ)
    (p : Proc) : HandleCall Obj → Prop :=
  handleCalls parties (commandWord parties s srcAddress j)
    (commandWord parties s srcAddress (j + 1)) p

theorem called_round
    (hreaches : TranslationReaches parties s srcAddress dstAddress reply j t)
    (h : Returns (translateDescriptor parties reply dstAddress
      (commandSize (headerAt parties s srcAddress)) j) t n t') (p : Proc) :
    Called (roundCalls parties s srcAddress j p) (tables t p) (tables t' p) := by
  have hword : t.cmdBuf j = commandWord parties s srcAddress j :=
    words_of_reaches hreaches (Nat.le_refl j)
  have hnext : t.cmdBuf (j + 1) = commandWord parties s srcAddress (j + 1) :=
    words_of_reaches hreaches (Nat.le_succ j)
  by_cases hhandle : isHandleDescriptor (t.cmdBuf j)
  · obtain ⟨rfl, heach⟩ := returns_handles hhandle h
    have hcalled := (called_handles (fun hmove => ?_) heach).1 p
    · rw [hword, hnext] at hcalled
      exact hcalled
    · rw [hmove]
      decide
  · have htables : tables t' = tables t :=
      kept_translateDescriptor tables (fun _ _ => rfl) h (fun hd => absurd hd hhandle)
        (fun _ => preserves_tables_translateStaticBuffer)
        (fun _ => preserves_tables_translateMappedBuffer)
    rw [htables]
    exact .refl

/-- The tables are sound wherever the loop comes. -/
theorem sound_of_reaches (hsound : ∀ p, TableSound (tables s p))
    (h : TranslationReaches parties s srcAddress dstAddress reply j t) :
    ∀ p, TableSound (tables t p) := by
  suffices hboth : TranslationReaches parties s srcAddress dstAddress reply j t ∧
      ∀ p, TableSound (tables t p) from hboth.2
  apply Reaches.invariant (fun j t => TranslationReaches parties s srcAddress dstAddress reply j t ∧
    ∀ p, TableSound (tables t p)) ⟨.start, hsound⟩ ?_ h
  rintro k v n v' ⟨hreaches, hv⟩ hk hround
  exact ⟨.round hreaches hk hround, fun p => (called_round hreaches hround p).sound (hv p)⟩

/-- The state in which a handle is translated: the tables are sound, and the words from the handle on
are those of the command. -/
theorem translatesHandle_state (hsound : ∀ p, TableSound (tables s p))
    (h : TranslatesHandle parties s srcAddress dstAddress reply j i t t') :
    (∀ p, TableSound (tables t p)) ∧ t.cmdBuf i = commandWord parties s srcAddress i := by
  obtain ⟨t₀, hreaches, heach⟩ := h.reaches
  have hbehind := h.behind
  have hhandles := called_handles (fun hmove => ?_) heach
  · refine ⟨fun p => (hhandles.1 p).sound (sound_of_reaches hsound hreaches p), ?_⟩
    rw [hhandles.2 i (Or.inr (by omega))]
    exact words_of_reaches hreaches (by omega)
  · rw [hmove] at hbehind
    have hone : handleNumberFromDesc MoveHandle = 1 := rfl
    omega

/-- What is left of a translation after its loop. -/
theorem returns_translateCommandBuffer
    (h : Returns (translateCommandBuffer parties srcAddress dstAddress reply) s .success u) :
    ∃ u', Returns (walk (commandSize (headerAt parties s srcAddress))
        (translateDescriptor parties reply dstAddress (commandSize (headerAt parties s srcAddress)))
        (untranslatedSize (headerAt parties s srcAddress)))
        (fetchCommand parties s srcAddress (commandSize (headerAt parties s srcAddress))) () u' ∧
      tables u = tables u' ∧ u.cmdBuf = u'.cmdBuf := by
  have hrecord : ∀ v v' : IpcState Proc Obj Mem, Returns (record parties.shouldRecord .cmdBuf
      (commandSize (headerAt parties s srcAddress))) v () v' → v' = v := by
    intro v v' hrecord
    unfold record at hrecord
    split at hrecord
    · exact (returns_touch.mp hrecord).symm
    · exact (returns_pure.mp hrecord).2.symm
  unfold translateCommandBuffer at h
  obtain ⟨_, _, hget, h⟩ := returns_bind.mp h
  obtain ⟨rfl, rfl⟩ := returns_get.mp hget
  obtain ⟨_, _, hassert, h⟩ := returns_bind.mp h
  obtain ⟨-, rfl⟩ := returns_exec.mp hassert
  obtain ⟨_, _, htouch, h⟩ := returns_bind.mp h
  obtain rfl := returns_touch.mp htouch
  obtain ⟨_, _, hfetch, h⟩ := returns_bind.mp h
  obtain rfl := returns_modify.mp hfetch
  obtain ⟨_, v, hbefore, hrest⟩ := returns_bind.mp h
  obtain rfl := hrecord _ _ hbefore
  obtain ⟨_, u', hwalk, hend⟩ := returns_bind.mp hrest
  refine ⟨u', hwalk, ?_⟩
  obtain ⟨_, v, hafter, hend'⟩ := returns_bind.mp hend
  obtain rfl := hrecord _ _ hafter
  obtain ⟨_, _, htouched, hwritten⟩ := returns_bind.mp hend'
  obtain rfl := returns_touch.mp htouched
  obtain ⟨_, _, hwrite, hpure⟩ := returns_bind.mp hwritten
  obtain rfl := returns_modify.mp hwrite
  obtain ⟨-, rfl⟩ := returns_pure.mp hpure
  exact ⟨rfl, rfl⟩

/-- The calls on a table that are made behind a descriptor. -/
def callsBehind (parties : IpcParties Proc Obj Mem) (s : IpcState Proc Obj Mem)
    (srcAddress dstAddress : ℕ) (reply : Bool) (j : ℕ) (p : Proc) (c : HandleCall Obj) : Prop :=
  (p = parties.dst ∧ ∃ object, c = .create object) ∨
    (p = parties.src ∧ ∃ h, MovedBehind parties s srcAddress dstAddress reply j h ∧ c = .close h)

/-- What is still done after a handle has been translated. -/
theorem called_behind
    (hrun : Returns (translateCommandBuffer parties srcAddress dstAddress reply) s .success u)
    (h : TranslatesHandle parties s srcAddress dstAddress reply j i t t') :
    (∀ p, Called (callsBehind parties s srcAddress dstAddress reply j p) (tables t' p)
      (tables u p)) ∧ u.cmdBuf i = t'.cmdBuf i := by
  obtain ⟨u', hwalk, htables, hwords⟩ := returns_translateCommandBuffer hrun
  obtain ⟨t₀, hreaches, hsteps⟩ := h.reaches
  have hbehind := h.behind
  have hword : t₀.cmdBuf j = commandWord parties s srcAddress j :=
    words_of_reaches hreaches (Nat.le_refl j)
  -- the rest of the descriptor that the handle stands behind
  have hfrom := (Reaches.returns_walk hreaches).mp hwalk
  rw [Touching.walk, if_pos h.inside] at hfrom
  obtain ⟨n, t₁, hround, hfrom⟩ := returns_bind.mp hfrom
  obtain ⟨hn, heach⟩ := returns_handles (hword.symm ▸ h.isHandle) hround
  rw [hword] at hn heach
  have hindex : j + 1 + (i - (j + 1)) = i := by omega
  have hrest := returns_each_rest (by omega) heach hsteps (hindex.symm ▸ h.returns)
  rw [hindex] at hrest
  have hstart : (∀ p, Called (callsBehind parties s srcAddress dstAddress reply j p) (tables t' p)
      (tables t₁ p)) ∧ t₁.cmdBuf i = t'.cmdBuf i := by
    by_cases hmove : commandWord parties s srcAddress j = MoveHandle
    · have hone : handleNumberFromDesc MoveHandle = 1 := rfl
      rw [hmove, hone] at hn hbehind
      have hnone : n - (i - (j + 1) + 1) = 0 := by omega
      rw [hnone] at hrest
      obtain ⟨-, rfl⟩ := returns_pure.mp hrest
      exact ⟨fun _ => .refl, rfl⟩
    · have hkept := called_handles (fun hmove' => absurd hmove' hmove) hrest
      refine ⟨fun p => (hkept.1 p).mono ?_, hkept.2 i (Or.inl (Nat.lt_succ_self i))⟩
      rintro c (hcreate | ⟨-, hmove', -⟩)
      · exact Or.inl hcreate
      · exact absurd hmove' hmove
  -- the descriptors behind it
  rw [htables, hwords]
  let inv := fun k v =>
    TranslationReaches parties s srcAddress dstAddress reply k v ∧ j < k ∧ i < k ∧
      (∀ p, Called (callsBehind parties s srcAddress dstAddress reply j p) (tables t' p)
        (tables v p)) ∧ v.cmdBuf i = t'.cmdBuf i
  suffices hend : ∃ k, inv k u' by
    obtain ⟨k, -, -, -, hcalled, hsame⟩ := hend
    exact ⟨hcalled, hsame⟩
  refine returns_walk_invariant inv ?_ ?_ hfrom
  · rintro k v m v' ⟨hreach, hjk, hik, hcalled, hsame⟩ hk hnext
    refine ⟨.round hreach hk hnext, by omega, by omega, fun p => ?_, ?_⟩
    · refine (hcalled p).trans ((called_round hreach hnext p).mono ?_)
      rintro c (hcreate | ⟨hp, hmove, rfl⟩)
      · exact Or.inl hcreate
      · exact Or.inr ⟨hp, _, ⟨k, v, hreach, hjk, hk, hmove, rfl⟩, rfl⟩
    · rw [← hsame]
      exact word_translateDescriptor hnext (Or.inl (by omega))
  · exact ⟨.round hreaches h.inside hround, by omega, by omega, hstart⟩

omit [DecidableEq Proc] in
theorem tables_sound (h : TablesReached s) (p : Proc) : TableSound (tables s p) := by
  obtain ⟨calls, hcalls⟩ := h p
  have htable : tables s p = after .init calls := hcalls
  rw [htable]
  exact sound_after sound_init calls

/-- What becomes of a handle of its own that the source lists. -/
theorem handleTransferred (hsound : ∀ p, TableSound (tables s p))
    (hrun : Returns (translateCommandBuffer parties srcAddress dstAddress reply) s .success u)
    (h : TranslatesHandle parties s srcAddress dstAddress reply j i t t')
    (hown : OwnHandle (sourceTable parties t) (commandWord parties s srcAddress i))
    (hmoves : getDescriptorType (commandWord parties s srcAddress j) = .moveHandle →
      commandWord parties s srcAddress j = MoveHandle ∧ (parties.src = parties.dst →
        (sourceTable parties t).nextGeneration ≠
          getGeneration (commandWord parties s srcAddress i))) :
    HandleTransferred parties s srcAddress dstAddress reply j i t t' u := by
  obtain ⟨hsound', hword⟩ := translatesHandle_state hsound h
  obtain ⟨hcalled, hkept⟩ := called_behind hrun h
  have hsound'' := fun p => (called_translateHandle h.returns p).sound (hsound' p)
  have hmoveType : getDescriptorType MoveHandle = .moveHandle := by decide
  rw [← hword] at hown hmoves
  have hmoved : getDescriptorType (commandWord parties s srcAddress j) = .moveHandle →
      (tables t' parties.src).isValid (t.cmdBuf i) = false := by
    intro hkind
    obtain ⟨hone, hanew⟩ := hmoves hkind
    exact (moved_translateHandle hown (hone ▸ h.returns)).mpr hanew
  have hcopied : getDescriptorType (commandWord parties s srcAddress j) = .copyHandle →
      (tables t' parties.src).isValid (t.cmdBuf i) = true := by
    intro hkind
    apply kept_translateHandle hsound' hown.valid h.returns
    intro hone
    rw [hone, hmoveType] at hkind
    cases hkind
  refine ⟨hkept, ?_, ?_, ?_⟩
  · obtain ⟨object, hgeneric, hfresh⟩ := fresh_translateHandle hsound' hown h.returns
      fun hone => (hmoves (hone ▸ hmoveType)).2
    refine ⟨object, hword ▸ hgeneric, hfresh, fun hne ct cp => ?_⟩
    rw [hkept]
    refine fresh_resolves hfresh (hsound'' _) (hcalled parties.dst) ?_ ct cp
    rintro c (⟨-, other, rfl⟩ | ⟨hsame, -⟩)
    · exact id
    · exact absurd hsame.symm hne
  · intro hkind
    rw [← hword]
    refine ⟨hmoved hkind, fun hne => ?_⟩
    refine (hcalled parties.src).notValid ?_ (hmoved hkind)
    rintro c (⟨hsame, -⟩ | ⟨-, other, -, rfl⟩)
    · exact absurd hsame hne
    · exact ⟨other, rfl⟩
  · intro hkind
    rw [← hword]
    refine ⟨hcopied hkind, fun hne hother => ?_⟩
    have hvalid := hcopied hkind
    obtain ⟨object, hobject⟩ := Option.isSome_iff_exists.mp (isValid_iff.mp hvalid).2.1
    refine ((hcalled parties.src).kept (hsound'' _) ?_ hvalid hobject).1
    rintro c (⟨-, object, rfl⟩ | ⟨-, other, hbehind, rfl⟩)
    · exact id
    · exact hother other hbehind

theorem translationTransfers_iff (hsound : ∀ p, TableSound (tables s p))
    (hrun : Returns (translateCommandBuffer parties srcAddress dstAddress reply) s .success u) :
    TranslationTransfers parties s srcAddress dstAddress reply u ↔
      MovesOneByOne parties s srcAddress dstAddress reply := by
  constructor
  · intro h j i t t' hstep hown hkind
    have hmoved := ((h j i t t' hstep hown).moved hkind).1
    obtain ⟨hsound', hword⟩ := translatesHandle_state hsound hstep
    rw [← hword] at hown hmoved ⊢
    by_cases hone : commandWord parties s srcAddress j = MoveHandle
    · exact ⟨hone, (moved_translateHandle hown (hone ▸ hstep.returns)).mp hmoved⟩
    · have hvalid := kept_translateHandle hsound' hown.valid hstep.returns hone
      have hsame : (tables t' parties.src).isValid (t.cmdBuf i) = false := hmoved
      rw [hvalid] at hsame
      cases hsame
  · intro h j i t t' hstep hown
    exact handleTransferred hsound hrun hstep hown (h j i t t' hstep hown)

end Translation

end Borked3DS.Analysis
