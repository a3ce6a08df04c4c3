import Borked3DS.Analysis.HandleTransfers

/-!
# Handles that are taken out of requests

An emulated service gets the objects themselves, under their indices in its context; the source's
table is worked on as in a translation between processes. With both, when handles are handed over.
-/

set_option autoImplicit false

namespace Borked3DS.Analysis

open Borked3DS.Library Borked3DS.Library.Touching Borked3DS.Model Borked3DS.Model.IPC
open Borked3DS.Model.Ipc Borked3DS.Interface HandleTable

/-! ## Requests -/

section Request

open HLERequestContext

variable {Proc Obj Mem : Type} [DecidableEq Proc] {parties : IpcParties Proc Obj Mem}
  {s t t' u : IpcState Proc Obj Mem} {srcCmdbuf : ℕ → ℕ} {descriptor i j n : ℕ}

omit [DecidableEq Proc] in
theorem returns_readSrcCmdbuf {word : ℕ} :
    Returns (readSrcCmdbuf srcCmdbuf i : Ipc Proc Obj Mem ℕ) t word t' ↔
      srcCmdbuf i = word ∧ t = t' := by
  simp [readSrcCmdbuf, returns_bind]

/-- What taking a handle out of a request does. -/
theorem returns_populateHandle
    (h : Returns (populateHandle parties srcCmdbuf descriptor i) t () t') :
    ∃ object, (srcCmdbuf i ≠ 0 → object = (tables t parties.src).getGeneric parties.currentThread
        parties.currentProcess (srcCmdbuf i)) ∧
      t'.requestHandles = t.requestHandles ++ [object] ∧
      t'.cmdBuf = Function.update t.cmdBuf i (u32 t.requestHandles.length) ∧
      tables t' = Function.update (tables t) parties.src
        (if srcCmdbuf i ≠ 0 ∧ descriptor = MoveHandle then
          ((HandleCall.close (srcCmdbuf i)).exec (tables t parties.src)).2
        else tables t parties.src) := by
  unfold populateHandle at h
  obtain ⟨_, _, hread, h⟩ := returns_bind.mp h
  obtain ⟨rfl, rfl⟩ := returns_readSrcCmdbuf.mp hread
  obtain ⟨_, _, hget, h⟩ := returns_bind.mp h
  obtain ⟨rfl, rfl⟩ := returns_get.mp hget
  obtain ⟨_, t₀, hassert, h⟩ := returns_bind.mp h
  obtain ⟨-, rfl⟩ := returns_exec.mp hassert
  obtain ⟨_, t₁, hclose, hrest⟩ := returns_bind.mp h
  obtain ⟨id, t₂, hadd, hwrite⟩ := returns_bind.mp hrest
  have hhandles : t₁.requestHandles = t.requestHandles := by
    obtain rfl := returns_modify.mp hclose
    rfl
  have hwords : t₁.cmdBuf = t.cmdBuf := by
    obtain rfl := returns_modify.mp hclose
    rfl
  have htables := tables_closeMoved hclose
  obtain rfl := returns_writeCmdBuf hwrite
  unfold addOutgoingHandle at hadd
  obtain ⟨_, t₃, hpush, hadd⟩ := returns_bind.mp hadd
  obtain rfl := returns_modify.mp hpush
  obtain ⟨_, _, hget', hpure⟩ := returns_bind.mp hadd
  obtain ⟨rfl, rfl⟩ := returns_get.mp hget'
  obtain ⟨rfl, rfl⟩ := returns_pure.mp hpure
  refine ⟨if srcCmdbuf i ≠ 0 then (tables t parties.src).getGeneric parties.currentThread
    parties.currentProcess (srcCmdbuf i) else none, fun hnull => if_pos hnull, ?_, ?_, ?_⟩
  · dsimp only
    rw [hhandles]
    rfl
  · dsimp only
    rw [hwords, hhandles, List.length_append, List.length_singleton, Nat.add_sub_cancel]
  · simp only [decide_eq_true_eq] at htables
    exact htables

/-- The calls on the source's table that taking a handle out of a request makes. -/
def closeCalls (descriptor handle : ℕ) (c : HandleCall Obj) : Prop :=
  descriptor = MoveHandle ∧ c = .close handle

theorem called_populateHandle
    (h : Returns (populateHandle parties srcCmdbuf descriptor i) t () t') :
    Called (closeCalls descriptor (srcCmdbuf i)) (tables t parties.src)
      (tables t' parties.src) := by
  obtain ⟨object, -, -, -, htables⟩ := returns_populateHandle h
  rw [htables, Function.update_self]
  split
  next hmoved => exact Called.exec ⟨hmoved.2, rfl⟩
  next => exact .refl

theorem returns_populatedHandles {commandSize : ℕ} (hhandle : isHandleDescriptor (srcCmdbuf j))
    (h : Returns (populateDescriptor parties srcCmdbuf commandSize j) t n t') :
    n = handleNumberFromDesc (srcCmdbuf j) ∧ j + 1 + n ≤ commandSize ∧
      Returns (each (populateHandle parties srcCmdbuf (srcCmdbuf j)) n (j + 1))
        { t with cmdBuf := Function.update t.cmdBuf j (srcCmdbuf j) } () t' := by
  unfold populateDescriptor at h
  obtain ⟨_, _, hread, h⟩ := returns_bind.mp h
  obtain ⟨rfl, rfl⟩ := returns_readSrcCmdbuf.mp hread
  obtain ⟨_, _, hwrite, hrest⟩ := returns_bind.mp h
  obtain rfl := returns_writeCmdBuf hwrite
  dsimp only at hrest
  rcases hhandle with hkind | hkind
  all_goals
    rw [hkind] at hrest
    dsimp only at hrest
    obtain ⟨_, _, hassert, hrest⟩ := returns_bind.mp hrest
    obtain ⟨hfits, rfl⟩ := returns_exec.mp hassert
    obtain ⟨_, _, heach, hpure⟩ := returns_bind.mp hrest
    obtain ⟨rfl, rfl⟩ := returns_pure.mp hpure
    exact ⟨rfl, assert_eq_ok.mp hfits, heach⟩

/-- A round at a descriptor of another kind writes two words, static buffers and mapped buffers. -/
theorem kept_populateDescriptor {ω : Type} (view : IpcState Proc Obj Mem → ω) {commandSize : ℕ}
    (hwords : ∀ v k word, j ≤ k →
      view { v with cmdBuf := Function.update v.cmdBuf k word } = view v)
    (hstatic : ∀ v buffers, view { v with staticBuffers := buffers } = view v)
    (hmapped : ∀ v buffers, view { v with requestMappedBuffers := buffers } = view v)
    (hhandle : ¬ isHandleDescriptor (srcCmdbuf j))
    (h : Returns (populateDescriptor parties srcCmdbuf commandSize j) t n t') :
    view t' = view t := by
  have hwrite : ∀ k word, j ≤ k → Preserves view (writeCmdBuf k word : Ipc Proc Obj Mem Unit) := by
    intro k word hk v _ v' hreturn
    rw [returns_writeCmdBuf hreturn]
    exact hwords v k word hk
  have hread : ∀ k, Preserves view (readSrcCmdbuf srcCmdbuf k : Ipc Proc Obj Mem ℕ) := by
    intro k v word v' hreturn
    rw [(returns_readSrcCmdbuf.mp hreturn).2]
  unfold populateDescriptor at h
  obtain ⟨_, _, hfirst, h⟩ := returns_bind.mp h
  obtain ⟨rfl, rfl⟩ := returns_readSrcCmdbuf.mp hfirst
  obtain ⟨_, t₁, hcopy, hrest⟩ := returns_bind.mp h
  rw [← hwrite j _ (Nat.le_refl j) _ _ _ hcopy]
  dsimp only at hrest
  cases hkind : getDescriptorType (srcCmdbuf j) with
  | copyHandle => exact absurd (Or.inl hkind) hhandle
  | moveHandle => exact absurd (Or.inr hkind) hhandle
  | callingPid =>
    rw [hkind] at hrest
    refine Preserves.get.bind (fun v => ?_) _ _ _ hrest
    exact (hwrite _ _ (Nat.le_succ j)).bind fun _ => Preserves.pure _
  | staticBuffer =>
    rw [hkind] at hrest
    refine Preserves.bind (hread _) (fun address => ?_) _ _ _ hrest
    refine Preserves.bind (Preserves.modify fun v => hstatic v _) fun _ => ?_
    exact (hwrite _ _ (Nat.le_succ j)).bind fun _ => Preserves.pure _
  | mappedBuffer =>
    rw [hkind] at hrest
    refine Preserves.get.bind (fun v => ?_) _ _ _ hrest
    refine Preserves.bind (hread _) fun address => ?_
    refine Preserves.bind (Preserves.modify fun v => hmapped v _) fun _ => ?_
    exact (hwrite _ _ (Nat.le_succ j)).bind fun _ => Preserves.pure _
  | pxiBuffer | unnamed =>
    rw [hkind] at hrest
    exact Preserves.pure _ _ _ _ hrest

/-- What a part of the call does to the source's table, to the words and to the objects: the words
below an index stay as they are, and some objects are added. -/
structure RequestGoesOn (parties : IpcParties Proc Obj Mem) (kind : HandleCall Obj → Prop)
    (k added : ℕ) (t t' : IpcState Proc Obj Mem) : Prop where
  called : Called kind (tables t parties.src) (tables t' parties.src)
  words : ∀ k' < k, t'.cmdBuf k' = t.cmdBuf k'
  handles : t.requestHandles <+: t'.requestHandles
  count : t'.requestHandles.length ≤ t.requestHandles.length + added

section GoesOn

variable {kind kind' : HandleCall Obj → Prop} {k k' added added' : ℕ}
  {t'' : IpcState Proc Obj Mem}

omit [DecidableEq Proc] in
theorem RequestGoesOn.refl : RequestGoesOn parties kind k added t t :=
  ⟨.refl, fun _ _ => rfl, List.prefix_rfl, Nat.le_add_right _ _⟩

omit [DecidableEq Proc] in
theorem RequestGoesOn.trans (h : RequestGoesOn parties kind k added t t')
    (h' : RequestGoesOn parties kind k added' t' t'') :
    RequestGoesOn parties kind k (added + added') t t'' := by
  refine ⟨h.called.trans h'.called, fun k' hk' => (h'.words k' hk').trans (h.words k' hk'),
    h.handles.trans h'.handles, ?_⟩
  have hfirst := h.count
  have hsecond := h'.count
  omega

omit [DecidableEq Proc] in
theorem RequestGoesOn.mono (h : RequestGoesOn parties kind k added t t')
    (hkind : ∀ c, kind c → kind' c) (hk : k' ≤ k) : RequestGoesOn parties kind' k' added t t' :=
  ⟨h.called.mono hkind, fun j hj => h.words j (by omega), h.handles, h.count⟩

theorem goesOn_handle
    (h : Returns (populateHandle parties srcCmdbuf descriptor i) t () t') :
    RequestGoesOn parties (closeCalls descriptor (srcCmdbuf i)) i 1 t t' := by
  have hcalled := called_populateHandle h
  obtain ⟨object, -, hhandles, hwords, -⟩ := returns_populateHandle h
  refine ⟨hcalled, fun k hk => ?_, ?_, ?_⟩
  · rw [hwords]
    exact Function.update_of_ne (by omega) _ _
  · rw [hhandles]
    exact List.prefix_append _ _
  · rw [hhandles]
    simp

theorem goesOn_handles {m : ℕ} (hone : descriptor = MoveHandle → m ≤ 1)
    (h : Returns (each (populateHandle parties srcCmdbuf descriptor) m i) t () t') :
    RequestGoesOn parties (closeCalls descriptor (srcCmdbuf i)) i m t t' := by
  have hgoesOn := returns_each_invariant
    (fun k v => RequestGoesOn parties (closeCalls descriptor (srcCmdbuf i)) i (k - i) t v) ?_
    .refl h
  · rw [Nat.add_sub_cancel_left] at hgoesOn
    exact hgoesOn
  · intro k v v' hle hlt hgoesOn hstep
    rw [Nat.succ_sub hle]
    refine hgoesOn.trans ((goesOn_handle hstep).mono ?_ hle)
    rintro c ⟨hmove, rfl⟩
    have hk : k = i := by
      have hm := hone hmove
      omega
    exact ⟨hmove, by rw [hk]⟩

theorem goesOn_round {commandSize : ℕ}
    (h : Returns (populateDescriptor parties srcCmdbuf commandSize j) t n t') :
    RequestGoesOn parties (closeCalls (srcCmdbuf j) (srcCmdbuf (j + 1))) j n t t' := by
  by_cases hhandle : isHandleDescriptor (srcCmdbuf j)
  · obtain ⟨rfl, -, heach⟩ := returns_populatedHandles hhandle h
    have hhandles := goesOn_handles (fun hmove => ?_) heach
    · refine ⟨hhandles.called, fun k hk => ?_, hhandles.handles, hhandles.count⟩
      rw [hhandles.words k (by omega)]
      exact Function.update_of_ne (by omega) _ _
    · rw [hmove]
      decide
  · have hkept : ∀ k < j, t'.cmdBuf k = t.cmdBuf k := fun k hk =>
      kept_populateDescriptor (fun v => v.cmdBuf k)
        (fun v k' word hk' => Function.update_of_ne (by omega) _ _) (fun _ _ => rfl)
        (fun _ _ => rfl) hhandle h
    have hboth : (tables t' parties.src, t'.requestHandles) =
        (tables t parties.src, t.requestHandles) :=
      kept_populateDescriptor (fun v => (tables v parties.src, v.requestHandles))
        (fun _ _ _ _ => rfl) (fun _ _ => rfl) (fun _ _ => rfl) hhandle h
    obtain ⟨htable, hhandles⟩ := Prod.mk.inj hboth
    refine ⟨htable ▸ .refl, hkept, hhandles ▸ List.prefix_rfl, ?_⟩
    rw [hhandles]
    exact Nat.le_add_right _ _

end GoesOn

/-- Wherever the loop comes, no more objects have been added than words have been passed. -/
theorem goesOn_reaches (h : RequestReaches parties s srcCmdbuf j t) :
    RequestGoesOn parties (fun _ => True) 0 j s t := by
  refine Reaches.invariant (fun j v => RequestGoesOn parties (fun _ => True) 0 j s v) ?_ ?_ h
  · exact ⟨.refl, fun k hk => absurd hk (Nat.not_lt_zero k), List.prefix_rfl, Nat.le_add_right _ _⟩
  · intro k v n v' hgoesOn _ hround
    have hnext := hgoesOn.trans ((goesOn_round hround).mono (fun _ _ => trivial) (Nat.zero_le k))
    refine ⟨hnext.called, hnext.words, hnext.handles, ?_⟩
    have hcount := hnext.count
    omega

/-- The state in which a handle is taken out. -/
theorem populatesHandle_state (hsound : TableSound (tables s parties.src))
    (h : PopulatesHandle parties s srcCmdbuf j i t t') :
    TableSound (tables t parties.src) ∧
      t.requestHandles.length ≤ s.requestHandles.length + i := by
  obtain ⟨t₀, hreaches, heach⟩ := h.reaches
  have hbehind := h.behind
  have hreached := goesOn_reaches hreaches
  have hhandles := goesOn_handles (fun hmove => ?_) heach
  · refine ⟨hhandles.called.sound (hreached.called.sound hsound), ?_⟩
    have hfirst := hreached.count
    have hsecond := hhandles.count
    dsimp only at hsecond
    omega
  · rw [hmove] at hbehind
    have hone : handleNumberFromDesc MoveHandle = 1 := rfl
    omega

/-- What is left of the call after its loop. -/
theorem returns_populate
    (h : Returns (populateFromIncomingCommandBuffer parties srcCmdbuf) s .success u) :
    commandSize (srcCmdbuf 0) ≤ COMMAND_BUFFER_LENGTH ∧
      Returns (walk (commandSize (srcCmdbuf 0))
        (populateDescriptor parties srcCmdbuf (commandSize (srcCmdbuf 0)))
        (untranslatedSize (srcCmdbuf 0)))
        (copyIncoming srcCmdbuf (untranslatedSize (srcCmdbuf 0)) s) () u := by
  have hrecord : ∀ (area : CommandArea) (v v' : IpcState Proc Obj Mem),
      Returns (record parties.shouldRecord area (commandSize (srcCmdbuf 0))) v () v' → v' = v := by
    intro area v v' hrecord
    unfold record at hrecord
    split at hrecord
    · exact (returns_touch.mp hrecord).symm
    · exact (returns_pure.mp hrecord).2.symm
  unfold populateFromIncomingCommandBuffer at h
  obtain ⟨_, _, hread, h⟩ := returns_bind.mp h
  obtain ⟨rfl, rfl⟩ := returns_readSrcCmdbuf.mp hread
  obtain ⟨_, _, hassert, h⟩ := returns_bind.mp h
  obtain ⟨hfits, rfl⟩ := returns_exec.mp hassert
  obtain ⟨_, _, htouch, h⟩ := returns_bind.mp h
  obtain rfl := returns_touch.mp htouch
  obtain ⟨_, _, htouch, h⟩ := returns_bind.mp h
  obtain rfl := returns_touch.mp htouch
  obtain ⟨_, _, hcopy, h⟩ := returns_bind.mp h
  obtain rfl := returns_modify.mp hcopy
  obtain ⟨_, v, hbefore, hrest⟩ := returns_bind.mp h
  obtain rfl := hrecord _ _ _ hbefore
  obtain ⟨_, u', hwalk, hend⟩ := returns_bind.mp hrest
  obtain ⟨_, v, hafter, hpure⟩ := returns_bind.mp hend
  obtain rfl := hrecord _ _ _ hafter
  obtain ⟨-, rfl⟩ := returns_pure.mp hpure
  exact ⟨assert_eq_ok.mp hfits, hwalk⟩

/-- The calls on the source's table that are made behind a descriptor. -/
def closesBehind (parties : IpcParties Proc Obj Mem) (s : IpcState Proc Obj Mem)
    (srcCmdbuf : ℕ → ℕ) (j : ℕ) (c : HandleCall Obj) : Prop :=
  ∃ h, MovedBehindInRequest parties s srcCmdbuf j h ∧ c = .close h

/-- What is still done after a handle has been taken out; there is a word for each handle. -/
theorem goesOn_behind
    (hrun : Returns (populateFromIncomingCommandBuffer parties srcCmdbuf) s .success u)
    (h : PopulatesHandle parties s srcCmdbuf j i t t') :
    i < COMMAND_BUFFER_LENGTH ∧
      ∃ added, RequestGoesOn parties (closesBehind parties s srcCmdbuf j) (i + 1) added t' u := by
  obtain ⟨hsize, hwalk⟩ := returns_populate hrun
  obtain ⟨t₀, hreaches, hsteps⟩ := h.reaches
  have hbehind := h.behind
  -- the rest of the descriptor that the handle stands behind
  have hfrom := (Reaches.returns_walk hreaches).mp hwalk
  rw [Touching.walk, if_pos h.inside] at hfrom
  obtain ⟨n, t₁, hround, hfrom⟩ := returns_bind.mp hfrom
  obtain ⟨hn, hfits, heach⟩ := returns_populatedHandles h.isHandle hround
  have hindex : j + 1 + (i - (j + 1)) = i := by omega
  have hrest := returns_each_rest (by omega) heach hsteps (hindex.symm ▸ h.returns)
  rw [hindex] at hrest
  refine ⟨by omega, ?_⟩
  have hstart : RequestGoesOn parties (closesBehind parties s srcCmdbuf j) (i + 1)
      (n - (i - (j + 1) + 1)) t' t₁ := by
    by_cases hmove : srcCmdbuf j = MoveHandle
    · have hone : handleNumberFromDesc MoveHandle = 1 := rfl
      rw [hmove, hone] at hn hbehind
      have hnone : n - (i - (j + 1) + 1) = 0 := by omega
      rw [hnone] at hrest ⊢
      obtain ⟨-, rfl⟩ := returns_pure.mp hrest
      exact .refl
    · refine (goesOn_handles (fun hmove' => absurd hmove' hmove) hrest).mono ?_ (Nat.le_refl _)
      rintro c ⟨hmove', -⟩
      exact absurd hmove' hmove
  -- the descriptors behind it
  let inv := fun k v => RequestReaches parties s srcCmdbuf k v ∧ j < k ∧ i < k ∧
    ∃ added, RequestGoesOn parties (closesBehind parties s srcCmdbuf j) (i + 1) added t' v
  suffices hend : ∃ k, inv k u by
    obtain ⟨k, -, -, -, hgoesOn⟩ := hend
    exact hgoesOn
  refine returns_walk_invariant inv ?_ ?_ hfrom
  · rintro k v m v' ⟨hreach, hjk, hik, added, hgoesOn⟩ hk hnext
    refine ⟨.round hreach hk hnext, by omega, by omega, added + m, ?_⟩
    refine hgoesOn.trans ((goesOn_round hnext).mono ?_ hik)
    rintro c ⟨hmove, rfl⟩
    exact ⟨_, ⟨k, v, hreach, hjk, hk, hmove, rfl⟩, rfl⟩
  · exact ⟨.round hreaches h.inside hround, by omega, by omega, _, hstart⟩

/-- What taking out does to a handle of its own that the source lists. -/
theorem valid_populateHandle (hown : OwnHandle (tables t parties.src) (srcCmdbuf i))
    (h : Returns (populateHandle parties srcCmdbuf descriptor i) t () t') :
    (tables t' parties.src).isValid (srcCmdbuf i) = decide (descriptor ≠ MoveHandle) := by
  obtain ⟨object, -, -, -, htables⟩ := returns_populateHandle h
  rw [htables, Function.update_self]
  by_cases hmove : descriptor = MoveHandle
  · subst hmove
    rw [if_pos ⟨hown.notNull, rfl⟩]
    have hclose := close_eq_ok.mpr ⟨hown.valid, rfl⟩
    dsimp only [HandleCall.exec]
    rw [hclose]
    simp [isValid]
  · rw [if_neg fun hmoved => hmove hmoved.2, hown.valid]
    simp [hmove]

/-- What becomes of a handle of its own that the source lists. -/
theorem handlePopulated (hsound : TableSound (tables s parties.src))
    (hroom : s.requestHandles.length + COMMAND_BUFFER_LENGTH ≤ 2 ^ 32)
    (hrun : Returns (populateFromIncomingCommandBuffer parties srcCmdbuf) s .success u)
    (h : PopulatesHandle parties s srcCmdbuf j i t t')
    (hown : OwnHandle (sourceTable parties t) (srcCmdbuf i))
    (hmoves : getDescriptorType (srcCmdbuf j) = .moveHandle → srcCmdbuf j = MoveHandle) :
    HandlePopulated parties s srcCmdbuf j i t t' u := by
  obtain ⟨hsound', hcount⟩ := populatesHandle_state hsound h
  obtain ⟨hlast, added, hgoesOn⟩ := goesOn_behind hrun h
  have hsound'' := (called_populateHandle h.returns).sound hsound'
  have hvalid := valid_populateHandle hown h.returns
  refine ⟨?_, ?_, ?_⟩
  · obtain ⟨object, -, hgeneric, -⟩ := own_object parties hown
    obtain ⟨found, hfound, hhandles, hwords, -⟩ := returns_populateHandle h.returns
    have hobject : found = some object := (hfound hown.notNull).trans (hgeneric _ _)
    rw [hobject] at hhandles
    have hword : u.cmdBuf i = t.requestHandles.length := by
      rw [hgoesOn.words i (Nat.lt_succ_self i), hwords, Function.update_self]
      exact Nat.mod_eq_of_lt (by omega)
    refine ⟨object, hgeneric, hhandles, hword, ?_⟩
    rw [hword]
    obtain ⟨later, hlater⟩ := hgoesOn.handles
    rw [← hlater, hhandles, List.append_assoc]
    simp
  · intro hkind
    rw [hmoves hkind] at hvalid
    refine ⟨hvalid, hgoesOn.called.notValid ?_ hvalid⟩
    rintro c ⟨other, -, rfl⟩
    exact ⟨other, rfl⟩
  · intro hkind
    have hother : srcCmdbuf j ≠ MoveHandle := by
      intro hone
      rw [hone] at hkind
      cases hkind
    rw [decide_eq_true hother] at hvalid
    refine ⟨hvalid, fun hbehind => ?_⟩
    obtain ⟨object, hobject⟩ := Option.isSome_iff_exists.mp (isValid_iff.mp hvalid).2.1
    refine (hgoesOn.called.kept hsound'' ?_ hvalid hobject).1
    rintro c ⟨other, hmoved, rfl⟩
    exact hbehind other hmoved

theorem requestTransfers_iff (hsound : TableSound (tables s parties.src))
    (hroom : s.requestHandles.length + COMMAND_BUFFER_LENGTH ≤ 2 ^ 32)
    (hrun : Returns (populateFromIncomingCommandBuffer parties srcCmdbuf) s .success u) :
    RequestTransfers parties s srcCmdbuf u ↔ RequestMovesOneByOne parties s srcCmdbuf := by
  constructor
  · intro h j i t t' hstep hown hkind
    have hmoved := ((h j i t t' hstep hown).moved hkind).1
    have hvalid := valid_populateHandle hown hstep.returns
    have hsame : (tables t' parties.src).isValid (srcCmdbuf i) = false := hmoved
    rw [hvalid] at hsame
    exact of_not_not (of_decide_eq_false hsame)
  · intro h j i t t' hstep hown
    exact handlePopulated hsound hroom hrun hstep hown (h j i t t' hstep hown)

end Request

/-! ## The transfer of handles -/

/-- Handles are handed over exactly when those that are moved are moved one by one. -/
theorem handleTransfers_iff {Proc Obj Mem : Type} [DecidableEq Proc]
    (parties : IpcParties Proc Obj Mem) (s : IpcState Proc Obj Mem) (hreached : TablesReached s) :
    (∀ srcAddress dstAddress reply u,
      Returns (translateCommandBuffer parties srcAddress dstAddress reply) s .success u →
        (TranslationTransfers parties s srcAddress dstAddress reply u ↔
          MovesOneByOne parties s srcAddress dstAddress reply)) ∧
      ∀ srcCmdbuf u, s.requestHandles.length + COMMAND_BUFFER_LENGTH ≤ 2 ^ 32 →
        Returns (HLERequestContext.populateFromIncomingCommandBuffer parties srcCmdbuf) s
            .success u →
          (RequestTransfers parties s srcCmdbuf u ↔ RequestMovesOneByOne parties s srcCmdbuf) :=
  ⟨fun _ _ _ _ hrun => translationTransfers_iff (tables_sound hreached) hrun,
    fun _ _ hroom hrun => requestTransfers_iff (tables_sound hreached _) hroom hrun⟩

/-! ## Two handles moved by one descriptor -/

section TwoHandles

/-- `MoveHandleDesc(2)` and two handles. -/
def moveCommand (i : ℕ) : ℕ :=
  if i = 0 then 3 else if i = 1 then 0x04000010 else if i = 2 then 1
  else if i = 3 then 0x8002 else 0

theorem moveCommand_reached : TablesReached (pairState moveCommand) := by
  intro p
  cases p with
  | false => exact ⟨[.create (), .create ()], rfl⟩
  | true => exact ⟨[], rfl⟩

theorem moveCommand_header : headerAt pairParties (pairState moveCommand) 0 = 3 := by
  decide

theorem moveCommand_words :
    commandWord pairParties (pairState moveCommand) 0 1 = 0x04000010 ∧
      commandWord pairParties (pairState moveCommand) 0 2 = 1 := by
  decide

theorem moveCommand_translated : ∃ u, Returns (translateCommandBuffer pairParties 0 0x100 false)
    (pairState moveCommand) .success u :=
  exists_returns (by decide +kernel)

theorem moveCommand_populated : ∃ u,
    Returns (HLERequestContext.populateFromIncomingCommandBuffer pairParties moveCommand)
      (pairState moveCommand) .success u :=
  exists_returns (by decide +kernel)

/-- Two handles are not moved one by one. -/
theorem moveCommand_together :
    ¬ MovesOneByOne pairParties (pairState moveCommand) 0 0x100 false := by
  intro h
  obtain ⟨hdescriptor, hhandle⟩ := moveCommand_words
  obtain ⟨t', hreturns⟩ : ∃ t', Returns (translateHandle pairParties 0x04000010 2)
      (fetchCommand pairParties (pairState moveCommand) 0 4) () t' :=
    exists_returns (by decide)
  have hstep : TranslatesHandle pairParties (pairState moveCommand) 0 0x100 false 1 2
      (fetchCommand pairParties (pairState moveCommand) 0 4) t' := by
    refine ⟨⟨_, ?_, returns_pure.mpr ⟨rfl, rfl⟩⟩, ?_, ?_, ?_, ?_⟩
    · unfold TranslationReaches
      rw [moveCommand_header]
      exact .start
    · rw [moveCommand_header]
      decide
    · rw [hdescriptor]
      exact Or.inr (by decide)
    · rw [hdescriptor]
      decide
    · rw [hdescriptor]
      exact hreturns
  have hone := (h 1 2 _ t' hstep (hhandle ▸ ⟨by decide, by decide, by decide⟩)
    (hdescriptor ▸ by decide)).1
  rw [hdescriptor] at hone
  cases hone

theorem moveCommand_togetherInRequest :
    ¬ RequestMovesOneByOne pairParties (pairState moveCommand) moveCommand := by
  intro h
  let start : IpcState Bool Unit (ℕ → UInt8) :=
    HLERequestContext.copyIncoming moveCommand 1 (pairState moveCommand)
  let copied := { start with cmdBuf := Function.update start.cmdBuf 1 0x04000010 }
  obtain ⟨t', hreturns⟩ : ∃ t', Returns
      (HLERequestContext.populateHandle pairParties moveCommand 0x04000010 2) copied () t' :=
    exists_returns (by decide)
  have hstep : PopulatesHandle pairParties (pairState moveCommand) moveCommand 1 2 copied t' :=
    ⟨⟨start, .start, returns_pure.mpr ⟨rfl, rfl⟩⟩, by decide, Or.inr (by decide), by decide,
      hreturns⟩
  have hone := h 1 2 _ t' hstep ⟨by decide, by decide, by decide⟩ (by decide)
  cases hone

/-- The source keeps its two handles in both cases. -/
theorem moveCommand_keepsHandles :
    (∃ u, Returns (translateCommandBuffer pairParties 0 0x100 false) (pairState moveCommand)
        .success u ∧
      ¬ TranslationTransfers pairParties (pairState moveCommand) 0 0x100 false u) ∧
    ∃ u, Returns (HLERequestContext.populateFromIncomingCommandBuffer pairParties moveCommand)
        (pairState moveCommand) .success u ∧
      ¬ RequestTransfers pairParties (pairState moveCommand) moveCommand u := by
  have hsound := tables_sound moveCommand_reached
  obtain ⟨u, hrun⟩ := moveCommand_translated
  obtain ⟨u', hrun'⟩ := moveCommand_populated
  constructor
  · refine ⟨u, hrun, fun h => moveCommand_together ?_⟩
    exact (translationTransfers_iff hsound hrun).mp h
  · refine ⟨u', hrun', fun h => moveCommand_togetherInRequest ?_⟩
    exact (requestTransfers_iff (hsound _) (by decide) hrun').mp h

/-- The equivalences for this command. -/
theorem handleTransfers_iff_moveCommand :
    (∃ u, Returns (translateCommandBuffer pairParties 0 0x100 false) (pairState moveCommand)
        .success u ∧
      (TranslationTransfers pairParties (pairState moveCommand) 0 0x100 false u ↔
        MovesOneByOne pairParties (pairState moveCommand) 0 0x100 false)) ∧
    ∃ u, Returns (HLERequestContext.populateFromIncomingCommandBuffer pairParties moveCommand)
        (pairState moveCommand) .success u ∧
      (RequestTransfers pairParties (pairState moveCommand) moveCommand u ↔
        RequestMovesOneByOne pairParties (pairState moveCommand) moveCommand) := by
  obtain ⟨u, hrun⟩ := moveCommand_translated
  obtain ⟨u', hrun'⟩ := moveCommand_populated
  have hboth := handleTransfers_iff pairParties (pairState moveCommand) moveCommand_reached
  exact ⟨⟨u, hrun, hboth.1 0 0x100 false u hrun⟩,
    ⟨u', hrun', hboth.2 moveCommand u' (by decide) hrun'⟩⟩

end TwoHandles

end Borked3DS.Analysis
