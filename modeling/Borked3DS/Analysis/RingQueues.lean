import Mathlib.Data.List.GetD
import Mathlib.Data.Nat.ModEq
import Mathlib.Tactic.Ring
import Borked3DS.Interface.RingQueue

/-!
# The ring buffer is a queue

Behind the indices stand two numbers that do not wrap: how many slots have been pushed and popped.
The thread that pushes writes behind the slots that are stored, the one that pops reads among them,
and a stale index of the other thread only makes them careful.
-/

set_option autoImplicit false

namespace Borked3DS.Analysis

open Borked3DS.Library Borked3DS.Model Borked3DS.Model.Ring Borked3DS.Interface

variable {T : Type} {c : RingConfig}

/-! ## Indices -/

section Indices

variable {pushed popped index count i : ℕ}

theorem capacity_pos (c : RingConfig) : 0 < c.capacity := Nat.two_pow_pos _

theorem capacity_lt_word (c : RingConfig) : c.capacity < 2 ^ c.bits := by
  have hlt : c.capacity < (2 ^ c.bits - 1) / 2 / c.granularity := c.capacity_lt
  have hdiv : (2 ^ c.bits - 1) / 2 / c.granularity ≤ 2 ^ c.bits - 1 :=
    le_trans (Nat.div_le_self _ _) (Nat.div_le_self _ _)
  omega

theorem capacity_dvd_word (c : RingConfig) : c.capacity ∣ 2 ^ c.bits := by
  have hlt : 2 ^ c.capacityLog < 2 ^ c.bits := capacity_lt_word c
  exact Nat.pow_dvd_pow 2 (Nat.le_of_lt ((Nat.pow_lt_pow_iff_right (by decide)).mp hlt))

/-- The place of an index does not depend on how often the index has wrapped. -/
theorem word_mod_capacity (index : ℕ) : index % 2 ^ c.bits % c.capacity = index % c.capacity :=
  Nat.mod_mod_of_dvd index (capacity_dvd_word c)

theorem firstCopy_word : c.firstCopy (index % 2 ^ c.bits) count = c.firstCopy index count := by
  unfold RingConfig.firstCopy
  rw [word_mod_capacity]

theorem firstCopy_le : c.firstCopy index count ≤ count := Nat.min_le_right _ _

/-- The difference of two words whose numbers are not far apart. -/
theorem mod_sub_mod (m x y extra : ℕ) (hle : y ≤ x + extra) (hlt : x + extra - y < m) :
    (extra + x % m + m - y % m) % m = x + extra - y := by
  have hmod : y % m < m := Nat.mod_lt _ (by omega)
  have hsum : Nat.ModEq m (extra + x % m + m - y % m + y) (x + extra - y + y) := by
    calc extra + x % m + m - y % m + y
        ≡ extra + x % m + m - y % m + y % m [MOD m] :=
          (Nat.ModEq.refl _).add (Nat.mod_modEq y m).symm
      _ = extra + x % m + m := by omega
      _ ≡ extra + x % m [MOD m] := Nat.add_modEq_right
      _ ≡ extra + x [MOD m] := (Nat.ModEq.refl _).add (Nat.mod_modEq x m)
      _ = x + extra - y + y := by omega
  have hsame : (extra + x % m + m - y % m) % m = (x + extra - y) % m :=
    Nat.ModEq.add_right_cancel' y hsum
  rw [hsame, Nat.mod_eq_of_lt hlt]

theorem wordSub_free (hle : popped ≤ pushed) (hroom : pushed ≤ popped + c.capacity) :
    c.wordSub (c.capacity + popped % 2 ^ c.bits) (pushed % 2 ^ c.bits) =
      popped + c.capacity - pushed := by
  have hword := capacity_lt_word c
  exact mod_sub_mod _ _ _ _ hroom (by omega)

theorem wordSub_filled (hle : popped ≤ pushed) (hroom : pushed ≤ popped + c.capacity) :
    c.wordSub (pushed % 2 ^ c.bits) (popped % 2 ^ c.bits) = pushed - popped := by
  have hword := capacity_lt_word c
  have hsub := mod_sub_mod (2 ^ c.bits) pushed popped 0 hle (by omega)
  rwa [Nat.zero_add, Nat.add_zero] at hsub

theorem word_add : c.word (index % 2 ^ c.bits + count) = (index + count) % 2 ^ c.bits :=
  Nat.mod_add_mod _ _ _

/-! ## Places -/

/-- The first piece ends with the array at the latest. -/
theorem firstCopy_fits (index count : ℕ) :
    index % c.capacity * c.granularity + c.firstCopy index count * c.granularity ≤ c.size := by
  have hlt := Nat.mod_lt index (capacity_pos c)
  unfold RingConfig.size RingConfig.firstCopy
  rw [← Nat.add_mul, Nat.mul_comm c.granularity]
  exact Nat.mul_le_mul_right _ (by omega)

theorem secondCopy_fits (index : ℕ) (hcount : count ≤ c.capacity) :
    0 + (count - c.firstCopy index count) * c.granularity ≤ c.size := by
  unfold RingConfig.size
  rw [Nat.zero_add, Nat.mul_comm c.granularity]
  exact Nat.mul_le_mul_right _ (by omega)

/-- Where a slot begins. -/
theorem slot_place : index * c.granularity =
    c.size * (index / c.capacity) + index % c.capacity * c.granularity := by
  calc index * c.granularity
      = (c.capacity * (index / c.capacity) + index % c.capacity) * c.granularity := by
        rw [Nat.div_add_mod]
    _ = c.size * (index / c.capacity) + index % c.capacity * c.granularity := by
        unfold RingConfig.size
        ring

theorem place_first (hi : i < c.firstCopy index count * c.granularity) :
    (index * c.granularity + i) % c.size = index % c.capacity * c.granularity + i := by
  have hfits := firstCopy_fits (c := c) index count
  rw [slot_place, Nat.add_assoc, Nat.mul_add_mod]
  exact Nat.mod_eq_of_lt (by omega)

/-- The second piece lies at the beginning of the array. -/
theorem place_second (hcount : count ≤ c.capacity)
    (hi : i < (count - c.firstCopy index count) * c.granularity) :
    (index * c.granularity + c.firstCopy index count * c.granularity + i) % c.size = 0 + i := by
  have hlt := Nat.mod_lt index (capacity_pos c)
  have hrest : c.firstCopy index count < count := by
    by_contra hnot
    rw [Nat.sub_eq_zero_of_le (Nat.le_of_not_lt hnot), Nat.zero_mul] at hi
    exact absurd hi (Nat.not_lt_zero i)
  have hfirst : c.firstCopy index count = c.capacity - index % c.capacity := by
    unfold RingConfig.firstCopy at hrest ⊢
    omega
  have hround : index % c.capacity * c.granularity +
      c.firstCopy index count * c.granularity = c.size := by
    unfold RingConfig.size
    rw [hfirst, ← Nat.add_mul, Nat.add_sub_cancel' (Nat.le_of_lt hlt), Nat.mul_comm]
  have hfits := secondCopy_fits (c := c) index hcount
  rw [slot_place, Nat.add_assoc, Nat.add_assoc, Nat.mul_add_mod, ← Nat.add_assoc, hround,
    Nat.add_mod_left, Nat.zero_add]
  exact Nat.mod_eq_of_lt (by omega)

end Indices

/-! ## Copies -/

section Copies

variable (data : ℕ → T)

/-- What is copied to where the ring goes on is put into the ring. -/
theorem copyIn_ring (offset start : ℕ) (chunk : List T) (hfits : offset + chunk.length ≤ c.size)
    (hplace : ∀ i < chunk.length, (start + i) % c.size = offset + i) :
    ∃ data', copyIn c data offset chunk = .ok data' ∧
      RingWrite c.size data data' start chunk := by
  refine ⟨_, if_pos hfits, ?_, ?_⟩
  · apply List.ext_getElem length_ringContents
    intro i _ hi
    simp only [ringContents, List.getElem_map, List.getElem_range, hplace i hi]
    rw [if_pos (Nat.le_add_right offset i), Nat.add_sub_cancel_left, List.getD_eq_getElem _ _ hi]
  · intro k hk
    by_cases hoffset : offset ≤ k
    · have hlength : chunk.length ≤ k - offset := by
        by_contra hnot
        have hne := hk (k - offset) (by omega)
        rw [hplace _ (by omega)] at hne
        omega
      rw [if_pos hoffset, List.getD_eq_default _ _ hlength]
    · rw [if_neg hoffset]

theorem copyOut_ring {offset start n : ℕ} (hfits : offset + n ≤ c.size)
    (hplace : ∀ i < n, (start + i) % c.size = offset + i) :
    copyOut c data offset n = .ok (ringContents c.size data start n) := by
  unfold copyOut
  rw [if_pos hfits]
  apply congrArg
  apply List.map_congr_left
  intro i hi
  rw [hplace i (List.mem_range.mp hi)]

end Copies

/-! ## The threads -/

section Threads

variable {s t : RingSystem c T} {pushed popped : ℕ} {data data' : ℕ → T} {call : PushCall c T}
  {calls : List (PushCall c T)} {stream xs : List T}

/-- What the thread that pushes has made sure of, when `pushed` slots have been pushed and `popped`
have been popped. -/
def PushUnderway (data : ℕ → T) (calls : List (PushCall c T)) (pushed popped : ℕ) :
    Pushing → Prop
  | .idle => True
  | .loaded index => index = pushed % 2 ^ c.bits
  | .counted index count => index = pushed % 2 ^ c.bits ∧ pushed + count ≤ popped + c.capacity ∧
      ∀ call ∈ calls.head?, count ≤ call.slotCount
  | .copiedFirst index count => index = pushed % 2 ^ c.bits ∧
      pushed + count ≤ popped + c.capacity ∧ ∀ call ∈ calls.head?, count ≤ call.slotCount ∧
        ringContents c.size data (pushed * c.granularity)
            (c.firstCopy pushed count * c.granularity) =
          call.newSlots.take (c.firstCopy pushed count * c.granularity)
  | .copiedSecond index count => index = pushed % 2 ^ c.bits ∧
      pushed + count ≤ popped + c.capacity ∧ ∀ call ∈ calls.head?, count ≤ call.slotCount ∧
        ringContents c.size data (pushed * c.granularity) (count * c.granularity) =
          call.newSlots.take (count * c.granularity)

/-- What the thread that pops has made sure of, and what it has copied. -/
def PopUnderway (c : RingConfig) (stream : List T) (pushed popped : ℕ) : Popping T → Prop
  | .idle => True
  | .loaded index => index = popped % 2 ^ c.bits
  | .counted index count => index = popped % 2 ^ c.bits ∧ popped + count ≤ pushed
  | .copiedFirst index count out => index = popped % 2 ^ c.bits ∧ popped + count ≤ pushed ∧
      out = (stream.drop (popped * c.granularity)).take
        (c.firstCopy popped count * c.granularity)
  | .copiedSecond index count out => index = popped % 2 ^ c.bits ∧ popped + count ≤ pushed ∧
      out = (stream.drop (popped * c.granularity)).take (count * c.granularity)

/-- The numbers behind the indices, and what is known of the calls under way. -/
structure RingRuns (s : RingSystem c T) (pushed popped : ℕ) : Prop where
  pushedSlots : s.pushed.length = pushed * c.granularity
  le : popped ≤ pushed
  room : pushed ≤ popped + c.capacity
  writeIndex : s.buffer.writeIndex = pushed % 2 ^ c.bits
  readIndex : s.buffer.readIndex = popped % 2 ^ c.bits
  inOrder : s.popped = s.pushed.take (popped * c.granularity)
  untouched : ringContents c.size s.buffer.data (popped * c.granularity)
    ((pushed - popped) * c.granularity) = s.pushed.drop (popped * c.granularity)
  pushing : PushUnderway s.buffer.data s.pushes pushed popped s.pushing
  popping : PopUnderway c s.pushed pushed popped s.popping

/-- The elements that are stored are as many as the numbers say. -/
theorem RingRuns.poppedSlots (h : RingRuns s pushed popped) :
    s.popped.length = popped * c.granularity := by
  rw [h.inOrder, List.length_take, h.pushedSlots]
  exact Nat.min_eq_left (Nat.mul_le_mul_right _ h.le)

theorem RingRuns.lossless (h : RingRuns s pushed popped) : RingLossless s where
  inOrder := by
    rw [h.inOrder]
    exact List.take_prefix _ _
  stored := by
    have hle := h.le
    have hroom := h.room
    refine ⟨pushed, popped, ⟨h.pushedSlots, h.poppedSlots⟩, hle, by omega, ?_⟩
    unfold RingBuffer.usedSlots
    rw [h.writeIndex, h.readIndex, wordSub_filled hle hroom]
  untouched := by
    rw [h.poppedSlots, h.pushedSlots, ← Nat.sub_mul]
    exact h.untouched

theorem ringRuns_start (data : ℕ → T) (pushes : List (PushCall c T)) (pops : List ℕ) :
    RingRuns (ringStart data pushes pops) 0 0 := by
  constructor <;> simp [ringStart, PushUnderway, PopUnderway]

/-- The thread that pushes goes on, and may have written behind the slots that are stored. -/
theorem RingRuns.pushes_on (h : RingRuns s pushed popped) (state : Pushing) (data' : ℕ → T)
    (hkept : ringContents c.size data' (popped * c.granularity)
        ((pushed - popped) * c.granularity) =
      ringContents c.size s.buffer.data (popped * c.granularity)
        ((pushed - popped) * c.granularity))
    (hstate : PushUnderway data' s.pushes pushed popped state) :
    RingRuns { s with buffer := { s.buffer with data := data' }, pushing := state } pushed popped
    where
  pushedSlots := h.pushedSlots
  le := h.le
  room := h.room
  writeIndex := h.writeIndex
  readIndex := h.readIndex
  inOrder := h.inOrder
  untouched := hkept.trans h.untouched
  pushing := hstate
  popping := h.popping

/-- The thread that pops goes on. -/
theorem RingRuns.pops_on (h : RingRuns s pushed popped) (state : Popping T)
    (hstate : PopUnderway c s.pushed pushed popped state) :
    RingRuns { s with popping := state } pushed popped where
  pushedSlots := h.pushedSlots
  le := h.le
  room := h.room
  writeIndex := h.writeIndex
  readIndex := h.readIndex
  inOrder := h.inOrder
  untouched := h.untouched
  pushing := h.pushing
  popping := hstate

theorem slots_enough {count : ℕ} (hcount : count ≤ call.slotCount) :
    count * c.granularity ≤ call.newSlots.length :=
  le_trans (Nat.mul_le_mul_right _ hcount) call.enough

/-- A piece of what is pushed can be read. -/
theorem readRun_slots {first count : ℕ} (hle : first ≤ count) (hcount : count ≤ call.slotCount) :
    ∃ chunk, readRun Fault.undefined call.newSlots (first * c.granularity)
        ((count - first) * c.granularity) = .ok chunk ∧
      chunk.length = (count - first) * c.granularity ∧
      call.newSlots.take (count * c.granularity) =
        call.newSlots.take (first * c.granularity) ++ chunk := by
  have henough := slots_enough hcount
  have hsum : first * c.granularity + (count - first) * c.granularity = count * c.granularity := by
    rw [← Nat.add_mul, Nat.add_sub_cancel' hle]
  refine ⟨_, if_pos (by omega), ?_, ?_⟩
  · rw [List.length_take, List.length_drop]
    omega
  · rw [← hsum, List.take_add]

/-- Slots that there is room for end less than a round behind the first that is stored. -/
theorem slots_round {count : ℕ} (hroom : pushed + count ≤ popped + c.capacity) :
    pushed * c.granularity + count * c.granularity ≤ popped * c.granularity + c.size := by
  have hmul := Nat.mul_le_mul_right c.granularity hroom
  rw [Nat.add_mul, Nat.add_mul, Nat.mul_comm c.capacity] at hmul
  exact hmul

theorem stored_end (hle : popped ≤ pushed) : popped * c.granularity +
    (pushed - popped) * c.granularity = pushed * c.granularity := by
  rw [← Nat.add_mul, Nat.add_sub_cancel' hle]

/-- The first piece is copied. -/
theorem pushStep_counted {index count : ℕ} (h : RingRuns s pushed popped)
    (hcalls : s.pushes = call :: calls) (hstate : s.pushing = .counted index count) :
    ∃ t, pushStep s call = .ok t ∧ RingRuns t pushed popped := by
  have hpushing := h.pushing
  rw [hstate, hcalls] at hpushing
  obtain ⟨rfl, hroom, hcount⟩ := hpushing
  replace hcount := hcount call rfl
  have hfirst : c.firstCopy pushed count ≤ count := firstCopy_le
  obtain ⟨chunk, hchunk, hlength, htake⟩ :=
    readRun_slots (Nat.zero_le (c.firstCopy pushed count)) (le_trans hfirst hcount)
  rw [Nat.zero_mul, Nat.sub_zero] at hchunk
  rw [Nat.sub_zero] at hlength
  rw [Nat.zero_mul, List.take_zero, List.nil_append] at htake
  obtain ⟨data', hdata, hwrite⟩ := copyIn_ring (c := c) s.buffer.data
    (pushed % c.capacity * c.granularity) (pushed * c.granularity) chunk
    (by rw [hlength]; exact firstCopy_fits _ _)
    (fun i hi => place_first (by rwa [hlength] at hi))
  refine ⟨_, ?_, h.pushes_on (.copiedFirst (pushed % 2 ^ c.bits) count) data' ?_
    ⟨rfl, hroom, ?_⟩⟩
  · unfold pushStep
    simp only [hstate, firstCopy_word, word_mod_capacity]
    rw [hchunk, ok_bind, hdata, ok_bind]
    rfl
  · apply hwrite.ringContents_before (le_of_eq (stored_end h.le))
    rw [hlength]
    exact slots_round (by omega)
  · rw [hcalls]
    intro call' hcall'
    obtain rfl := Option.some.inj hcall'
    refine ⟨hcount, ?_⟩
    rw [← hlength, hwrite.written, hlength, htake]

/-- The second piece is copied. -/
theorem pushStep_copiedFirst {index count : ℕ} (h : RingRuns s pushed popped)
    (hcalls : s.pushes = call :: calls) (hstate : s.pushing = .copiedFirst index count) :
    ∃ t, pushStep s call = .ok t ∧ RingRuns t pushed popped := by
  have hpushing := h.pushing
  rw [hstate, hcalls] at hpushing
  obtain ⟨rfl, hroom, hcall⟩ := hpushing
  obtain ⟨hcount, hcopied⟩ := hcall call rfl
  have hle := h.le
  have hfirst : c.firstCopy pushed count ≤ count := firstCopy_le
  have hsum : c.firstCopy pushed count * c.granularity +
      (count - c.firstCopy pushed count) * c.granularity = count * c.granularity := by
    rw [← Nat.add_mul, Nat.add_sub_cancel' hfirst]
  obtain ⟨chunk, hchunk, hlength, htake⟩ := readRun_slots hfirst hcount
  obtain ⟨data', hdata, hwrite⟩ := copyIn_ring (c := c) s.buffer.data 0
    (pushed * c.granularity + c.firstCopy pushed count * c.granularity) chunk
    (by rw [hlength]; exact secondCopy_fits _ (by omega))
    (fun i hi => place_second (by omega) (by rwa [hlength] at hi))
  have hround : pushed * c.granularity + c.firstCopy pushed count * c.granularity +
      chunk.length ≤ popped * c.granularity + c.size := by
    rw [Nat.add_assoc, hlength, hsum]
    exact slots_round hroom
  have hend : popped * c.granularity + (pushed - popped) * c.granularity =
      pushed * c.granularity := stored_end hle
  have hstart : popped * c.granularity ≤ pushed * c.granularity := Nat.mul_le_mul_right _ hle
  refine ⟨_, ?_, h.pushes_on (.copiedSecond (pushed % 2 ^ c.bits) count) data' ?_
    ⟨rfl, hroom, ?_⟩⟩
  · unfold pushStep
    simp only [hstate, firstCopy_word]
    rw [hchunk, ok_bind, hdata, ok_bind]
    rfl
  · exact hwrite.ringContents_before (by omega) hround
  · rw [hcalls]
    intro call' hcall'
    obtain rfl := Option.some.inj hcall'
    refine ⟨hcount, ?_⟩
    rw [htake, ← hsum, ringContents_add, ← hlength, hwrite.written,
      hwrite.ringContents_before (le_refl _) (by omega), hcopied]

/-- A part of the stored slots is the same when more is pushed. -/
theorem take_drop_append {count : ℕ} (hlength : stream.length = pushed * c.granularity)
    (hle : popped + count ≤ pushed) :
    ((stream ++ xs).drop (popped * c.granularity)).take (count * c.granularity) =
      (stream.drop (popped * c.granularity)).take (count * c.granularity) := by
  have hmul : (popped + count) * c.granularity ≤ pushed * c.granularity :=
    Nat.mul_le_mul_right _ hle
  rw [Nat.add_mul] at hmul
  rw [List.drop_append_of_le_length (by omega),
    List.take_append_of_le_length (by rw [List.length_drop]; omega)]

theorem popUnderway_append {state : Popping T} {count : ℕ}
    (hlength : stream.length = pushed * c.granularity)
    (h : PopUnderway c stream pushed popped state) :
    PopUnderway c (stream ++ xs) (pushed + count) popped state := by
  cases state with
  | idle => trivial
  | loaded index => exact h
  | counted index n => exact ⟨h.1, by have hle := h.2; omega⟩
  | copiedFirst index n out =>
    obtain ⟨hindex, hle, hout⟩ := h
    have hfirst : c.firstCopy popped n ≤ n := firstCopy_le
    refine ⟨hindex, by omega, ?_⟩
    rw [hout, take_drop_append hlength (by omega)]
  | copiedSecond index n out =>
    obtain ⟨hindex, hle, hout⟩ := h
    refine ⟨hindex, by omega, ?_⟩
    rw [hout, take_drop_append hlength hle]

/-- The index is stored. -/
theorem pushStep_copiedSecond {index count : ℕ} (h : RingRuns s pushed popped)
    (hcalls : s.pushes = call :: calls) (hstate : s.pushing = .copiedSecond index count) :
    ∃ t, pushStep s call = .ok t ∧ RingRuns t (pushed + count) popped := by
  have hpushing := h.pushing
  rw [hstate, hcalls] at hpushing
  obtain ⟨rfl, hroom, hcall⟩ := hpushing
  obtain ⟨hcount, hcopied⟩ := hcall call rfl
  have hle := h.le
  have hlength : (call.newSlots.take (count * c.granularity)).length = count * c.granularity := by
    rw [List.length_take]
    exact Nat.min_eq_left (slots_enough hcount)
  have hpopped : popped * c.granularity ≤ s.pushed.length := by
    rw [h.pushedSlots]
    exact Nat.mul_le_mul_right _ hle
  refine ⟨_, by unfold pushStep; rw [hstate], ?_⟩
  constructor
  case pushedSlots =>
    rw [List.length_append, hlength, h.pushedSlots, Nat.add_mul]
  case le => omega
  case room => exact hroom
  case writeIndex => exact word_add
  case readIndex => exact h.readIndex
  case inOrder =>
    rw [List.take_append_of_le_length hpopped]
    exact h.inOrder
  case untouched =>
    have hsplit : (pushed + count - popped) * c.granularity =
        (pushed - popped) * c.granularity + count * c.granularity := by
      rw [← Nat.add_mul]
      congr 1
      omega
    rw [List.drop_append_of_le_length hpopped, hsplit, ringContents_add, stored_end hle]
    exact congrArg₂ _ h.untouched hcopied
  case pushing => trivial
  case popping => exact popUnderway_append h.pushedSlots h.popping

/-- A step of the thread that pushes does not fault, and stores slots in the end only. -/
theorem pushStep_runs (h : RingRuns s pushed popped) (hcalls : s.pushes = call :: calls) :
    ∃ t, pushStep s call = .ok t ∧ ∃ pushed', RingRuns t pushed' popped := by
  cases hstate : s.pushing with
  | idle =>
    refine ⟨_, by unfold pushStep; rw [hstate], pushed, ?_⟩
    exact h.pushes_on _ _ rfl h.writeIndex
  | loaded index =>
    have hindex := h.pushing
    rw [hstate] at hindex
    obtain rfl : index = pushed % 2 ^ c.bits := hindex
    have hroom := h.room
    refine ⟨_, by unfold pushStep; rw [hstate], pushed, ?_⟩
    rw [h.readIndex, wordSub_free h.le hroom]
    refine h.pushes_on _ _ rfl ⟨rfl, by omega, ?_⟩
    rw [hcalls]
    intro call' hcall'
    obtain rfl := Option.some.inj hcall'
    exact Nat.min_le_left _ _
  | counted index count =>
    obtain ⟨t, ht, hruns⟩ := pushStep_counted h hcalls hstate
    exact ⟨t, ht, pushed, hruns⟩
  | copiedFirst index count =>
    obtain ⟨t, ht, hruns⟩ := pushStep_copiedFirst h hcalls hstate
    exact ⟨t, ht, pushed, hruns⟩
  | copiedSecond index count =>
    obtain ⟨t, ht, hruns⟩ := pushStep_copiedSecond h hcalls hstate
    exact ⟨t, ht, pushed + count, hruns⟩

/-- The stored slots can be copied out. -/
theorem copyOut_stored (first count offset : ℕ) (h : RingRuns s pushed popped)
    (hle : popped + (first + count) ≤ pushed)
    (hfits : offset + count * c.granularity ≤ c.size)
    (hplace : ∀ i < count * c.granularity,
      (popped * c.granularity + first * c.granularity + i) % c.size = offset + i) :
    copyOut c s.buffer.data offset (count * c.granularity) =
      .ok (((s.pushed.drop (popped * c.granularity)).drop (first * c.granularity)).take
        (count * c.granularity)) := by
  have hpart : first * c.granularity + count * c.granularity ≤
      (pushed - popped) * c.granularity := by
    rw [← Nat.add_mul]
    exact Nat.mul_le_mul_right _ (by omega)
  rw [copyOut_ring _ hfits hplace, ringContents_part h.untouched hpart]

/-- The first piece is copied out. -/
theorem popStep_counted {maxSlots index count : ℕ} (h : RingRuns s pushed popped)
    (hstate : s.popping = .counted index count) :
    ∃ t, popStep s maxSlots = .ok t ∧ RingRuns t pushed popped := by
  have hpopping := h.popping
  rw [hstate] at hpopping
  obtain ⟨rfl, hle⟩ := hpopping
  have hfirst : c.firstCopy popped count ≤ count := firstCopy_le
  have hcopy := copyOut_stored 0 (c.firstCopy popped count)
    (popped % c.capacity * c.granularity) h (by omega) (firstCopy_fits _ _)
    (fun i hi => by rw [Nat.zero_mul, Nat.add_zero, place_first hi])
  rw [Nat.zero_mul, List.drop_zero] at hcopy
  refine ⟨_, ?_, h.pops_on (.copiedFirst (popped % 2 ^ c.bits) count _) ⟨rfl, hle, rfl⟩⟩
  unfold popStep
  simp only [hstate, firstCopy_word, word_mod_capacity]
  rw [hcopy, ok_bind]
  rfl

/-- The second piece is copied out. -/
theorem popStep_copiedFirst {maxSlots index count : ℕ} {out : List T}
    (h : RingRuns s pushed popped) (hstate : s.popping = .copiedFirst index count out) :
    ∃ t, popStep s maxSlots = .ok t ∧ RingRuns t pushed popped := by
  have hpopping := h.popping
  rw [hstate] at hpopping
  obtain ⟨rfl, hle, hout⟩ := hpopping
  have hroom := h.room
  have hfirst : c.firstCopy popped count ≤ count := firstCopy_le
  have hcopy := copyOut_stored (c.firstCopy popped count)
    (count - c.firstCopy popped count) 0 h (by omega) (secondCopy_fits _ (by omega))
    (fun i hi => place_second (by omega) hi)
  have hwhole : out ++ ((s.pushed.drop (popped * c.granularity)).drop
      (c.firstCopy popped count * c.granularity)).take
        ((count - c.firstCopy popped count) * c.granularity) =
      (s.pushed.drop (popped * c.granularity)).take (count * c.granularity) := by
    rw [hout, ← List.take_add, ← Nat.add_mul, Nat.add_sub_cancel' hfirst]
  refine ⟨_, ?_, h.pops_on (.copiedSecond (popped % 2 ^ c.bits) count _)
    ⟨rfl, hle, hwhole⟩⟩
  unfold popStep
  simp only [hstate, firstCopy_word]
  rw [hcopy, ok_bind]
  rfl

/-- What the thread that pushes has made sure of stays true when slots become free. -/
theorem pushUnderway_popped {state : Pushing} {count : ℕ}
    (h : PushUnderway data calls pushed popped state) :
    PushUnderway data calls pushed (popped + count) state := by
  cases state with
  | idle => trivial
  | loaded index => exact h
  | counted index n | copiedFirst index n | copiedSecond index n =>
    obtain ⟨hindex, hroom, hcalls⟩ := h
    exact ⟨hindex, by omega, hcalls⟩

/-- The index is stored, and the slots are free. -/
theorem popStep_copiedSecond {maxSlots index count : ℕ} {out : List T}
    (h : RingRuns s pushed popped) (hstate : s.popping = .copiedSecond index count out) :
    ∃ t, popStep s maxSlots = .ok t ∧ RingRuns t pushed (popped + count) := by
  have hpopping := h.popping
  rw [hstate] at hpopping
  obtain ⟨rfl, hle, hout⟩ := hpopping
  have hroom := h.room
  refine ⟨_, by unfold popStep; rw [hstate], ?_⟩
  constructor
  case pushedSlots => exact h.pushedSlots
  case le => exact hle
  case room => omega
  case writeIndex => exact h.writeIndex
  case readIndex => exact word_add
  case inOrder =>
    rw [Nat.add_mul, List.take_add, ← hout, ← h.inOrder]
  case untouched =>
    have hsum : count * c.granularity + (pushed - (popped + count)) * c.granularity =
        (pushed - popped) * c.granularity := by
      rw [← Nat.add_mul]
      congr 1
      omega
    have hpart := ringContents_part h.untouched (le_of_eq hsum)
    rw [← Nat.add_mul, List.drop_drop, ← Nat.add_mul] at hpart
    rw [hpart]
    apply List.take_of_length_le
    rw [List.length_drop, h.pushedSlots, ← Nat.sub_mul]
  case pushing => exact pushUnderway_popped h.pushing
  case popping => trivial

/-- A step of the thread that pops does not fault, and frees slots in the end only. -/
theorem popStep_runs (maxSlots : ℕ) (h : RingRuns s pushed popped) :
    ∃ t, popStep s maxSlots = .ok t ∧ ∃ popped', RingRuns t pushed popped' := by
  cases hstate : s.popping with
  | idle =>
    refine ⟨_, by unfold popStep; rw [hstate], popped, ?_⟩
    exact h.pops_on _ h.readIndex
  | loaded index =>
    have hindex := h.popping
    rw [hstate] at hindex
    obtain rfl : index = popped % 2 ^ c.bits := hindex
    have hle := h.le
    refine ⟨_, by unfold popStep; rw [hstate], popped, ?_⟩
    rw [h.writeIndex, wordSub_filled hle h.room]
    exact h.pops_on _ ⟨rfl, by omega⟩
  | counted index count =>
    obtain ⟨t, ht, hruns⟩ := popStep_counted h hstate
    exact ⟨t, ht, popped, hruns⟩
  | copiedFirst index count out =>
    obtain ⟨t, ht, hruns⟩ := popStep_copiedFirst h hstate
    exact ⟨t, ht, popped, hruns⟩
  | copiedSecond index count out =>
    obtain ⟨t, ht, hruns⟩ := popStep_copiedSecond h hstate
    exact ⟨t, ht, popped + count, hruns⟩

theorem step_runs (thread : RingThread) (h : ∃ pushed popped, RingRuns s pushed popped) :
    ∃ t, s.step thread = .ok t ∧ ∃ pushed popped, RingRuns t pushed popped := by
  obtain ⟨pushed, popped, hruns⟩ := h
  cases thread with
  | producer =>
    cases hcalls : s.pushes with
    | nil => exact ⟨s, by simp [RingSystem.step, hcalls], pushed, popped, hruns⟩
    | cons call calls =>
      obtain ⟨t, ht, pushed', hruns'⟩ := pushStep_runs hruns hcalls
      exact ⟨t, by simp [RingSystem.step, hcalls, ht], pushed', popped, hruns'⟩
  | consumer =>
    cases hpops : s.pops with
    | nil => exact ⟨s, by simp [RingSystem.step, hpops], pushed, popped, hruns⟩
    | cons maxSlots pops =>
      obtain ⟨t, ht, popped', hruns'⟩ := popStep_runs maxSlots hruns
      exact ⟨t, by simp [RingSystem.step, hpops, ht], pushed, popped', hruns'⟩

end Threads

/-- However the steps of the two threads come, no copy leaves the array, and what is popped is what
was pushed, in order, up to what is still stored. -/
theorem ring_lossless (data : ℕ → T) (pushes : List (PushCall c T)) (pops : List ℕ)
    (schedule : List RingThread) :
    Completes RingSystem.step RingLossless (ringStart data pushes pops) schedule := by
  apply Completes.of_invariant (q := fun s => ∃ pushed popped, RingRuns s pushed popped)
  · rintro s ⟨pushed, popped, hruns⟩
    exact hruns.lossless
  · intro s thread h
    exact step_runs thread h
  · exact ⟨0, 0, ringRuns_start data pushes pops⟩

end Borked3DS.Analysis
