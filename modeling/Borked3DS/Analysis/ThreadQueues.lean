import Borked3DS.Interface.ThreadQueues
import Borked3DS.Analysis.ReadyQueues

/-!
# When a thread queue list is an array of queues

Every call on a linked list does what it means on the queues, except for a search that runs off the
end of the chain: the null pointer compares below the level it should stop at.
-/

set_option autoImplicit false

namespace Borked3DS.Analysis

open Borked3DS.Library Borked3DS.Model Borked3DS.Interface ThreadQueueList

variable {T : Type} {N : ℕ} {q : ThreadQueueList T N} {ls : List ℕ} {lanes : Lanes T}

/-! ## Searches -/

theorem lowest_of_first {p i : ℕ} (hip : i < p) (hi : lanes i ≠ [])
    (hbelow : ∀ j < i, lanes j = []) : lowest lanes p = some i := by
  unfold lowest
  rw [List.find?_range_eq_some]
  refine ⟨by simpa using hi, List.mem_range.mpr hip, ?_⟩
  intro j hj
  rw [hbelow j hj]
  rfl

theorem lowest_of_none {p : ℕ} (hbelow : ∀ j < p, lanes j = []) : lowest lanes p = none := by
  unfold lowest
  rw [List.find?_eq_none]
  intro j hj
  rw [hbelow j (List.mem_range.mp hj)]
  simp

/-- `get_first` finds what `pop_first` takes. -/
theorem getFirstFrom_eq (q : ThreadQueueList T N) (fuel : ℕ) (ptr : QueuePtr) :
    q.getFirstFrom fuel ptr = (q.popFirstFrom fuel ptr).map Prod.fst := by
  induction fuel generalizing ptr with
  | zero => rfl
  | succ fuel ih =>
      cases ptr with
      | unlinked => rfl
      | null => rfl
      | level i =>
          rw [getFirstFrom, popFirstFrom]
          cases (q.queues i).data with
          | cons x rest => rfl
          | nil => exact ih _

/-- A search below a level, from where nothing but the levels ahead can hold an entry, stops at an
entry or at a level. -/
theorem popFirstBetterFrom_stops {fuel p : ℕ} (hfuel : ls.length < fuel)
    (hchained : Chained q .null ls) (hsorted : ls.Pairwise (· < ·))
    (hempty : ∀ j, j ∉ ls → q.lane j = [])
    (hstops : (∃ i < p, q.lane i ≠ []) ∨ ∃ i ∈ ls, p ≤ i) :
    ∃ r, q.popFirstBetterFrom p fuel (ptrTo ls .null) = .ok r ∧ PopsBelow q p r := by
  induction ls generalizing fuel with
  | nil =>
      rcases hstops with ⟨i, -, hi⟩ | ⟨i, hi, -⟩
      · exact absurd (hempty i List.not_mem_nil) hi
      · cases hi
  | cons i ls ih =>
      cases fuel with
      | zero => exact absurd hfuel (Nat.not_lt_zero _)
      | succ fuel =>
          have hbefore : ∀ j < i, q.lane j = [] :=
            fun j hj => hempty j (not_mem_of_lt_head hsorted hj)
          rw [ptrTo, popFirstBetterFrom]
          by_cases hip : i < p
          · rw [if_pos hip]
            cases hlane : (q.queues i).data with
            | cons x rest => exact ⟨_, rfl, .some i x rest hip hlane hbefore⟩
            | nil =>
                dsimp only
                rw [hchained.1]
                refine ih (Nat.lt_of_succ_lt_succ hfuel) hchained.2
                  (List.pairwise_cons.mp hsorted).2 (fun j hj => ?_) ?_
                · by_cases hji : j = i
                  · rw [hji]
                    exact hlane
                  · exact hempty j (by simp [hji, hj])
                · refine hstops.imp_right ?_
                  rintro ⟨j, hj, hpj⟩
                  rcases List.mem_cons.mp hj with rfl | hj
                  · exact absurd hip (Nat.not_lt.mpr hpj)
                  · exact ⟨j, hj, hpj⟩
          · rw [if_neg hip]
            exact ⟨_, rfl, .none fun j hj => hbefore j (Nat.lt_of_lt_of_le hj (Nat.not_lt.mp hip))⟩

/-- Without an entry or a level to stop at, the search leaves the chain. -/
theorem popFirstBetterFrom_leaves {fuel p : ℕ} (hfuel : ls.length < fuel)
    (hchained : Chained q .null ls) (hlow : ∀ i ∈ ls, i < p) (hnone : ∀ i ∈ ls, q.lane i = []) :
    q.popFirstBetterFrom p fuel (ptrTo ls .null) = .error .undefined := by
  induction ls generalizing fuel with
  | nil =>
      cases fuel with
      | zero => rfl
      | succ fuel => rfl
  | cons i ls ih =>
      cases fuel with
      | zero => rfl
      | succ fuel =>
          have hlane : (q.queues i).data = [] := hnone i List.mem_cons_self
          rw [ptrTo, popFirstBetterFrom, if_pos (hlow i List.mem_cons_self), hlane]
          dsimp only
          rw [hchained.1]
          exact ih (Nat.lt_of_succ_lt_succ hfuel) hchained.2
            (fun j hj => hlow j (List.mem_cons_of_mem i hj))
            fun j hj => hnone j (List.mem_cons_of_mem i hj)

/-! ## Steps -/

/-- The list is linked through the prepared levels and holds the queues. -/
def Stands (q : ThreadQueueList T N) (lanes : Lanes T) (prepared : List ℕ) : Prop :=
  ∃ ls, Linked q ls ∧ (∀ i, i ∈ ls ↔ i ∈ prepared) ∧ ∀ i, q.lane i = lanes i

theorem chainVisits_of_chained (hchained : Chained q .null ls) :
    ChainVisits q (ptrTo ls .null) ls := by
  induction ls with
  | nil => rfl
  | cons i ls ih =>
      refine ⟨rfl, ?_⟩
      rw [hchained.1]
      exact ih hchained.2

variable {prepared : List ℕ}

theorem Stands.represents (h : Stands q lanes prepared) : Represents q lanes prepared := by
  obtain ⟨ls, hlinked, hlevels, hlanes⟩ := h
  refine ⟨⟨ls, hlinked.sorted, hlevels, ?_⟩, hlanes⟩
  rw [hlinked.first]
  exact chainVisits_of_chained hlinked.chained

theorem Stands.lt {i : ℕ} (h : Stands q lanes prepared) (hi : i ∈ prepared) : i < N := by
  obtain ⟨ls, hlinked, hlevels, -⟩ := h
  exact hlinked.bound i ((hlevels i).mpr hi)

/-- The queue of a prepared level gets other contents. -/
theorem Stands.setData {i : ℕ} {data : List T} (h : Stands q lanes prepared)
    (hi : i ∈ prepared ∨ data = []) :
    Stands (q.setData i data) (Function.update lanes i data) prepared := by
  obtain ⟨ls, hlinked, hlevels, hlanes⟩ := h
  refine ⟨ls, hlinked.setData (hi.imp_left (hlevels i).mpr), hlevels, fun j => ?_⟩
  rw [lane_setData, Function.update_apply, hlanes j]

/-- A level that is not prepared is empty. -/
theorem Stands.mem_or_nil (h : Stands q lanes prepared) (i : ℕ) :
    i ∈ prepared ∨ lanes i = [] := by
  obtain ⟨ls, hlinked, hlevels, hlanes⟩ := h
  by_cases hi : i ∈ ls
  · exact Or.inl ((hlevels i).mp hi)
  · exact Or.inr ((hlanes i).symm.trans (hlinked.empty i hi))

/-- What remains of a queue stands in its place. -/
theorem Stands.setData_of_nil {i : ℕ} {data : List T} (h : Stands q lanes prepared)
    (hdata : lanes i = [] → data = []) :
    Stands (q.setData i data) (Function.update lanes i data) prepared :=
  h.setData ((h.mem_or_nil i).imp_right hdata)

/-- What is popped is the front of the lowest level. -/
theorem Stands.takes {p : ℕ} {r : Option T × ThreadQueueList T N} (h : Stands q lanes prepared)
    (hr : PopsBelow q p r) :
    r.1 = (takeLowest lanes p).1 ∧ Stands r.2 (takeLowest lanes p).2 prepared := by
  have hlanes := h.represents.lanes
  unfold takeLowest
  cases hr with
  | none hbelow =>
      rw [lowest_of_none fun j hj => (hlanes j).symm.trans (hbelow j hj)]
      exact ⟨rfl, h⟩
  | some i x rest hip hlane hbelow =>
      have hi : lanes i = x :: rest := (hlanes i).symm.trans hlane
      have hne : lanes i ≠ [] := by simp [hi]
      rw [lowest_of_first hip hne fun j hj => (hlanes j).symm.trans (hbelow j hj)]
      dsimp only
      rw [hi]
      exact ⟨rfl, h.setData ((h.mem_or_nil i).imp_right fun hnil => absurd hnil hne)⟩

theorem Stands.prepare {i : ℕ} (h : Stands q lanes prepared) (hi : i < N) :
    ∃ q', q.prepare i = .ok q' ∧ Stands q' lanes (i :: prepared) := by
  obtain ⟨ls, hlinked, hlevels, hlanes⟩ := h
  obtain ⟨q', ls', hq', hlinked', hmem, hlane⟩ := prepare_levels hlinked hi
  refine ⟨q', hq', ls', hlinked', fun j => ?_, fun j => (hlane j).trans (hlanes j)⟩
  rw [hmem, List.mem_cons, hlevels]

theorem Stands.pushBack {i : ℕ} (h : Stands q lanes prepared) (hi : i ∈ prepared) (x : T) :
    ∃ q', q.pushBack i x = .ok q' ∧
      Stands q' (Function.update lanes i (lanes i ++ [x])) prepared := by
  have hlane : (q.queues i).data = lanes i := h.represents.lanes i
  refine ⟨_, ?_, h.setData (Or.inl hi)⟩
  unfold ThreadQueueList.pushBack index
  rw [if_pos (h.lt hi), pure_eq_ok, ok_bind, hlane]
  rfl

theorem Stands.pushFront {i : ℕ} (h : Stands q lanes prepared) (hi : i ∈ prepared) (x : T) :
    ∃ q', q.pushFront i x = .ok q' ∧
      Stands q' (Function.update lanes i (x :: lanes i)) prepared := by
  have hlane : (q.queues i).data = lanes i := h.represents.lanes i
  refine ⟨_, ?_, h.setData (Or.inl hi)⟩
  unfold ThreadQueueList.pushFront index
  rw [if_pos (h.lt hi), pure_eq_ok, ok_bind, hlane]
  rfl

theorem Stands.rotate {i : ℕ} (h : Stands q lanes prepared) (hi : i < N) :
    ∃ q', q.rotate i = .ok q' ∧
      Stands q' (Function.update lanes i ((lanes i).rotate 1)) prepared := by
  have hlane : (q.queues i).data = lanes i := h.represents.lanes i
  have hsame : (lanes i).rotate 1 = lanes i →
      Stands q (Function.update lanes i ((lanes i).rotate 1)) prepared := by
    intro heq
    rw [heq, Function.update_eq_self]
    exact h
  unfold ThreadQueueList.rotate index
  rw [if_pos hi, pure_eq_ok, ok_bind, hlane]
  cases hdata : lanes i with
  | nil => exact ⟨q, rfl, hdata ▸ hsame (by simp [hdata])⟩
  | cons x rest =>
      cases rest with
      | nil => exact ⟨q, rfl, hdata ▸ hsame (by simp [hdata])⟩
      | cons y rest =>
          refine ⟨_, rfl, ?_⟩
          rw [List.rotate_cons_succ, List.rotate_zero]
          exact h.setData_of_nil fun hnil => absurd (hdata.symm.trans hnil) (List.cons_ne_nil _ _)

theorem stands_new : Stands ({} : ThreadQueueList T N) (fun _ => []) [] := by
  refine ⟨[], ⟨rfl, trivial, List.Pairwise.nil, ?_, fun i _ => rfl, fun i _ => rfl⟩,
    fun i => Iff.rfl, fun i => rfl⟩
  intro i hi
  cases hi

section Steps

variable [DecidableEq T]

theorem Stands.remove {i : ℕ} (h : Stands q lanes prepared) (hi : i < N) (x : T) :
    ∃ q', q.remove i x = .ok q' ∧
      Stands q' (Function.update lanes i ((lanes i).filter (decide <| · ≠ x))) prepared := by
  have hlane : (q.queues i).data = lanes i := h.represents.lanes i
  refine ⟨_, ?_, h.setData_of_nil (i := i) fun hnil => by rw [hnil, List.filter_nil]⟩
  unfold ThreadQueueList.remove index
  rw [if_pos hi, pure_eq_ok, ok_bind, hlane]
  rfl

/-- A call does what it means on the queues if its search stops. -/
theorem Stands.perform {call : QueueCall T} (h : Stands q lanes prepared)
    (hproper : call.Proper N prepared) (hstops : call.SearchStops lanes prepared) :
    ∃ q', call.perform q = .ok ((call.onLanes N lanes).1, q') ∧
      Stands q' (call.onLanes N lanes).2 (call.prepares prepared) := by
  obtain ⟨ls, hlinked, hlevels, hlanes⟩ := id h
  cases call with
  | prepare level =>
      obtain ⟨q', hq', hstands⟩ := h.prepare hproper
      exact ⟨q', by rw [QueueCall.perform, hq']; rfl, hstands⟩
  | pushFront level x =>
      obtain ⟨q', hq', hstands⟩ := h.pushFront hproper x
      exact ⟨q', by rw [QueueCall.perform, hq']; rfl, hstands⟩
  | pushBack level x =>
      obtain ⟨q', hq', hstands⟩ := h.pushBack hproper x
      exact ⟨q', by rw [QueueCall.perform, hq']; rfl, hstands⟩
  | move x oldLevel newLevel =>
      obtain ⟨q₁, hq₁, h₁⟩ := h.remove hproper.1 x
      obtain ⟨q₂, hq₂, h₂⟩ := h₁.prepare hproper.2
      obtain ⟨q', hq', hstands⟩ := h₂.pushBack List.mem_cons_self x
      refine ⟨q', ?_, hstands⟩
      rw [QueueCall.perform, ThreadQueueList.move, hq₁, ok_bind, hq₂, ok_bind, hq']
      rfl
  | remove level x =>
      obtain ⟨q', hq', hstands⟩ := h.remove hproper x
      exact ⟨q', by rw [QueueCall.perform, hq']; rfl, hstands⟩
  | rotate level =>
      obtain ⟨q', hq', hstands⟩ := h.rotate hproper
      exact ⟨q', by rw [QueueCall.perform, hq']; rfl, hstands⟩
  | popFirst =>
      obtain ⟨r, hr, hpops⟩ := popFirst_ok hlinked
      obtain ⟨hresult, hstands⟩ := h.takes hpops
      exact ⟨r.2, by rw [QueueCall.perform, hr, QueueCall.onLanes, ← hresult], hstands⟩
  | popFirstBetter level =>
      have hsearch : (∃ i < level, q.lane i ≠ []) ∨ ∃ i ∈ ls, level ≤ i := by
        simp only [hlanes, hlevels]
        exact hstops
      obtain ⟨r, hr, hpops⟩ := popFirstBetterFrom_stops (Nat.lt_succ_of_le hlinked.length_le)
        hlinked.chained hlinked.sorted hlinked.empty hsearch
      obtain ⟨hresult, hstands⟩ := h.takes hpops
      refine ⟨r.2, ?_, hstands⟩
      rw [QueueCall.perform]
      unfold popFirstBetter index
      rw [if_pos (show level < N from hproper), pure_eq_ok, ok_bind, hlinked.first, hr,
        QueueCall.onLanes, ← hresult]
  | getFirst =>
      obtain ⟨r, hr, hpops⟩ := popFirst_ok hlinked
      refine ⟨q, ?_, h⟩
      rw [QueueCall.perform]
      unfold getFirst
      rw [getFirstFrom_eq]
      change ((q.popFirst.map Prod.fst) >>= fun x => pure (x, q)) = _
      rw [hr, QueueCall.onLanes, ← (h.takes hpops).1]
      rfl

/-- A search that does not stop leaves the chain. -/
theorem Stands.perform_leaves {call : QueueCall T} (h : Stands q lanes prepared)
    (hproper : call.Proper N prepared) (hstops : ¬ call.SearchStops lanes prepared) :
    call.perform q = .error .undefined := by
  obtain ⟨ls, hlinked, hlevels, hlanes⟩ := h
  cases call with
  | popFirstBetter level =>
      rw [QueueCall.SearchStops, not_or, not_exists, not_exists] at hstops
      have hlow : ∀ i ∈ ls, i < level := fun i hi =>
        Nat.lt_of_not_le fun hle => hstops.2 i ⟨(hlevels i).mp hi, hle⟩
      have hnone : ∀ i ∈ ls, q.lane i = [] := fun i hi => by
        rw [hlanes i]
        exact of_not_not fun hne => hstops.1 i ⟨hlow i hi, hne⟩
      rw [QueueCall.perform]
      unfold popFirstBetter index
      rw [if_pos (show level < N from hproper), pure_eq_ok, ok_bind, hlinked.first]
      exact popFirstBetterFrom_leaves (Nat.lt_succ_of_le hlinked.length_le) hlinked.chained hlow
        hnone
  | _ => exact absurd trivial hstops

/-! ## Runs -/

theorem refinesQueues_iff_of_stands {calls : List (QueueCall T)} (h : Stands q lanes prepared)
    (hproper : ProperRun N prepared calls) :
    RefinesQueues q lanes prepared calls ↔ SearchesStop N lanes prepared calls := by
  induction calls generalizing q lanes prepared with
  | nil => exact iff_of_true h.represents trivial
  | cons call calls ih =>
      rw [RefinesQueues, SearchesStop]
      by_cases hstops : call.SearchStops lanes prepared
      · obtain ⟨q', hq', hstands⟩ := h.perform hproper.1 hstops
        rw [and_iff_right hstops, ← ih hstands hproper.2, and_iff_right h.represents]
        constructor
        · rintro ⟨q₁, hq₁, hrest⟩
          rw [hq'] at hq₁
          rw [(Prod.mk.inj (Except.ok.inj hq₁)).2]
          exact hrest
        · intro hrest
          exact ⟨q', hq', hrest⟩
      · refine iff_of_false (fun hrefines => ?_) fun hsearches => hstops hsearches.1
        obtain ⟨-, q', hq', -⟩ := hrefines
        rw [h.perform_leaves hproper.1 hstops] at hq'
        cases hq'

/-- In a run of proper calls a new list refines the queues of its levels exactly if every search
below a level meets a queue that holds something, or a prepared level to stop at. -/
theorem refinesQueues_iff {calls : List (QueueCall T)} (hproper : ProperRun N [] calls) :
    RefinesQueues ({} : ThreadQueueList T N) (fun _ => []) [] calls ↔
      SearchesStop N (fun _ => []) [] calls :=
  refinesQueues_iff_of_stands stands_new hproper

end Steps

/-- Two levels are prepared out of order and searched; the second search stops at the upper one. -/
theorem refinesQueues_twoLevels : RefinesQueues ({} : ThreadQueueList ℕ 64) (fun _ => []) []
    [.prepare 48, .prepare 30, .pushBack 30 1, .pushBack 30 2, .rotate 30, .popFirstBetter 48,
      .popFirst, .popFirstBetter 48] := by
  refine (refinesQueues_iff ?_).mpr ?_
  · simp [ProperRun, QueueCall.Proper, QueueCall.prepares]
  · simp [SearchesStop, QueueCall.SearchStops, QueueCall.prepares]

/-- Nothing has been prepared that the search could stop at. -/
theorem not_refinesQueues_new : ProperRun 64 [] [(.popFirstBetter 0 : QueueCall ℕ)] ∧
    ¬ RefinesQueues ({} : ThreadQueueList ℕ 64) (fun _ => []) [] [.popFirstBetter 0] := by
  refine ⟨⟨Nat.succ_pos 63, trivial⟩, ?_⟩
  rintro ⟨-, q', hq', -⟩
  cases hq'

/-! ## Draining -/

/-- What the levels below `N` hold, from the lowest level on. -/
def entries (N : ℕ) (lanes : Lanes T) : List T := (List.range N).flatMap lanes

/-- The front of the lowest level comes first, and the other entries follow in their order. -/
theorem entries_takeLowest (N : ℕ) (lanes : Lanes T) : entries N lanes = [] ∨
    ∃ x, (takeLowest lanes N).1 = some x ∧
      entries N lanes = x :: entries N (takeLowest lanes N).2 := by
  unfold takeLowest
  cases hlowest : lowest lanes N with
  | none =>
      left
      unfold lowest at hlowest
      rw [List.find?_eq_none] at hlowest
      refine List.flatMap_eq_nil_iff.mpr fun i hi => ?_
      simpa using hlowest i hi
  | some i =>
      right
      unfold lowest at hlowest
      obtain ⟨hi, hmem, hbelow⟩ := List.find?_range_eq_some.mp hlowest
      have hiN := List.mem_range.mp hmem
      have hsplit : List.range N = List.range i ++ i :: List.range' (i + 1) (N - (i + 1)) := by
        have hN : N = i + (N - (i + 1) + 1) := by omega
        rw [← List.range'_succ]
        conv_lhs => rw [hN, List.range_add, ← List.range'_eq_map_range]
      have hbefore : (List.range i).flatMap lanes = [] := by
        refine List.flatMap_eq_nil_iff.mpr fun j hj => ?_
        simpa using hbelow j (List.mem_range.mp hj)
      have hkept : ∀ js : List ℕ, i ∉ js →
          js.flatMap (Function.update lanes i (lanes i).tail) = js.flatMap lanes := by
        intro js hjs
        refine List.flatMap_congr fun j hj => Function.update_of_ne ?_ _ _
        rintro rfl
        exact hjs hj
      have hafter : i ∉ List.range' (i + 1) (N - (i + 1)) := by
        rw [List.mem_range'_1]
        omega
      obtain ⟨x, rest, hlane⟩ : ∃ x rest, lanes i = x :: rest := by
        cases hlane : lanes i with
        | nil => simp [hlane] at hi
        | cons x rest => exact ⟨x, rest, rfl⟩
      dsimp only
      refine ⟨x, by rw [hlane]; rfl, ?_⟩
      unfold entries
      rw [hsplit, List.flatMap_append, List.flatMap_append, List.flatMap_cons, List.flatMap_cons,
        hkept _ (by simp), hkept _ hafter, hbefore, Function.update_self, hlane]
      rfl

/-- `pop_first` so many times. -/
def popTimes : ℕ → ThreadQueueList T N → Exec (List T × ThreadQueueList T N)
  | 0, q => pure ([], q)
  | n + 1, q => do
      let (x, q) ← q.popFirst
      let (xs, q) ← popTimes n q
      pure (x.toList ++ xs, q)

theorem Stands.drains (h : Stands q lanes prepared) :
    ∃ q', popTimes (entries N lanes).length q = .ok (entries N lanes, q') ∧
      Stands q' (fun _ => []) prepared := by
  generalize hn : (entries N lanes).length = n
  induction n generalizing q lanes with
  | zero =>
      have hnil := List.eq_nil_of_length_eq_zero hn
      refine ⟨q, by rw [hnil]; rfl, ?_⟩
      obtain ⟨ls, hlinked, hlevels, hlanes⟩ := h
      refine ⟨ls, hlinked, hlevels, fun i => ?_⟩
      by_cases hi : i < N
      · rw [hlanes i]
        exact List.flatMap_eq_nil_iff.mp hnil i (List.mem_range.mpr hi)
      · exact hlinked.empty i fun hmem => hi (hlinked.bound i hmem)
  | succ n ih =>
      obtain ⟨ls, hlinked, -⟩ := id h
      obtain ⟨r, hr, hpops⟩ := popFirst_ok hlinked
      obtain ⟨hresult, hstands⟩ := h.takes hpops
      rcases entries_takeLowest N lanes with hnil | ⟨x, hfirst, hentries⟩
      · rw [hnil] at hn
        cases hn
      · have hlength : (entries N (takeLowest lanes N).2).length = n := by
          rw [hentries] at hn
          exact Nat.succ.inj hn
        obtain ⟨q', hq', hempty⟩ := ih hstands hlength
        refine ⟨q', ?_, hempty⟩
        rw [popTimes, hr, ok_bind]
        dsimp only
        rw [hq', ok_bind, hresult, hfirst, hentries]
        rfl

/-- The calls of a run, one after the other. -/
def runQueue [DecidableEq T] : List (QueueCall T) → ThreadQueueList T N →
    Exec (ThreadQueueList T N)
  | [], q => pure q
  | call :: calls, q => do
      let (_, q) ← call.perform q
      runQueue calls q

/-- The queues after a run. -/
def lanesAfter [DecidableEq T] (N : ℕ) (lanes : Lanes T) : List (QueueCall T) → Lanes T
  | [] => lanes
  | call :: calls => lanesAfter N (call.onLanes N lanes).2 calls

theorem Stands.runQueue [DecidableEq T] {calls : List (QueueCall T)}
    (h : Stands q lanes prepared) (hproper : ProperRun N prepared calls)
    (hstops : SearchesStop N lanes prepared calls) :
    ∃ q' prepared', runQueue calls q = .ok q' ∧
      Stands q' (lanesAfter N lanes calls) prepared' := by
  induction calls generalizing q lanes prepared with
  | nil => exact ⟨q, prepared, rfl, h⟩
  | cons call calls ih =>
      obtain ⟨q₁, hq₁, h₁⟩ := h.perform hproper.1 hstops.1
      obtain ⟨q', prepared', hq', hstands⟩ := ih h₁ hproper.2 hstops.2
      refine ⟨q', prepared', ?_, hstands⟩
      rw [Analysis.runQueue, hq₁]
      exact hq'

end Borked3DS.Analysis
