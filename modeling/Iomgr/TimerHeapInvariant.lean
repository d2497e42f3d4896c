import Iomgr.TimerHeap
import Mathlib.Data.List.Perm.Basic
import Mathlib.Data.List.Nodup

/-!
What the heap operations keep: the heap order by deadline, the index stored in each timer, and the
multiset of stored timers. Each operation has one specification theorem, under the invariant and,
for `add`, below `2^31` timers; it also says that no array access fails. Later modules use these
theorems and never unfold an operation.
-/

namespace Iomgr.TimerHeap

open BinaryHeap

/-- The number of timers below which every index of the heap is also a non-negative `int`. -/
def maxTimers : Nat := 2 ^ 31

theorem parentIndex_eq {i : Nat} (h : i < maxTimers) : parentIndex i = some (parent i) := by
  unfold maxTimers at h
  have hcast : Int.bmod i (2 ^ 32) = i := Int.bmod_eq_of_le (by omega) (by omega)
  have hne : (i : Int) ≠ -2 ^ 31 := by omega
  have hdiv : (((i : Int) - 1).tdiv 2 % 2 ^ 32).toNat = (i - 1) / 2 := by
    rcases Nat.eq_zero_or_pos i with rfl | hpos
    · rfl
    · have htdiv : ((i : Int) - 1).tdiv 2 = ((i - 1) / 2 : Nat) := by
        rw [Int.tdiv_eq_ediv_of_nonneg (by omega)]
        omega
      rw [htdiv, Int.emod_eq_of_lt (by omega) (by omega), Int.toNat_natCast]
  unfold parentIndex parent
  dsimp only
  rw [hcast, if_neg hne, hdiv]

theorem store_eq {α : Type} {l : List α} {i : Nat} (x : α) (h : i < l.length) :
    store l i x = some (l.set i x) := by
  rw [store, if_pos h]

/-- Nothing but the heap indices of some timers changed. -/
structure IndexOnly (moved : TimerPtr → Prop) (mem mem' : Timers) : Prop where
  deadline : ∀ x, (mem' x).deadline = (mem x).deadline
  pending : ∀ x, (mem' x).pending = (mem x).pending
  closure : ∀ x, (mem' x).closure = (mem x).closure
  other : ∀ x, ¬moved x → mem' x = mem x

namespace IndexOnly

variable {moved moved' : TimerPtr → Prop} {mem mem' mem'' : Timers}

theorem refl (mem : Timers) : IndexOnly moved mem mem :=
  ⟨fun _ => rfl, fun _ => rfl, fun _ => rfl, fun _ _ => rfl⟩

theorem trans (h : IndexOnly moved mem mem') (h' : IndexOnly moved mem' mem'') :
    IndexOnly moved mem mem'' where
  deadline x := (h'.deadline x).trans (h.deadline x)
  pending x := (h'.pending x).trans (h.pending x)
  closure x := (h'.closure x).trans (h.closure x)
  other x hx := (h'.other x hx).trans (h.other x hx)

theorem mono (h : IndexOnly moved mem mem') (hsub : ∀ x, moved x → moved' x) :
    IndexOnly moved' mem mem' :=
  ⟨h.deadline, h.pending, h.closure, fun x hx => h.other x fun hm => hx (hsub x hm)⟩

/-- The order of the heap is about the deadlines only. -/
theorem ordered (h : IndexOnly moved mem mem') {l : List TimerPtr}
    (hord : Ordered (fun x => (mem x).deadline) l) :
    Ordered (fun x => (mem' x).deadline) l := by
  have hkey : (fun x => (mem' x).deadline) = fun x => (mem x).deadline := by
    funext x
    exact h.deadline x
  rw [hkey]
  exact hord

end IndexOnly

theorem setHeapIndex_self (mem : Timers) (t : TimerPtr) (i : Nat) :
    (setHeapIndex mem t i t).heapIndex = i := by
  simp [setHeapIndex]

theorem setHeapIndex_other (mem : Timers) {t x : TimerPtr} (i : Nat) (h : x ≠ t) :
    setHeapIndex mem t i x = mem x := by
  simp [setHeapIndex, h]

theorem setHeapIndex_indexOnly (moved : TimerPtr → Prop) (mem : Timers) {t : TimerPtr} (i : Nat)
    (ht : moved t) : IndexOnly moved mem (setHeapIndex mem t i) := by
  have hfields : ∀ x, (setHeapIndex mem t i x).deadline = (mem x).deadline ∧
      (setHeapIndex mem t i x).pending = (mem x).pending ∧
      (setHeapIndex mem t i x).closure = (mem x).closure := by
    intro x
    by_cases hx : x = t
    · subst hx
      simp [setHeapIndex]
    · rw [setHeapIndex_other mem i hx]
      exact ⟨rfl, rfl, rfl⟩
  exact ⟨fun x => (hfields x).1, fun x => (hfields x).2.1, fun x => (hfields x).2.2,
    fun x hx => setHeapIndex_other mem i fun h => hx (h ▸ ht)⟩

theorem setHeapIndex_deadline (mem : Timers) (t : TimerPtr) (i : Nat) (x : TimerPtr) :
    (setHeapIndex mem t i x).deadline = (mem x).deadline :=
  (setHeapIndex_indexOnly (· = t) mem i rfl).deadline x

/-- Every stored timer, but the one at `hole`, knows its position. -/
def IndexedExcept (mem : Timers) (l : List TimerPtr) (hole : Nat) : Prop :=
  ∀ i x, l[i]? = some x → i ≠ hole → (mem x).heapIndex = i

/-- Every stored timer knows its position. -/
def Indexed (mem : Timers) (l : List TimerPtr) : Prop :=
  ∀ i x, l[i]? = some x → (mem x).heapIndex = i

theorem Indexed.nodup {mem : Timers} {l : List TimerPtr} (h : Indexed mem l) : l.Nodup := by
  rw [List.nodup_iff_getElem?_ne_getElem?]
  intro i j hij hj heq
  have hi : l[i]? = some l[i] := List.getElem?_eq_getElem (hij.trans hj)
  have h1 := h i _ hi
  have h2 := h j _ (heq ▸ hi)
  omega

theorem eq_of_getElem?_of_nodup {α : Type} {l : List α} (hnd : l.Nodup) {i j : Nat} {x : α}
    (hi : l[i]? = some x) (hj : l[j]? = some x) : i = j := by
  obtain ⟨hilt, hix⟩ := List.getElem?_eq_some_iff.mp hi
  obtain ⟨hjlt, hjx⟩ := List.getElem?_eq_some_iff.mp hj
  exact (List.Nodup.getElem_inj_iff hnd).mp (hix.trans hjx.symm)

/-- The timer stored in the hole is told its position. -/
theorem IndexedExcept.fill {t : TimerPtr} {i : Nat} {timers : List TimerPtr} {mem : Timers}
    (hidx : IndexedExcept mem (timers.set i t) i) (hi : i < timers.length)
    (hnd : (timers.set i t).Nodup) : Indexed (setHeapIndex mem t i) (timers.set i t) := by
  intro j x hx
  have ht : (timers.set i t)[i]? = some t := List.getElem?_set_self hi
  by_cases hj : j = i
  · subst hj
    rw [ht] at hx
    cases hx
    exact setHeapIndex_self mem t j
  · have hne : x ≠ t := by
      rintro rfl
      exact hj (eq_of_getElem?_of_nodup hnd hx ht)
    rw [setHeapIndex_other mem i hne]
    exact hidx j x hx hj

theorem set_set_eq_exchange (timers : List TimerPtr) (i j : Nat) (t p : TimerPtr) :
    (timers.set i p).set j t = exchange (timers.set i t) i j t p := by
  rw [exchange, List.set_set]

/-- One round of either adjustment, seen with the moving timer in the hole: the two positions are
exchanged, and the timer that filled the old hole learns its new position. -/
theorem move_indexed {t p : TimerPtr} {i j : Nat} {timers : List TimerPtr} {mem : Timers}
    (hij : i ≠ j) (hi : i < timers.length) (hp : timers[j]? = some p)
    (hnd : (timers.set i t).Nodup) (hidx : IndexedExcept mem (timers.set i t) i) :
    ((timers.set i p).set j t).Nodup ∧
      IndexedExcept (setHeapIndex mem p i) ((timers.set i p).set j t) j := by
  have ht : (timers.set i t)[i]? = some t := List.getElem?_set_self hi
  have hp' : (timers.set i t)[j]? = some p := by rwa [List.getElem?_set_ne hij]
  rw [set_set_eq_exchange]
  refine ⟨(exchange_perm ht hp').nodup_iff.mpr hnd, fun k x hx hk => ?_⟩
  rw [getElem?_exchange ht hp', if_neg hk] at hx
  split_ifs at hx with hki
  · cases hx
    rw [setHeapIndex_self, hki]
  · have hne : x ≠ p := by
      rintro rfl
      exact hk (eq_of_getElem?_of_nodup hnd hx hp')
    rw [setHeapIndex_other mem i hne]
    exact hidx k x hx hki

/-- What either adjustment ends with, from the array `l` it started on with the moving timer in
the hole. -/
structure Adjusted (key : TimerPtr → Time) (l : List TimerPtr) (mem : Timers)
    (l' : List TimerPtr) (mem' : Timers) : Prop where
  perm : l'.Perm l
  ordered : Ordered key l'
  indexed : Indexed mem' l'
  frame : IndexOnly (· ∈ l) mem mem'

/-- The hole closes: the moving timer is stored and told its position. -/
theorem place_spec {key : TimerPtr → Time} {t : TimerPtr} {i : Nat} {timers : List TimerPtr}
    {mem : Timers} (hi : i < timers.length) (hnd : (timers.set i t).Nodup)
    (hidx : IndexedExcept mem (timers.set i t) i) (hord : Ordered key (timers.set i t)) :
    place t i timers mem = some (timers.set i t, setHeapIndex mem t i) ∧
      Adjusted key (timers.set i t) mem (timers.set i t) (setHeapIndex mem t i) := by
  have ht : (timers.set i t)[i]? = some t := List.getElem?_set_self hi
  refine ⟨?_, List.Perm.refl _, hord, hidx.fill hi hnd,
    setHeapIndex_indexOnly _ mem i (List.mem_of_getElem? ht)⟩
  rw [place, store_eq t hi]
  rfl

/-- What follows one round carries over to the array before it. -/
theorem Adjusted.of_move {key : TimerPtr → Time} {t p : TimerPtr} {i j : Nat}
    {timers l' : List TimerPtr} {mem mem' : Timers} (hij : i ≠ j) (hi : i < timers.length)
    (hp : timers[j]? = some p)
    (h : Adjusted key ((timers.set i p).set j t) (setHeapIndex mem p i) l' mem') :
    Adjusted key (timers.set i t) mem l' mem' := by
  have ht : (timers.set i t)[i]? = some t := List.getElem?_set_self hi
  have hp' : (timers.set i t)[j]? = some p := by rwa [List.getElem?_set_ne hij]
  have hperm : ((timers.set i p).set j t).Perm (timers.set i t) := by
    rw [set_set_eq_exchange]
    exact exchange_perm ht hp'
  refine ⟨h.perm.trans hperm, h.ordered, h.indexed, ?_⟩
  apply (setHeapIndex_indexOnly _ mem i (List.mem_of_getElem? hp')).trans
  exact h.frame.mono fun x hx => hperm.mem_iff.mp hx

/-! ### Adjusting upwards -/

theorem adjustUpwardsLoop_spec (key : TimerPtr → Time) (t : TimerPtr) (fuel : Nat) :
    ∀ (i : Nat) (timers : List TimerPtr) (mem : Timers), i < fuel → i < timers.length →
      timers.length ≤ maxTimers → (∀ x, (mem x).deadline = key x) → (timers.set i t).Nodup →
      IndexedExcept mem (timers.set i t) i → UpReady key (timers.set i t) i →
      ∃ timers' mem', adjustUpwardsLoop t fuel i timers mem = some (timers', mem') ∧
        Adjusted key (timers.set i t) mem timers' mem' ∧
        (timers'[0]? = some t → 0 < i → ∀ root, timers[0]? = some root → key t < key root) := by
  induction fuel with
  | zero => intro i _ _ hi; omega
  | succ fuel ih =>
      intro i timers mem hfuel hi hmax hkey hnd hidx hup
      have ht : (timers.set i t)[i]? = some t := List.getElem?_set_self hi
      by_cases hpos : 0 < i
      · have hlt := parent_lt hpos
        have hp : timers[parent i]? = some timers[parent i] :=
          List.getElem?_eq_getElem (hlt.trans hi)
        generalize timers[parent i] = p at hp
        have hp' : (timers.set i t)[parent i]? = some p := by
          rwa [List.getElem?_set_ne (by omega)]
        have hunfold : adjustUpwardsLoop t (fuel + 1) i timers mem =
            if key p ≤ key t then place t i timers mem
            else adjustUpwardsLoop t fuel (parent i) (timers.set i p) (setHeapIndex mem p i) := by
          simp only [adjustUpwardsLoop, gt_iff_lt, hpos, ite_true,
            parentIndex_eq (hi.trans_le hmax), Option.bind_eq_bind, Option.bind_some, hp, hkey,
            store_eq p hi]
        rw [hunfold]
        split_ifs with hle
        · have hord : Ordered key (timers.set i t) := by
            apply hup.finish
            intro a b _ ha hb
            rw [hp'] at ha
            rw [ht] at hb
            cases ha
            cases hb
            exact hle
          obtain ⟨hplace, hadj⟩ := place_spec hi hnd hidx hord
          refine ⟨_, _, hplace, hadj, fun h0 _ => ?_⟩
          exact absurd (eq_of_getElem?_of_nodup hnd h0 ht) (by omega)
        · have hlt' : key t < key p := not_le.mp hle
          obtain ⟨hnd', hidx'⟩ := move_indexed (by omega) hi hp hnd hidx
          have hup' : UpReady key ((timers.set i p).set (parent i) t) (parent i) := by
            rw [set_set_eq_exchange]
            exact hup.move hpos ht hp' hlt'
          obtain ⟨timers', mem', hrun, hadj, hfirst⟩ := ih (parent i) (timers.set i p)
            (setHeapIndex mem p i) (by omega) (by rw [List.length_set]; omega)
            (by rwa [List.length_set]) (fun x => (setHeapIndex_deadline mem p i x).trans (hkey x))
            hnd' hidx' hup'
          refine ⟨timers', mem', hrun, hadj.of_move (by omega) hi hp, fun h0 _ root hr => ?_⟩
          by_cases hpar : parent i = 0
          · rw [hpar, hr] at hp
            cases hp
            exact hlt'
          · refine hfirst h0 (by omega) root ?_
            rwa [List.getElem?_set_ne (by omega)]
      · obtain ⟨hplace, hadj⟩ := place_spec hi hnd hidx (hup.finish fun _ _ h => absurd h hpos)
        refine ⟨_, _, ?_, hadj, fun _ h => absurd h hpos⟩
        rw [adjustUpwardsLoop, if_neg (by omega)]
        exact hplace

theorem adjustUpwards_spec (key : TimerPtr → Time) {t : TimerPtr} {i : Nat}
    {timers : List TimerPtr} {mem : Timers} (ht : timers[i]? = some t)
    (hmax : timers.length ≤ maxTimers) (hkey : ∀ x, (mem x).deadline = key x)
    (hnd : timers.Nodup) (hidx : IndexedExcept mem timers i) (hup : UpReady key timers i) :
    ∃ timers' mem', adjustUpwards i timers mem = some (timers', mem') ∧
      Adjusted key timers mem timers' mem' ∧
      (timers'[0]? = some t → 0 < i → ∀ root, timers[0]? = some root → key t < key root) := by
  obtain ⟨hi, hget⟩ := List.getElem?_eq_some_iff.mp ht
  have hset : timers.set i t = timers := by
    rw [← hget]
    exact List.set_getElem_self hi
  have hspec := adjustUpwardsLoop_spec key t (i + 1) i timers mem (by omega) hi hmax hkey
  rw [hset] at hspec
  simp only [adjustUpwards, ht, Option.bind_eq_bind, Option.bind_some]
  exact hspec hnd hidx hup

/-! ### Adjusting downwards -/

/-- The chosen child is in range and is at or before the other one. -/
theorem nextIndex_spec {key : TimerPtr → Time} {i : Nat} {timers : List TimerPtr} {mem : Timers}
    (hkey : ∀ x, (mem x).deadline = key x) (hmax : timers.length ≤ maxTimers)
    (hleft : 1 + 2 * i < timers.length) :
    ∃ next n, nextIndex (1 + 2 * i) timers mem = some next ∧ timers[next]? = some n ∧
      0 < next ∧ parent next = i ∧
      ∀ j b, 0 < j → parent j = i → timers[j]? = some b → key n ≤ key b := by
  unfold maxTimers at hmax
  have hright : (1 + 2 * i + 1) % 2 ^ 32 = 2 + 2 * i := by omega
  have hl : timers[1 + 2 * i]? = some timers[1 + 2 * i] := List.getElem?_eq_getElem hleft
  generalize timers[1 + 2 * i] = l at hl
  have hchild : ∀ j, 0 < j → parent j = i → j = 1 + 2 * i ∨ j = 2 + 2 * i := by
    intro j hj hpj
    unfold parent at hpj
    omega
  simp only [nextIndex, hright]
  split_ifs with hr
  · have hrr : timers[2 + 2 * i]? = some timers[2 + 2 * i] := List.getElem?_eq_getElem hr
    generalize timers[2 + 2 * i] = r at hrr
    simp only [Option.bind_eq_bind, hl, hrr, Option.bind_some, hkey, gt_iff_lt]
    by_cases hlt : key r < key l
    · refine ⟨2 + 2 * i, r, by rw [if_pos hlt], hrr, by omega, by unfold parent; omega, ?_⟩
      intro j b hj hpj hb
      rcases hchild j hj hpj with rfl | rfl
      · rw [hl] at hb
        cases hb
        exact hlt.le
      · rw [hrr] at hb
        cases hb
        exact le_rfl
    · refine ⟨1 + 2 * i, l, by rw [if_neg hlt], hl, by omega, by unfold parent; omega, ?_⟩
      intro j b hj hpj hb
      rcases hchild j hj hpj with rfl | rfl
      · rw [hl] at hb
        cases hb
        exact le_rfl
      · rw [hrr] at hb
        cases hb
        exact not_lt.mp hlt
  · refine ⟨1 + 2 * i, l, rfl, hl, by omega, by unfold parent; omega, ?_⟩
    intro j b hj hpj hb
    rcases hchild j hj hpj with rfl | rfl
    · rw [hl] at hb
      cases hb
      exact le_rfl
    · exact absurd (List.getElem?_eq_some_iff.mp hb).1 hr

theorem adjustDownwardsLoop_spec (key : TimerPtr → Time) (t : TimerPtr) (fuel : Nat) :
    ∀ (i : Nat) (timers : List TimerPtr) (mem : Timers), timers.length - i ≤ fuel →
      i < timers.length → timers.length ≤ maxTimers → (∀ x, (mem x).deadline = key x) →
      (timers.set i t).Nodup → IndexedExcept mem (timers.set i t) i →
      DownReady key (timers.set i t) i →
      ∃ timers' mem', adjustDownwardsLoop t fuel i timers mem = some (timers', mem') ∧
        Adjusted key (timers.set i t) mem timers' mem' := by
  induction fuel with
  | zero => intro i timers _ hfuel hi; omega
  | succ fuel ih =>
      intro i timers mem hfuel hi hmax hkey hnd hidx hdown
      have ht : (timers.set i t)[i]? = some t := List.getElem?_set_self hi
      have hmod : (1 + 2 * i) % 2 ^ 32 = 1 + 2 * i := by
        unfold maxTimers at hmax
        omega
      -- the children of the hole are the same in the array and with the timer in the hole
      have hbelow : ∀ j, 0 < j → parent j = i → (timers.set i t)[j]? = timers[j]? := by
        intro j hj hpj
        have := parent_lt hj
        exact List.getElem?_set_ne (by omega)
      by_cases hleaf : timers.length ≤ 1 + 2 * i
      · have hord : Ordered key (timers.set i t) := by
          apply hdown.finish
          intro j a b hj hpj _ hb
          rw [hbelow j hj hpj] at hb
          have hlt := (List.getElem?_eq_some_iff.mp hb).1
          unfold parent at hpj
          omega
        obtain ⟨hplace, hadj⟩ := place_spec hi hnd hidx hord
        refine ⟨_, _, ?_, hadj⟩
        simp only [adjustDownwardsLoop, hmod, ge_iff_le, hleaf, ite_true]
        exact hplace
      · obtain ⟨next, n, hnext, hn, hnpos, hnpar, hleast⟩ :=
          nextIndex_spec hkey hmax (not_le.mp hleaf)
        have hin : i < next := hnpar ▸ parent_lt hnpos
        have hnlt : next < timers.length := (List.getElem?_eq_some_iff.mp hn).1
        have hn' : (timers.set i t)[next]? = some n := by rw [hbelow next hnpos hnpar, hn]
        have hunfold : adjustDownwardsLoop t (fuel + 1) i timers mem =
            if key t ≤ key n then place t i timers mem
            else adjustDownwardsLoop t fuel next (timers.set i n) (setHeapIndex mem n i) := by
          simp only [adjustDownwardsLoop, hmod, ge_iff_le, hleaf, ite_false, hnext,
            Option.bind_eq_bind, Option.bind_some, hn, hkey, store_eq n hi]
        rw [hunfold]
        split_ifs with hle
        · have hord : Ordered key (timers.set i t) := by
            apply hdown.finish
            intro j a b hj hpj ha hb
            rw [ht] at ha
            cases ha
            rw [hbelow j hj hpj] at hb
            exact hle.trans (hleast j b hj hpj hb)
          exact ⟨_, _, place_spec hi hnd hidx hord⟩
        · have hlt : key n < key t := not_le.mp hle
          obtain ⟨hnd', hidx'⟩ := move_indexed (by omega) hi hn hnd hidx
          have hdown' : DownReady key ((timers.set i n).set next t) next := by
            rw [set_set_eq_exchange]
            refine hdown.move hnpos hnpar ht hn' hlt fun j b hj hpj hb => ?_
            rw [hbelow j hj hpj] at hb
            exact hleast j b hj hpj hb
          obtain ⟨timers', mem', hrun, hadj⟩ := ih next (timers.set i n) (setHeapIndex mem n i)
            (by rw [List.length_set]; omega) (by rwa [List.length_set]) (by rwa [List.length_set])
            (fun x => (setHeapIndex_deadline mem n i x).trans (hkey x)) hnd' hidx' hdown'
          exact ⟨timers', mem', hrun, hadj.of_move (by omega) hi hn⟩

theorem adjustDownwards_spec {key : TimerPtr → Time} {t : TimerPtr} {i : Nat}
    {timers : List TimerPtr} {mem : Timers} (ht : timers[i]? = some t)
    (hmax : timers.length ≤ maxTimers) (hkey : ∀ x, (mem x).deadline = key x)
    (hnd : timers.Nodup) (hidx : IndexedExcept mem timers i) (hdown : DownReady key timers i) :
    ∃ timers' mem', adjustDownwards i timers mem = some (timers', mem') ∧
      Adjusted key timers mem timers' mem' := by
  obtain ⟨hi, hget⟩ := List.getElem?_eq_some_iff.mp ht
  have hset : timers.set i t = timers := by
    rw [← hget]
    exact List.set_getElem_self hi
  have hspec := adjustDownwardsLoop_spec key t (timers.length - i) i timers mem le_rfl hi hmax hkey
  rw [hset] at hspec
  simp only [adjustDownwards, ht, Option.bind_eq_bind, Option.bind_some]
  exact hspec hnd hidx hdown

/-! ### The operations -/

/-- The invariant of a heap: the order, the stored indices, and a size every index of which is a
non-negative `int`. -/
structure Valid (h : TimerHeap) (mem : Timers) : Prop where
  ordered : Ordered (fun x => (mem x).deadline) h.timers
  indexed : Indexed mem h.timers
  size : h.timers.length ≤ maxTimers

theorem new_valid (mem : Timers) : Valid new mem :=
  ⟨ordered_nil, fun i x hx => by simp [new] at hx, Nat.zero_le _⟩

theorem Valid.congr {h : TimerHeap} {mem mem' : Timers} (hv : Valid h mem)
    (hsame : ∀ x ∈ h.timers, (mem' x).deadline = (mem x).deadline ∧
      (mem' x).heapIndex = (mem x).heapIndex) : Valid h mem' := by
  refine ⟨fun i a b hi ha hb => ?_, fun i x hx => ?_, hv.size⟩
  · dsimp only
    rw [(hsame a (List.mem_of_getElem? ha)).1, (hsame b (List.mem_of_getElem? hb)).1]
    exact hv.ordered i a b hi ha hb
  · rw [(hsame x (List.mem_of_getElem? hx)).2]
    exact hv.indexed i x hx

theorem Valid.nodup {h : TimerHeap} {mem : Timers} (hv : Valid h mem) : h.timers.Nodup :=
  hv.indexed.nodup

theorem Valid.heapIndex_lt {h : TimerHeap} {mem : Timers} (hv : Valid h mem) {t : TimerPtr}
    (ht : t ∈ h.timers) : (mem t).heapIndex < h.timers.length := by
  obtain ⟨i, hi⟩ := List.mem_iff_getElem?.mp ht
  rw [hv.indexed i t hi]
  exact (List.getElem?_eq_some_iff.mp hi).1

theorem Valid.heapIndex_ne {h : TimerHeap} {mem : Timers} (hv : Valid h mem) {t : TimerPtr}
    (ht : t ∈ h.timers) : (mem t).heapIndex ≠ kInvalidIndex := by
  have hlt := hv.heapIndex_lt ht
  have hsize := hv.size
  unfold maxTimers at hsize
  unfold kInvalidIndex
  omega

/-- The top has a minimal deadline. -/
theorem Valid.top_le {h : TimerHeap} {mem : Timers} (hv : Valid h mem) {root t : TimerPtr}
    (hroot : h.top = some root) (ht : t ∈ h.timers) : (mem root).deadline ≤ (mem t).deadline :=
  hv.ordered.root_le_of_mem hroot ht

theorem top_eq_none {h : TimerHeap} : h.top = none ↔ h.timers = [] := by
  simp [top]

theorem empty_iff {h : TimerHeap} : h.empty = true ↔ h.timers = [] := by
  simp [empty]

theorem top_mem {h : TimerHeap} {t : TimerPtr} (ht : h.top = some t) : t ∈ h.timers :=
  List.mem_of_getElem? ht

theorem maybeShrink_timers (h : TimerHeap) : (maybeShrink h).timers = h.timers := by
  unfold maybeShrink
  split_ifs <;> rfl

/-- Adding a timer that is not in the heap. The answer is true exactly when the timer is the new
top, and exactly when the heap was empty or its top had a later deadline. -/
theorem add_spec {h : TimerHeap} {mem : Timers} (hv : Valid h mem) {t : TimerPtr}
    (ht : t ∉ h.timers) (hsize : h.timers.length < maxTimers) :
    ∃ first h' mem', h.add mem t = some (first, h', mem') ∧ Valid h' mem' ∧
      h'.timers.Perm (t :: h.timers) ∧ IndexOnly (· ∈ t :: h.timers) mem mem' ∧
      (first = true ↔ h'.top = some t) ∧
      (first = true ↔ ∀ root, h.top = some root → (mem t).deadline < (mem root).deadline) := by
  have hmod : h.timerCount % 2 ^ 32 = h.timers.length := by
    unfold maxTimers at hsize
    unfold timerCount
    omega
  have hlast : (h.timers ++ [t])[h.timers.length]? = some t := by simp
  have hperm : (h.timers ++ [t]).Perm (t :: h.timers) := List.perm_append_singleton t h.timers
  have hstart := setHeapIndex_indexOnly ((· ∈ t :: h.timers)) mem h.timers.length
    List.mem_cons_self
  have hidx : IndexedExcept (setHeapIndex mem t h.timers.length) (h.timers ++ [t])
      h.timers.length := by
    intro i x hx hi
    have hlt : i < h.timers.length := by
      have := (List.getElem?_eq_some_iff.mp hx).1
      rw [List.length_append, List.length_singleton] at this
      omega
    rw [List.getElem?_append_left hlt] at hx
    have hne : x ≠ t := by
      rintro rfl
      exact ht (List.mem_of_getElem? hx)
    rw [setHeapIndex_other mem _ hne]
    exact hv.indexed i x hx
  obtain ⟨timers', mem', hrun, hadj, hfirst⟩ := adjustUpwards_spec
    (fun x => (mem x).deadline) hlast (by simpa using Nat.succ_le_of_lt hsize) hstart.deadline
    (hperm.nodup_iff.mpr (List.nodup_cons.mpr ⟨ht, hv.nodup⟩)) hidx (hv.ordered.upReady_concat t)
  have hperm' : timers'.Perm (t :: h.timers) := hadj.perm.trans hperm
  have hframe : IndexOnly (· ∈ t :: h.timers) mem mem' :=
    hstart.trans (hadj.frame.mono fun x hx => hperm.mem_iff.mp hx)
  obtain ⟨i, hi⟩ := List.mem_iff_getElem?.mp (hperm'.mem_iff.mpr List.mem_cons_self)
  have hzero : ((mem' t).heapIndex == 0) = true ↔ timers'[0]? = some t := by
    rw [beq_iff_eq, hadj.indexed i t hi]
    constructor
    · rintro rfl
      exact hi
    · exact fun h0 => eq_of_getElem?_of_nodup hadj.indexed.nodup hi h0
  have hord : Ordered (fun x => (mem' x).deadline) timers' := hframe.ordered hadj.ordered
  refine ⟨_, { h.pushBack t with timers := timers' }, mem', ?_, ⟨hord, hadj.indexed, ?_⟩, hperm',
    hframe, hzero, hzero.trans ⟨fun h0 root hroot => ?_, fun hlt => ?_⟩⟩
  · simp only [add, hmod, setHeapIndex_self, pushBack, hrun, Option.bind_eq_bind, Option.bind_some]
  · rw [hperm'.length_eq]
    exact hsize
  · have hpos : 0 < h.timers.length := (List.getElem?_eq_some_iff.mp hroot).1
    exact hfirst h0 hpos root (by rwa [List.getElem?_append_left hpos])
  · -- a later top would be a stored timer with a deadline at or before the new one's
    obtain ⟨root, hroot⟩ : ∃ root, timers'[0]? = some root :=
      ⟨_, List.getElem?_eq_getElem (by rw [hperm'.length_eq]; exact Nat.succ_pos _)⟩
    rcases List.mem_cons.mp (hperm'.mem_iff.mp (List.mem_of_getElem? hroot)) with rfl | hmem
    · exact hroot
    · obtain ⟨old, hold⟩ : ∃ old, h.timers[0]? = some old :=
        ⟨_, List.getElem?_eq_getElem (List.length_pos_of_mem hmem)⟩
      have h1 := hadj.ordered.root_le_of_mem hroot (hperm'.mem_iff.mpr List.mem_cons_self)
      have h2 := hv.ordered.root_le_of_mem hold hmem
      exact absurd (h2.trans h1) (not_le.mpr (hlt old hold))

/-- Beyond the size limit the parent index of the new timer overflows. -/
theorem add_eq_some_size {h : TimerHeap} {mem : Timers} (hv : Valid h mem) {t : TimerPtr}
    {r : Bool × TimerHeap × Timers} (hadd : h.add mem t = some r) :
    h.timers.length < maxTimers := by
  refine lt_of_le_of_ne hv.size fun hfull => ?_
  have hlast : (h.timers ++ [t])[maxTimers]? = some t := by simp [← hfull]
  have hmod : h.timerCount % 2 ^ 32 = maxTimers := by
    unfold timerCount
    rw [hfull]
    decide
  have hnone : parentIndex maxTimers = none := by decide
  simp only [add, hmod, setHeapIndex_self, pushBack, adjustUpwards, hlast, adjustUpwardsLoop,
    hnone, show maxTimers > 0 by decide, ite_true, Option.bind_eq_bind, Option.bind_some,
    Option.bind_none] at hadd
  cases hadd

/-- What a call of `Add` with a defined result did. -/
theorem add_of_some {h h' : TimerHeap} {mem mem' : Timers} (hv : Valid h mem) {t : TimerPtr}
    (ht : t ∉ h.timers) {first : Bool} (hadd : h.add mem t = some (first, h', mem')) :
    Valid h' mem' ∧ h'.timers.Perm (t :: h.timers) ∧ IndexOnly (· ∈ t :: h.timers) mem mem' ∧
      (first = true ↔ ∀ root, h.top = some root → (mem t).deadline < (mem root).deadline) := by
  obtain ⟨first', h'', mem'', hadd', hvalid, hperm, hframe, -, hfirst⟩ :=
    add_spec hv ht (add_eq_some_size hv hadd)
  rw [hadd] at hadd'
  cases hadd'
  exact ⟨hvalid, hperm, hframe, hfirst⟩

/-- Filling the slot of `t` with the last element takes `t` out of the array. -/
theorem perm_cons_set {l : List TimerPtr} {i : Nat} {t : TimerPtr} (ht : l[i]? = some t)
    (last : TimerPtr) : (l ++ [last]).Perm (t :: l.set i last) := by
  obtain ⟨hi, rfl⟩ := List.getElem?_eq_some_iff.mp ht
  calc
    (l ++ [last]).Perm (last :: l) := List.perm_append_singleton last l
    _ |>.Perm (last :: l[i] :: l.eraseIdx i) :=
        (List.getElem_cons_eraseIdx_perm hi).symm.cons last
    _ |>.Perm (l[i] :: last :: l.eraseIdx i) := List.Perm.swap _ _ _
    _ |>.Perm (l[i] :: l.set i last) := (List.set_perm_cons_eraseIdx hi last).symm.cons _

/-- The freed slot holds the timer that was last; one of the two adjustments puts it in order. -/
theorem refill_slot_spec {key : TimerPtr → Time} {l : List TimerPtr} {mem : Timers} {i : Nat}
    {old last p : TimerPtr} (hord : Ordered key l) (hold : l[i]? = some old)
    (hmax : l.length ≤ maxTimers) (hkey : ∀ x, (mem x).deadline = key x)
    (hindexed : Indexed mem (l.set i last)) (hp : (l.set i last)[parent i]? = some p) :
    ∃ l' mem', (if key p > key last then adjustUpwards i (l.set i last) mem
        else adjustDownwards i (l.set i last) mem) = some (l', mem') ∧
      Adjusted key (l.set i last) mem l' mem' := by
  have hi : i < l.length := (List.getElem?_eq_some_iff.mp hold).1
  have hlast : (l.set i last)[i]? = some last := List.getElem?_set_self hi
  have hexcept : IndexedExcept mem (l.set i last) i := fun j x hx _ => hindexed j x hx
  have hlen : (l.set i last).length ≤ maxTimers := by rwa [List.length_set]
  have habove : 0 < i → l[parent i]? = some p := by
    intro hpos
    have := parent_lt hpos
    rwa [List.getElem?_set_ne (by omega)] at hp
  split_ifs with hgt
  · have hpos : 0 < i := by
      rcases Nat.eq_zero_or_pos i with rfl | hpos
      · -- position 0 is compared with itself, so it is never adjusted upwards
        rw [show parent 0 = 0 from rfl, hlast] at hp
        cases hp
        exact absurd hgt (lt_irrefl _)
      · exact hpos
    obtain ⟨l', mem', hrun, hadj, _⟩ := adjustUpwards_spec key hlast hlen hkey hindexed.nodup hexcept
      (hord.upReady_set hold (habove hpos) hpos hgt)
    exact ⟨l', mem', hrun, hadj⟩
  · refine adjustDownwards_spec hlast hlen hkey hindexed.nodup hexcept
      (hord.downReady_set hold fun above hpos ha => ?_)
    rw [habove hpos] at ha
    cases ha
    exact not_lt.mp hgt

/-- The heap without its last timer. -/
theorem Valid.of_concat {h : TimerHeap} {mem : Timers} (hv : Valid h mem) {l : List TimerPtr}
    {last : TimerPtr} (hl : h.timers = l ++ [last]) :
    Ordered (fun x => (mem x).deadline) l ∧ Indexed mem l ∧ l.length + 1 ≤ maxTimers := by
  have hdrop : h.timers.dropLast = l := by rw [hl, List.dropLast_concat]
  refine ⟨hdrop ▸ hv.ordered.dropLast, fun j x hx => hv.indexed j x ?_, ?_⟩
  · rw [hl, List.getElem?_append_left (List.getElem?_eq_some_iff.mp hx).1]
    exact hx
  · have hsize := hv.size
    rwa [hl, List.length_append] at hsize

/-- The last timer is taken off the end. -/
theorem remove_last_spec {h : TimerHeap} {mem : Timers} (hv : Valid h mem) {l : List TimerPtr}
    {last : TimerPtr} (hl : h.timers = l ++ [last]) :
    ∃ h' mem', h.remove mem last = some (h', mem') ∧ Valid h' mem' ∧
      h'.timers.Perm (h.timers.erase last) ∧ IndexOnly (· ∈ h.timers.erase last) mem mem' := by
  obtain ⟨hord, hindexed, hmax⟩ := hv.of_concat hl
  have hcount : h.timerCount = l.length + 1 := by simp [timerCount, hl]
  have hidx : (mem last).heapIndex = l.length := hv.indexed l.length last (by simp [hl])
  have hdrop : h.timers.dropLast = l := by rw [hl, List.dropLast_concat]
  have hperm : l.Perm (h.timers.erase last) := by
    refine (List.perm_cons last).mp (List.Perm.trans ?_ (List.perm_cons_erase (by simp [hl])))
    rw [hl]
    exact (List.perm_append_singleton last l).symm
  refine ⟨maybeShrink { h with timers := l }, mem, ?_, ⟨?_, ?_, ?_⟩, ?_, IndexOnly.refl mem⟩
  · simp only [remove, hidx, hcount, ite_true, hdrop]
  all_goals rw [maybeShrink_timers]
  · exact hord
  · exact hindexed
  · exact (Nat.le_succ _).trans hmax
  · exact hperm

/-- Another timer's slot is filled with the last timer, which then moves up or down. -/
theorem remove_inner_spec {h : TimerHeap} {mem : Timers} (hv : Valid h mem) {l : List TimerPtr}
    {last : TimerPtr} (hl : h.timers = l ++ [last]) {i : ℕ} {t : TimerPtr} (hi : l[i]? = some t) :
    ∃ h' mem', h.remove mem t = some (h', mem') ∧ Valid h' mem' ∧
      h'.timers.Perm (h.timers.erase t) ∧ IndexOnly (· ∈ h.timers.erase t) mem mem' := by
  obtain ⟨hord, hindexed, hmax⟩ := hv.of_concat hl
  have hcount : h.timerCount = l.length + 1 := by simp [timerCount, hl]
  have hil : i < l.length := (List.getElem?_eq_some_iff.mp hi).1
  have hidx : (mem t).heapIndex = i := hindexed i t hi
  have hend : i ≠ l.length := hil.ne
  have hlt : i < h.timers.length := by
    rw [hl, List.length_append]
    omega
  have hlast : h.timers[l.length]? = some last := by simp [hl]
  have hset : h.timers.set i last = l.set i last ++ [last] := by
    rw [hl, List.set_append_left _ _ hil]
  have ht : t ∈ h.timers := by
    rw [hl]
    exact List.mem_append_left _ (List.mem_of_getElem? hi)
  have hperm : (l.set i last).Perm (h.timers.erase t) := by
    refine (List.perm_cons t).mp (List.Perm.trans ?_ (List.perm_cons_erase ht))
    rw [hl]
    exact (perm_cons_set hi last).symm
  have hgetl : (l.set i last)[i]? = some last := List.getElem?_set_self hil
  have hnd : (l.set i last).Nodup := hperm.nodup_iff.mpr (hv.nodup.erase t)
  have hfill := setHeapIndex_indexOnly ((· ∈ l.set i last)) mem i (List.mem_of_getElem? hgetl)
  have hindexed' : Indexed (setHeapIndex mem last i) (l.set i last) := by
    refine IndexedExcept.fill (fun j x hx hj => ?_) hil hnd
    rw [List.getElem?_set_ne (Ne.symm hj)] at hx
    exact hindexed j x hx
  obtain ⟨p, hp⟩ : ∃ p, (l.set i last)[parent i]? = some p :=
    ⟨_, List.getElem?_eq_getElem (by rw [List.length_set]; exact (parent_le i).trans_lt hil)⟩
  obtain ⟨l', mem', hrun, hadj⟩ := refill_slot_spec hord hi (by omega) hfill.deadline hindexed' hp
  have hframe : IndexOnly (· ∈ l.set i last) mem mem' := hfill.trans hadj.frame
  refine ⟨maybeShrink { h with timers := l' }, mem', ?_, ⟨?_, ?_, ?_⟩, ?_,
    hframe.mono fun x hx => hperm.mem_iff.mp hx⟩
  · simp only [remove, hidx, hcount, Nat.add_right_cancel_iff, hend, ite_false,
      Nat.add_sub_cancel, hlast, store_eq last hlt, hset, List.dropLast_concat,
      parentIndex_eq (hil.trans (hmax.trans_lt' (Nat.lt_succ_self _))), hp, hgetl,
      hfill.deadline, Option.bind_eq_bind, Option.bind_some]
    split_ifs at hrun ⊢ <;> simp only [hrun, Option.bind_some]
  all_goals rw [maybeShrink_timers]
  · exact hframe.ordered hadj.ordered
  · exact hadj.indexed
  · rw [hadj.perm.length_eq, List.length_set]
    omega
  · exact hadj.perm.trans hperm

/-- Removing a stored timer, at whatever position it is. -/
theorem remove_spec {h : TimerHeap} {mem : Timers} (hv : Valid h mem) {t : TimerPtr}
    (ht : t ∈ h.timers) :
    ∃ h' mem', h.remove mem t = some (h', mem') ∧ Valid h' mem' ∧
      h'.timers.Perm (h.timers.erase t) ∧ IndexOnly (· ∈ h.timers.erase t) mem mem' := by
  obtain ⟨l, last, hl⟩ : ∃ l last, h.timers = l ++ [last] := by
    rcases List.eq_nil_or_concat h.timers with hnil | hcat
    · simp [hnil] at ht
    · simpa using hcat
  rw [hl] at ht
  rcases List.mem_append.mp ht with hin | hin
  · obtain ⟨i, hi⟩ := List.mem_iff_getElem?.mp hin
    exact remove_inner_spec hv hl hi
  · rw [List.mem_singleton.mp hin]
    exact remove_last_spec hv hl

/-- `Pop` is the removal of the top. -/
theorem pop_eq_remove {h : TimerHeap} {t : TimerPtr} (ht : h.top = some t) (mem : Timers) :
    h.pop mem = h.remove mem t := by
  simp only [pop, ht, Option.bind_eq_bind, Option.bind_some]

end Iomgr.TimerHeap
