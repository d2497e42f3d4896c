import Iomgr.IOBufferLifetime

/-!
Programs on buffers. Whatever they do, each block is freed once and as it was allocated. No buffer
points into a block that was freed until a buffer below a drained one grows, and exactly then it does.
-/

namespace Iomgr

namespace IOBufferMemory

open IOBufferHeap

/-- What every step keeps. -/
structure Inv (s : IOBufferHeap) : Prop where
  counted : Counted none s
  owned : MemoryOwned s

theorem inv_new : Inv IOBufferHeap.new := ⟨counted_new, memoryOwned_new⟩

/-- `realloc` does not fail with a block in its hands. -/
def Granted (s : IOBufferHeap) : Action → Prop
  | .setCapacity i capacity answer =>
      ∀ y o m, s.deref i = some (y, o) → o.owned = some (m, .malloc) → answer = .null → capacity = 0
  | _ => True

/-- A block that `realloc` frees is not pointed into by another buffer. -/
def Undisturbed (s : IOBufferHeap) : Action → Prop
  | .setCapacity i capacity answer =>
      ∀ y o m, s.deref i = some (y, o) → o.owned = some (m, .malloc) → FreesOld capacity answer →
        ∀ x b, s.buffer x = some b → x ≠ y → b.data.memory ≠ .block m
  | _ => True

/-- A block that `data()` of a buffer points into was not freed. How far behind its start `data()` is
is not looked at, nor is a `data()` that points into no block: null, also with the offset that a failed
`realloc` leaves, or the caller's memory. -/
def Alive (s : IOBufferHeap) : Prop :=
  ∀ y o m, s.buffer y = some o → o.data.memory = .block m → m ∈ s.live

variable {s t : IOBufferHeap} {i y base : Nat} {o : IOBufferObject} {bytes : Int}

theorem deref_eq_some : s.deref i = some (y, o) ↔ s.target i = some y ∧ s.buffer y = some o := by
  simp [deref, Option.bind_eq_some_iff]

/-! ### One step -/

/-- The step keeps the memory in order, and the pointers if nothing is moved below them. -/
def Keeps (s : IOBufferHeap) (undisturbed : Prop) (t : IOBufferHeap) : Prop :=
  Inv t ∧ (Pointed s → undisturbed → Pointed t)

theorem keeps_addRef (h : Inv s) (hy : s.buffer y = some o) :
    Counted (some y) (s.addRef y) ∧ MemoryOwned (s.addRef y) ∧ (Pointed s → Pointed (s.addRef y)) :=
  ⟨h.counted.addRef hy, h.owned.onBuffer_of_same hy (h.owned.frees y o hy).own rfl,
    fun hp => hp.onBuffer_of_same hy rfl rfl⟩

theorem keeps_make_of_none (h : Inv s) (hcount : o.refCount = 1) (hbase : o.base = none)
    (hown : FreesOwn o) (howned : o.owned = none) (hdata : ∀ m, o.data.memory ≠ .block m) :
    Keeps s True (s.make o) := by
  refine ⟨⟨?_, h.owned.make_of_none hown howned⟩, fun hp _ => hp.make h.counted ?_ ?_⟩
  · refine Counted.make ?_ hcount
    rw [hbase]
    exact h.counted
  · exact fun m hm => absurd hm (hdata m)
  · intro base used hmembers
    rw [IOBufferObject.base, hmembers] at hbase
    cases hbase

theorem keeps_make_of_new {a : Allocator} (h : Inv s) (hcount : o.refCount = 1) (hbase : o.base = none)
    (hown : FreesOwn o) (howned : o.owned = some (s.blocks.length, a))
    (hdata : o.data.memory = .block s.blocks.length) : Keeps s True ((s.allocate a).make o) := by
  have hcounted : Counted none (s.allocate a) := ⟨h.counted.count, h.counted.pos, h.counted.older⟩
  refine ⟨⟨?_, h.owned.make_of_new hown howned⟩, fun hp _ => ?_⟩
  · refine Counted.make ?_ hcount
    rw [hbase]
    exact hcounted
  · have hp' : Pointed (s.allocate a) := ⟨hp.anchored, hp.drained⟩
    refine hp'.make hcounted (fun m hm => .inl ?_) fun base used hmembers => ?_
    · cases hdata.symm.trans hm
      rw [howned]
      rfl
    · rw [IOBufferObject.base, hmembers] at hbase
      cases hbase

theorem keeps_make_drainable (h : Inv s) (hy : s.buffer y = some o) :
    Keeps s True ((s.addRef y).make ⟨1, o.data, .drainable y 0⟩) := by
  obtain ⟨hcounted, howned, hpointed⟩ := keeps_addRef h hy
  have hbuffer : (s.addRef y).buffer y = some { o with refCount := o.refCount + 1 } := by
    rw [addRef, buffer_onBuffer, if_pos rfl, hy]
    rfl
  refine ⟨⟨?_, howned.make_of_none trivial rfl⟩, fun hp _ => ?_⟩
  · exact Counted.make (o := ⟨1, o.data, .drainable y 0⟩) hcounted rfl
  refine (hpointed hp).make hcounted (fun m hm => .inr ⟨y, rfl, ?_⟩) fun base used hmembers => ?_
  · exact (hpointed hp).anchored y _ m hbuffer hm
  · cases hmembers
    refine ⟨_, hbuffer, ?_⟩
    change o.data = ⟨o.data.memory, o.data.offset + 0⟩
    rw [Int.add_zero]

theorem keeps_copy (h : Inv s) (hy : s.buffer y = some o) : Keeps s True ((s.addRef y).keep y) := by
  obtain ⟨hcounted, howned, hpointed⟩ := keeps_addRef h hy
  refine ⟨⟨hcounted.keep, howned.owns, fun x o' hx => ?_, howned.faults⟩, fun hp _ => ?_⟩
  · exact ⟨(howned.frees x o' hx).own, (howned.frees x o' hx).allocated⟩
  · exact ⟨(hpointed hp).anchored, (hpointed hp).drained⟩

theorem keeps_destroy (h : Inv s) (hi : s.target i = some y) :
    Keeps s True ({ s with refPtrs := s.refPtrs.set i none }.release y) := by
  have howned : MemoryOwned { s with refPtrs := s.refPtrs.set i none } :=
    ⟨h.owned.owns, fun x o' hx => ⟨(h.owned.frees x o' hx).own, (h.owned.frees x o' hx).allocated⟩,
      h.owned.faults⟩
  obtain ⟨hc, hm, hp⟩ := releaseRounds_spec (Nat.lt_succ_self y) (h.counted.letGo hi) howned
  exact ⟨⟨hc, hm⟩, fun hpointed _ => hp ⟨hpointed.anchored, hpointed.drained⟩⟩

theorem keeps_setOffset {used : Int} (h : Inv s) (hy : s.buffer y = some o)
    (hmembers : o.members = .drainable base used) (hset : s.setOffset y base bytes = some t) :
    Keeps s True t := by
  obtain ⟨b, hb, rfl⟩ := Option.map_eq_some_iff.mp hset
  have hbase : o.base = some base := by rw [IOBufferObject.base, hmembers]
  have howned : o.owned = none := by rw [IOBufferObject.owned, hmembers]
  refine ⟨⟨h.counted.onBuffer_of_same hy hbase.symm rfl, ?_⟩, fun hp _ => ?_⟩
  · exact h.owned.onBuffer_of_same hy trivial howned.symm
  · refine hp.onBuffer hy hbase.symm howned.symm (fun hstatic => hstatic.elim) (fun m hm => ?_) ?_
    · rcases hp.anchored base b m hb hm with ⟨x, hbased, hheld⟩ | hlost
      · refine .inl ⟨x, .step ?_ hbased, hheld⟩
        rw [getElem?_bases, hy, Option.bind_some, hbase]
      · exact .inr hlost
    · intro base' used' b' hmembers' hb' _
      cases hmembers'
      cases hb.symm.trans hb'
      rfl

theorem keeps_setGrowableOffset {realData : Memory} {capacity offset offset' : Int} (h : Inv s)
    (hy : s.buffer y = some o) (hmembers : o.members = .growable realData capacity offset) :
    Keeps s True (s.onBuffer y (growableOffset realData capacity offset')) := by
  have hown := (h.owned.frees y o hy).own
  rw [FreesOwn, hmembers] at hown
  have hbase : (growableOffset realData capacity offset' o).base = o.base := by
    rw [growableOffset, IOBufferObject.base, IOBufferObject.base, hmembers]
  have howned : (growableOffset realData capacity offset' o).owned = o.owned := by
    rw [growableOffset, IOBufferObject.owned, IOBufferObject.owned, hmembers]
  refine ⟨⟨h.counted.onBuffer_of_same hy hbase rfl, ?_⟩, fun hp _ => ?_⟩
  · exact h.owned.onBuffer_of_same hy hown howned
  · refine hp.onBuffer hy hbase howned (fun hstatic => hstatic.elim) (fun m hm => ?_) ?_
    · refine .inl ⟨y, .refl y, ?_⟩
      change realData = .block m at hm
      rw [held, hy, Option.bind_some, ← howned, owned_growableOffset, hm]
      rfl
    · intro base' used' b' hmembers' _ _
      cases hmembers'

section SetCapacity

variable {realData : Memory} {capacity capacity' offset : Int} {answer : ReallocAnswer}

theorem owned_growable (hmembers : o.members = .growable realData capacity' offset) {m : Nat} :
    o.owned = some (m, .malloc) ↔ realData.number = some m := by
  rw [IOBufferObject.owned, hmembers]
  simp

theorem keeps_setCapacity (h : Inv s) (hy : s.buffer y = some o)
    (hmembers : o.members = .growable realData capacity' offset)
    (hset : s.setCapacity y realData offset capacity answer = some t) :
    Keeps s (∀ m, realData.number = some m → FreesOld capacity answer →
      ∀ x b, s.buffer x = some b → x ≠ y → b.data.memory ≠ .block m) t := by
  refine ⟨⟨?_, h.owned.setCapacity hy hmembers hset⟩, fun hp hundisturbed => ?_⟩
  · obtain ⟨memory, u, -, rfl, hcases⟩ := setCapacity_cases h.owned hy hmembers hset
    have hbase : ∀ offset', (growableOffset memory capacity offset' o).base = o.base := by
      intro offset'
      rw [growableOffset, IOBufferObject.base, IOBufferObject.base, hmembers]
    rcases hcases with ⟨-, -, rfl⟩ | ⟨-, -, rfl⟩ | ⟨-, -, -, rfl⟩ | ⟨-, -, -, rfl⟩
    · exact h.counted.onBuffer_of_same hy (hbase _) rfl
    all_goals
      refine Counted.onBuffer_of_same (o := o) ?_ hy (hbase _) rfl
      exact ⟨h.counted.count, h.counted.pos, h.counted.older⟩
  · obtain ⟨memory, u, -, rfl, hcases⟩ := setCapacity_cases h.owned hy hmembers hset
    rcases hcases with ⟨-, rfl, rfl⟩ | ⟨hmoved, -, rfl⟩ | ⟨hnull, hzero, -, rfl⟩ | ⟨-, -, -, rfl⟩
    · exact hp.regrow hy hmembers rfl (fun _ h => h) fun m hm => .inl hm
    · refine hp.regrow hy hmembers rfl (fun _ h => h) fun m hm => ?_
      exact .inr (.inr (hundisturbed m hm (.inl hmoved)))
    · refine hp.regrow hy hmembers rfl (fun _ h => h) fun m hm => ?_
      exact .inr (.inr (hundisturbed m hm (.inr ⟨hnull, hzero⟩)))
    · refine hp.regrow hy hmembers rfl (fun _ h => List.mem_append_left _ h) fun m hm => ?_
      refine .inr (.inl (List.mem_append_right _ ?_))
      rw [hm]
      exact List.mem_singleton_self m

/-- A buffer that points into the freed block does so ever after. -/
theorem not_alive_setCapacity (h : Inv s) (hy : s.buffer y = some o)
    (hmembers : o.members = .growable realData capacity' offset)
    (hset : s.setCapacity y realData offset capacity answer = some t) {m x : Nat} {b : IOBufferObject}
    (hm : realData.number = some m) (hfrees : FreesOld capacity answer) (hx : s.buffer x = some b)
    (hxy : x ≠ y) (hdata : b.data.memory = .block m) : ¬Alive t := by
  intro halive
  have hheld : s.held (.buffer y) = some m := by
    rw [MemoryOwned.held_eq hy, (owned_growable hmembers).mpr hm]
    rfl
  have hlive : m ∈ s.live := h.owned.owns.mem_live hheld
  obtain ⟨memory, u, -, rfl, hcases⟩ := setCapacity_cases h.owned hy hmembers hset
  have hgone : u.buffers = s.buffers ∧ m ∉ u.live := by
    rcases hcases with ⟨hplace, -, -⟩ | ⟨-, -, rfl⟩ | ⟨-, -, -, rfl⟩ | ⟨hnull, hne, -, -⟩
    · rcases hfrees with hmoved | ⟨hnull, -⟩
      · cases hplace.symm.trans hmoved
      · cases hplace.symm.trans hnull
    · refine ⟨rfl, ?_⟩
      rw [live_allocate, live_clear, length_clear]
      rintro (hlast | ⟨-, hnot⟩)
      · exact s.length_notMem_live (hlast ▸ hlive)
      · exact hnot hm
    · refine ⟨rfl, ?_⟩
      rw [live_clear]
      exact fun hmem => hmem.2 hm
    · rcases hfrees with hmoved | ⟨-, hzero⟩
      · cases hnull.symm.trans hmoved
      · exact absurd hzero hne
  refine hgone.2 (halive x b m ?_ hdata)
  rw [buffer_regrow hgone.1 hy, if_neg hxy]
  exact hx

end SetCapacity

/-- Each action is one of the operations above. -/
theorem step_keeps {a : Action} (h : Inv s) (hstep : step s a = some t) :
    Keeps s (Undisturbed s a) t := by
  have hmade : ∀ {u}, Keeps s True u → Keeps s (Undisturbed s a) u := fun hk =>
    ⟨hk.1, fun hp _ => hk.2 hp trivial⟩
  cases a with
  | makeIOBuffer =>
      cases hstep
      exact hmade (keeps_make_of_none h rfl rfl Memory.noConfusion rfl fun _ => Memory.noConfusion)
  | makeSized =>
      cases hstep
      exact hmade (keeps_make_of_new h rfl rfl Memory.noConfusion rfl rfl)
  | makeString =>
      cases hstep
      exact hmade (keeps_make_of_new h rfl rfl trivial rfl rfl)
  | makeDrainable i =>
      obtain ⟨⟨y, o⟩, hi, rfl⟩ := Option.map_eq_some_iff.mp hstep
      exact hmade (keeps_make_drainable h (deref_eq_some.mp hi).2)
  | makeGrowable =>
      cases hstep
      exact hmade (keeps_make_of_none h rfl rfl Memory.noConfusion rfl fun _ => Memory.noConfusion)
  | makeWrapped =>
      cases hstep
      exact hmade (keeps_make_of_none h rfl rfl trivial rfl fun _ => Memory.noConfusion)
  | copy i =>
      obtain ⟨y, hi, rfl⟩ := Option.map_eq_some_iff.mp hstep
      have hmem : some y ∈ s.refPtrs := List.mem_of_getElem? (Option.join_eq_some_iff.mp hi)
      obtain ⟨o, hy, -⟩ := h.counted.exists_of_references (y := y)
        (Nat.add_pos_left (Nat.add_pos_left (List.count_pos_iff.mpr hmem) _) _)
      exact hmade (keeps_copy h hy)
  | destroy i =>
      obtain ⟨y, hi, rfl⟩ := Option.map_eq_some_iff.mp hstep
      exact hmade (keeps_destroy h hi)
  | setOffset i bytes =>
      obtain ⟨⟨y, o⟩, hi, hset⟩ := Option.bind_eq_some_iff.mp hstep
      dsimp only at hset
      split at hset
      · exact hmade (keeps_setOffset h (deref_eq_some.mp hi).2 ‹_› hset)
      · cases hset
  | didConsume i bytes =>
      obtain ⟨⟨y, o⟩, hi, hset⟩ := Option.bind_eq_some_iff.mp hstep
      dsimp only at hset
      split at hset
      · exact hmade (keeps_setOffset h (deref_eq_some.mp hi).2 ‹_› hset)
      · cases hset
  | setCapacity i capacity answer =>
      obtain ⟨⟨y, o⟩, hi, hset⟩ := Option.bind_eq_some_iff.mp hstep
      dsimp only at hset
      split at hset
      · next hmembers =>
          obtain ⟨hinv, hpointed⟩ := keeps_setCapacity h (deref_eq_some.mp hi).2 hmembers hset
          refine ⟨hinv, fun hp hundisturbed => hpointed hp fun m hm => ?_⟩
          exact hundisturbed y o m hi ((owned_growable hmembers).mpr hm)
      · cases hset
  | setGrowableOffset i offset =>
      obtain ⟨⟨y, o⟩, hi, hset⟩ := Option.bind_eq_some_iff.mp hstep
      dsimp only at hset
      split at hset
      · cases hset
        exact hmade (keeps_setGrowableOffset h (deref_eq_some.mp hi).2 ‹_›)
      · cases hset

/-! ### Runs -/

/-- Nothing was freed that should not be, each buffer has as many references as `RefPtr`s to it, the
block that it points into was not freed, and over a base that stays where it is it points to the byte
that comes next. -/
structure Sound (s : IOBufferHeap) : Prop where
  faults : s.faults = 0
  count : ∀ y o, s.buffer y = some o → o.refCount = s.holders y ∧ 0 < o.refCount
  alive : Alive s
  drained : ∀ y o base used b, s.buffer y = some o → o.members = .drainable base used →
    s.buffer base = some b → IsStatic b → Shows o b used

theorem sound_of_inv (h : Inv s) (hp : Pointed s) : Sound s where
  faults := h.owned.faults
  count y o hy := by
    have hcount := h.counted.count y
    rw [hy] at hcount
    exact ⟨hcount, h.counted.pos y o hy⟩
  alive y o m hy hdata := h.owned.mem_live (hp.anchored y o m hy hdata)
  drained := hp.drained

theorem step_undisturbed (s : IOBufferHeap) (a : Action) (t : IOBufferHeap) (h : Inv s ∧ Pointed s)
    (hundisturbed : Undisturbed s a) (hstep : step s a = some t) : Inv t ∧ Pointed t := by
  obtain ⟨hinv, hpointed⟩ := step_keeps h.1 hstep
  exact ⟨hinv, hpointed h.2 hundisturbed⟩

theorem step_disturbed (s : IOBufferHeap) (a : Action) (t : IOBufferHeap) (h : Inv s ∧ Pointed s)
    (hdisturbed : ¬Undisturbed s a) (hstep : step s a = some t) : ¬Sound t := by
  intro hsound
  cases a with
  | setCapacity i capacity answer =>
      obtain ⟨⟨y, o⟩, hi, hset⟩ := Option.bind_eq_some_iff.mp hstep
      dsimp only at hset
      split at hset
      · next hmembers =>
          refine hdisturbed fun y' o' m hi' howned hfrees x b hx hxy hdata => ?_
          cases hi.symm.trans hi'
          exact not_alive_setCapacity h.1 (deref_eq_some.mp hi).2 hmembers hset
            ((owned_growable hmembers).mp howned) hfrees hx hxy hdata hsound.alive
      · cases hset
  | _ => exact hdisturbed trivial

/-- Along every run memory is in order and no buffer points into a block that was freed if and only if
no `SetCapacity` frees a block that another buffer points into. -/
theorem pointed_blocks_kept_iff (actions : List Action) :
    Transition.Along step Sound IOBufferHeap.new actions ↔
      Transition.Meets step Undisturbed IOBufferHeap.new actions :=
  Transition.along_iff_meets step_undisturbed step_disturbed (fun _ h => sound_of_inv h.1 h.2)
    ⟨inv_new, pointed_new⟩

theorem step_lost (s : IOBufferHeap) (a : Action) (t : IOBufferHeap) (hstep : step s a = some t) :
    t.lost = [] ↔ s.lost = [] ∧ Granted s a := by
  have hsame : t.lost = s.lost → Granted s a → (t.lost = [] ↔ s.lost = [] ∧ Granted s a) := by
    intro hlost hgranted
    rw [hlost]
    exact (and_iff_left hgranted).symm
  cases a with
  | makeDrainable i =>
      obtain ⟨p, -, rfl⟩ := Option.map_eq_some_iff.mp hstep
      exact hsame rfl trivial
  | copy i =>
      obtain ⟨y, -, rfl⟩ := Option.map_eq_some_iff.mp hstep
      exact hsame rfl trivial
  | destroy i =>
      obtain ⟨y, -, rfl⟩ := Option.map_eq_some_iff.mp hstep
      exact hsame (lost_releaseRounds _ _ _) trivial
  | setOffset i bytes =>
      obtain ⟨⟨y, o⟩, -, hset⟩ := Option.bind_eq_some_iff.mp hstep
      dsimp only at hset
      split at hset
      · obtain ⟨b, -, rfl⟩ := Option.map_eq_some_iff.mp hset
        exact hsame rfl trivial
      · cases hset
  | didConsume i bytes =>
      obtain ⟨⟨y, o⟩, -, hset⟩ := Option.bind_eq_some_iff.mp hstep
      dsimp only at hset
      split at hset
      · obtain ⟨b, -, rfl⟩ := Option.map_eq_some_iff.mp hset
        exact hsame rfl trivial
      · cases hset
  | setCapacity i capacity answer =>
      obtain ⟨⟨y, o⟩, hi, hset⟩ := Option.bind_eq_some_iff.mp hstep
      dsimp only at hset
      split at hset
      · next realData capacity' offset hmembers =>
          rw [lost_setCapacity hset, List.append_eq_nil_iff]
          refine and_congr_right fun _ => ?_
          have hgranted : Granted s (.setCapacity i capacity answer) ↔
              ∀ m, realData.number = some m → answer = .null → capacity = 0 := by
            constructor
            · exact fun h m hm => h y o m hi ((owned_growable hmembers).mpr hm)
            · intro h y' o' m hi' howned
              cases hi.symm.trans hi'
              exact h m ((owned_growable hmembers).mp howned)
          rw [hgranted, lostBlock]
          cases realData.number with
          | none => simp
          | some m => simp
      · cases hset
  | setGrowableOffset i offset =>
      obtain ⟨⟨y, o⟩, -, hset⟩ := Option.bind_eq_some_iff.mp hstep
      dsimp only at hset
      split at hset
      · cases hset
        exact hsame rfl trivial
      · cases hset
  | _ =>
      cases hstep
      exact hsame rfl trivial

/-- Without a `RefPtr` outside of them, no buffer is left: the youngest one would have no holder. -/
theorem buffer_eq_none (h : Inv s) (hnone : ∀ i, s.target i = none) (y : Nat) : s.buffer y = none := by
  have hrefPtrs : ∀ y, s.refPtrs.count (some y) = 0 := by
    intro y
    refine List.count_eq_zero.mpr fun hmem => ?_
    obtain ⟨i, hi⟩ := List.mem_iff_getElem?.mp hmem
    cases (hnone i).symm.trans (Option.join_eq_some_iff.mpr hi)
  have hyoung : ∀ n y, s.buffers.length ≤ y + n → s.buffer y = none := by
    intro n
    induction n with
    | zero => exact fun y hle => buffer_of_length_le hle
    | succ n ih =>
        intro y hle
        by_contra hsome
        obtain ⟨o, hy⟩ := Option.ne_none_iff_exists'.mp hsome
        have hcount := h.counted.count y
        have hpos := h.counted.pos y o hy
        rw [hy, Option.elim_some, references, holders, hrefPtrs] at hcount
        have hbases : 0 < s.bases.count (some y) := by
          simp at hcount
          omega
        obtain ⟨z, hz⟩ := List.mem_iff_getElem?.mp (List.count_pos_iff.mp hbases)
        have hbase := getElem?_bases s z
        rw [Option.join_eq_some_iff.mpr hz] at hbase
        obtain ⟨o', hz', hbase'⟩ := Option.bind_eq_some_iff.mp hbase.symm
        have hlt := h.counted.older z o' y hz' hbase'
        cases hz'.symm.trans (ih z (by omega))
  exact hyoung s.buffers.length y (Nat.le_add_left _ _)

/-- No program frees a block twice, or as it was not allocated. Once all its `RefPtr`s are gone, so are
all buffers, and so are all blocks if and only if no `realloc` failed with a block in its hands. -/
theorem memory_returned_iff {actions : List Action}
    (hrun : Transition.run step IOBufferHeap.new actions = some s) :
    s.faults = 0 ∧ ((∀ i, s.target i = none) → (∀ y, s.buffer y = none) ∧
      (s.live = ∅ ↔ Transition.Meets step Granted IOBufferHeap.new actions)) := by
  have hinv : Inv s :=
    Transition.run_invariant (fun _ _ _ h hstep => (step_keeps h hstep).1) inv_new hrun
  refine ⟨hinv.owned.faults, fun hnone => ⟨buffer_eq_none hinv hnone, ?_⟩⟩
  have hend := Transition.end_iff_meets step_lost hrun
  rw [and_iff_right (show IOBufferHeap.new.lost = [] from rfl)] at hend
  rw [← hend, Set.eq_empty_iff_forall_notMem, List.eq_nil_iff_forall_not_mem]
  refine forall_congr' fun m => not_congr ?_
  rw [hinv.owned.owns.live_iff, List.mem_iff_getElem?]
  constructor
  · rintro ⟨w, hw⟩
    cases w with
    | buffer y =>
        rw [held, buffer_eq_none hinv hnone y] at hw
        cases hw
    | lost k => exact ⟨k, hw⟩
  · rintro ⟨k, hk⟩
    exact ⟨.lost k, hk⟩

/-- A drained string outlives its `RefPtr`; the block of a growable buffer is lost. -/
def drainsAndFails : List Action :=
  [.makeGrowable, .setCapacity 0 1024 .moved, .makeString, .makeDrainable 1, .destroy 1,
    .didConsume 2 3, .setCapacity 0 2048 .null, .destroy 2, .destroy 0]

theorem memory_returned_iff_lost_block :
    ∃ s, Transition.run step IOBufferHeap.new drainsAndFails = some s ∧
      s.blocks = [some .malloc, none] ∧
      ¬Transition.Meets step Granted IOBufferHeap.new drainsAndFails := by
  obtain ⟨s, hrun, hblocks, hrefPtrs⟩ :
      ∃ s, Transition.run step IOBufferHeap.new drainsAndFails = some s ∧
        s.blocks = [some .malloc, none] ∧ s.refPtrs = List.replicate 3 none :=
    ⟨_, rfl, by decide, by decide⟩
  have hnone : ∀ i, s.target i = none := by
    intro i
    rw [target, hrefPtrs, List.getElem?_replicate]
    split <;> rfl
  obtain ⟨-, hreturned⟩ := memory_returned_iff hrun
  refine ⟨s, hrun, hblocks, fun hgranted => ?_⟩
  have hempty := (hreturned hnone).2.mpr hgranted
  have hlive : 0 ∈ s.live := ⟨.malloc, by rw [hblocks]; rfl⟩
  rw [hempty] at hlive
  exact hlive

end IOBufferMemory

end Iomgr
