import Iomgr.Refinement
import Mathlib.Data.Finset.Card
import Mathlib.Order.Basic

/-!
What a timer service is for: a table of the armed keys, each with a deadline and a payload. `start`
arms a key, `cancel` disarms it, and a check at some time fires every armed key whose deadline has
come, each once, and says until when nothing else is due. Keys are in groups, and only within one
group the order of firing is that of the deadlines.
-/

namespace DeadlineTable

open Refinement

variable {κ T α ι : Type*}

/-- The armed keys with their deadlines and payloads. -/
abbrev Table (κ T α : Type*) := κ → Option (T × α)

/-- A call and what its caller sees: a check posts the payloads of what it fires, and names a time
before which no other check is needed. -/
inductive Label (κ T α : Type*)
  | start (k : κ) (deadline : T) (a : α)
  | cancel (k : κ)
  | check (now wake : T) (posted : List α)

variable [DecidableEq κ] [LinearOrder T]

/-- The keys that a check at `now` fires, in their order. -/
structure Firing (group : κ → ι) (table : Table κ T α) (now : T) (fired : List κ) : Prop where
  nodup : fired.Nodup
  mem_iff : ∀ k, k ∈ fired ↔ ∃ d a, table k = some (d, a) ∧ d ≤ now
  sorted : fired.Pairwise fun k l => group k = group l →
    ∀ d a d' a', table k = some (d, a) → table l = some (d', a') → d ≤ d'

inductive Step (group : κ → ι) : Table κ T α → Label κ T α → Table κ T α → Prop
  | start {table : Table κ T α} {k : κ} {d : T} {a : α} (idle : table k = none) :
      Step group table (.start k d a) (Function.update table k (some (d, a)))
  | cancel {table : Table κ T α} {k : κ} :
      Step group table (.cancel k) (Function.update table k none)
  | check {table : Table κ T α} {now wake : T} {fired : List κ}
      (firing : Firing group table now fired) (later : now < wake)
      (early : ∀ k d a, table k = some (d, a) → now < d → wake ≤ d) :
      Step group table (.check now wake (fired.filterMap fun k => (table k).map Prod.snd))
        (fun k => if k ∈ fired then none else table k)

/-! ### How often a payload is posted -/

variable [DecidableEq α]

/-- How often the labels start a payload. -/
def started (a : α) : List (Label κ T α) → ℕ
  | [] => 0
  | .start _ _ b :: ls => (if b = a then 1 else 0) + started a ls
  | _ :: ls => started a ls

/-- How often the labels post a payload. -/
def posted (a : α) : List (Label κ T α) → ℕ
  | [] => 0
  | .check _ _ bs :: ls => bs.countP (fun b => b = a) + posted a ls
  | _ :: ls => posted a ls

omit [DecidableEq κ] [LinearOrder T] in
theorem posted_cons (a : α) (l : Label κ T α) (ls : List (Label κ T α)) :
    posted a (l :: ls) = posted a [l] + posted a ls := by
  cases l with
  | start k d b => simp [posted]
  | cancel k => simp [posted]
  | check now wake bs => simp [posted]

/-- The keys of a finite set that are armed with a payload. -/
def armedWith (a : α) (table : Table κ T α) (s : Finset κ) : Finset κ :=
  s.filter fun k => (table k).map Prod.snd = some a

omit [DecidableEq κ] [LinearOrder T] in
theorem mem_armedWith {a : α} {table : Table κ T α} {s : Finset κ} {k : κ} :
    k ∈ armedWith a table s ↔ k ∈ s ∧ (table k).map Prod.snd = some a := by
  rw [armedWith, Finset.mem_filter]

omit [LinearOrder T] in
/-- Distinct keys post a payload as often as keys among them are armed with it. -/
theorem countP_filterMap (a : α) (table : Table κ T α) {fired : List κ} (h : fired.Nodup) :
    (fired.filterMap fun k => (table k).map Prod.snd).countP (fun b => b = a) =
      (armedWith a table fired.toFinset).card := by
  rw [List.countP_filterMap, List.countP_eq_length_filter,
    ← List.toFinset_card_of_nodup (h.filter _)]
  congr 1
  ext k
  cases hk : table k <;> simp [mem_armedWith, hk]

omit [LinearOrder T] in
/-- Starting a key adds at most that key to those armed with its payload. -/
theorem card_armedWith_start (a : α) (table : Table κ T α) (s : Finset κ) (k : κ) (d : T) (b : α) :
    (armedWith a (Function.update table k (some (d, b))) (insert k s)).card ≤
      (if b = a then 1 else 0) + (armedWith a table s).card := by
  have hsub : armedWith a (Function.update table k (some (d, b))) (insert k s) ⊆
      (if b = a then {k} else ∅) ∪ armedWith a table s := by
    intro x hx
    obtain ⟨hin, hval⟩ := mem_armedWith.mp hx
    by_cases hxk : x = k
    · subst hxk
      rw [Function.update_self, Option.map_some, Option.some.injEq] at hval
      obtain rfl : b = a := hval
      simp
    · rw [Function.update_of_ne hxk] at hval
      have hs := Finset.mem_of_mem_insert_of_ne hin hxk
      exact Finset.mem_union_right _ (mem_armedWith.mpr ⟨hs, hval⟩)
  refine (Finset.card_le_card hsub).trans ((Finset.card_union_le _ _).trans ?_)
  split_ifs <;> simp

omit [LinearOrder T] in
/-- What fires leaves the armed keys. -/
theorem card_armedWith_check (a : α) (table : Table κ T α) {s : Finset κ} {fired : List κ}
    (hsub : ∀ k ∈ fired, k ∈ s) :
    (armedWith a table fired.toFinset).card +
        (armedWith a (fun k => if k ∈ fired then none else table k) s).card =
      (armedWith a table s).card := by
  rw [← Finset.card_union_of_disjoint]
  · congr 1
    ext k
    simp only [Finset.mem_union, mem_armedWith, List.mem_toFinset]
    by_cases hk : k ∈ fired
    · simp [hk, hsub k hk]
    · simp [hk]
  · refine Finset.disjoint_left.mpr fun k hk hk' => ?_
    obtain ⟨hfired, -⟩ := mem_armedWith.mp hk
    obtain ⟨-, hval⟩ := mem_armedWith.mp hk'
    rw [if_pos (List.mem_toFinset.mp hfired)] at hval
    cases hval

/-- Over a whole run: posts, and what is armed at its end, are made up of what it starts and what was
armed at its beginning. -/
theorem posted_add_armed_le {group : κ → ι} (a : α) {table table' : Table κ T α}
    {ls : List (Label κ T α)} (h : Trace (Step group) table ls table') :
    ∀ s : Finset κ, (∀ k, table k ≠ none → k ∈ s) →
      ∃ s' : Finset κ, posted a ls + (armedWith a table' s').card ≤
        started a ls + (armedWith a table s).card := by
  induction h with
  | nil table => exact fun s _ => ⟨s, le_refl _⟩
  | @cons table table1 table' l ls first rest ih =>
      intro s hs
      cases first with
      | @start k d b idle =>
          obtain ⟨s', hle⟩ := ih (insert k s) fun x hx => by
            by_cases hxk : x = k
            · exact hxk ▸ Finset.mem_insert_self k s
            · rw [Function.update_of_ne hxk] at hx
              exact Finset.mem_insert_of_mem (hs x hx)
          have hcard := card_armedWith_start a table s k d b
          refine ⟨s', ?_⟩
          simp only [posted, started]
          omega
      | @cancel k =>
          obtain ⟨s', hle⟩ := ih s fun x hx => by
            by_cases hxk : x = k
            · subst hxk
              rw [Function.update_self] at hx
              exact absurd rfl hx
            · rw [Function.update_of_ne hxk] at hx
              exact hs x hx
          have hsub : armedWith a (Function.update table k none) s ⊆ armedWith a table s := by
            intro x hx
            obtain ⟨hin, hval⟩ := mem_armedWith.mp hx
            refine mem_armedWith.mpr ⟨hin, ?_⟩
            by_cases hxk : x = k
            · subst hxk
              rw [Function.update_self] at hval
              cases hval
            · rwa [Function.update_of_ne hxk] at hval
          have hcard := Finset.card_le_card hsub
          refine ⟨s', ?_⟩
          simp only [posted, started]
          omega
      | @check now wake fired firing later early =>
          have harmed : ∀ k ∈ fired, k ∈ s := by
            intro k hk
            obtain ⟨d, b, heq, -⟩ := (firing.mem_iff k).mp hk
            exact hs k (by simp [heq])
          obtain ⟨s', hle⟩ := ih s fun x hx => by
            by_cases hx' : x ∈ fired
            · exact harmed x hx'
            · dsimp only at hx
              rw [if_neg hx'] at hx
              exact hs x hx
          have hcard := card_armedWith_check a table harmed
          have hcount := countP_filterMap a table firing.nodup
          refine ⟨s', ?_⟩
          simp only [posted, started]
          omega

/-- From an empty table no payload is posted more often than it was started. -/
theorem posted_le_started {group : κ → ι} (a : α) {table : Table κ T α} {ls : List (Label κ T α)}
    (h : Trace (Step group) (fun _ => none) ls table) : posted a ls ≤ started a ls := by
  obtain ⟨s', hle⟩ := posted_add_armed_le a h ∅ fun k hk => absurd rfl hk
  have hempty : (armedWith a (fun _ : κ => (none : Option (T × α))) ∅).card = 0 := by
    simp [armedWith]
  omega

end DeadlineTable
