import Mathlib.Data.Set.Basic
import Mathlib.Tactic.Common

/-!
Computations that read a memory, and the addresses that they read. Where a computation reads next may
depend on what it has read; on what it does not read nothing depends.
-/

/-- A computation that is done, or reads an address and goes on with what it finds there. -/
inductive Reading (Addr Val : Type) (α : Type) where
  | done (a : α)
  | read (addr : Addr) (next : Val → Reading Addr Val α)

namespace Reading

variable {Addr Val α β : Type}

def andThen : Reading Addr Val α → (α → Reading Addr Val β) → Reading Addr Val β
  | done a, f => f a
  | read addr next, f => read addr fun v => (next v).andThen f

instance : Monad (Reading Addr Val) where
  pure := done
  bind := andThen

/-- One read. -/
def get (addr : Addr) : Reading Addr Val Val := read addr done

/-- The result in a memory. -/
def eval (mem : Addr → Val) : Reading Addr Val α → α
  | done a => a
  | read addr next => (next (mem addr)).eval mem

/-- The addresses that are read in a memory, one after the other. -/
def reads (mem : Addr → Val) : Reading Addr Val α → List Addr
  | done _ => []
  | read addr next => addr :: (next (mem addr)).reads mem

variable {mem mem' : Addr → Val} {s : Set Addr} {c : Reading Addr Val α}
  {f : α → Reading Addr Val β}

@[simp] theorem eval_pure (a : α) : (pure a : Reading Addr Val α).eval mem = a := rfl

@[simp] theorem eval_get (addr : Addr) : (get addr).eval mem = mem addr := rfl

@[simp] theorem eval_bind : (c >>= f).eval mem = (f (c.eval mem)).eval mem := by
  induction c with
  | done a => rfl
  | read addr next ih => exact ih (mem addr)

theorem eval_ite {p : Prop} {_ : Decidable p} {d : Reading Addr Val α} :
    (if p then c else d).eval mem = if p then c.eval mem else d.eval mem :=
  apply_ite _ p c d

theorem reads_bind : (c >>= f).reads mem = c.reads mem ++ (f (c.eval mem)).reads mem := by
  induction c with
  | done a => rfl
  | read addr next ih => exact congrArg (addr :: ·) (ih (mem addr))

/-- Memories that agree where the computation reads give the same result. -/
theorem eval_congr (h : ∀ addr ∈ c.reads mem, mem' addr = mem addr) :
    c.eval mem' = c.eval mem := by
  induction c with
  | done a => rfl
  | read addr next ih =>
      obtain ⟨hfirst, hrest⟩ := List.forall_mem_cons.mp h
      rw [eval, eval, hfirst]
      exact ih (mem addr) hrest

/-- The computation reads in a set of addresses only. -/
def ReadsIn (mem : Addr → Val) (s : Set Addr) (c : Reading Addr Val α) : Prop :=
  ∀ addr ∈ c.reads mem, addr ∈ s

@[simp] theorem readsIn_pure (a : α) : ReadsIn mem s (pure a : Reading Addr Val α) :=
  fun _ h => absurd h List.not_mem_nil

@[simp] theorem readsIn_get {addr : Addr} : ReadsIn mem s (get addr) ↔ addr ∈ s :=
  List.forall_mem_singleton

theorem readsIn_bind : ReadsIn mem s (c >>= f) ↔
    ReadsIn mem s c ∧ ReadsIn mem s (f (c.eval mem)) := by
  rw [ReadsIn, reads_bind]
  exact List.forall_mem_append

/-- Memories that agree on the set give the same result. -/
theorem ReadsIn.eval_eq (h : ReadsIn mem s c) (hagree : ∀ addr ∈ s, mem' addr = mem addr) :
    c.eval mem' = c.eval mem :=
  eval_congr fun addr haddr => hagree addr (h addr haddr)

end Reading
