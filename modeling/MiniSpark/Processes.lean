import Mathlib.Tactic.Common

/-!
# Processes over a shared store

A process reads and writes the cells of a store and ends with a value. Run by itself it is a
function of the store; the cells it may touch bound what that run depends on and what it
changes.
-/

/-- The contents of the cells. -/
abbrev Store (K V : Type) := K → Option V

namespace Store

variable {K V : Type} [DecidableEq K]

def put (σ : Store K V) (k : K) (v : V) : Store K V := fun k' => if k' = k then some v else σ k'

@[simp] theorem put_same (σ : Store K V) (k : K) (v : V) : σ.put k v k = some v := if_pos rfl

@[simp] theorem put_put (σ : Store K V) (k : K) (v v' : V) : (σ.put k v).put k v' = σ.put k v' := by
  ext k' : 1
  by_cases h : k' = k <;> simp [put, h]

@[simp] theorem put_of_ne (σ : Store K V) {k k' : K} (v : V) (h : k' ≠ k) : σ.put k v k' = σ k' :=
  if_neg h

end Store

/-- Ends, reads a cell and goes on with its contents, or writes a cell. -/
inductive Process (K V α : Type)
  | done (a : α)
  | read (k : K) (next : Option V → Process K V α)
  | write (k : K) (v : V) (next : Process K V α)

namespace Process

variable {K V α β : Type} [DecidableEq K]

def bind : Process K V α → (α → Process K V β) → Process K V β
  | .done a, f => f a
  | .read k next, f => .read k (fun v => (next v).bind f)
  | .write k v next, f => .write k v (next.bind f)

instance : Monad (Process K V) where
  pure := .done
  bind := bind

omit [DecidableEq K] in
theorem bind_done (p : Process K V α) : p.bind .done = p := by
  induction p with
  | done a => rfl
  | read k next ih => simp only [bind, ih]
  | write k v next ih => simp only [bind, ih]

omit [DecidableEq K] in
theorem bind_bind {γ : Type} (p : Process K V α) (f : α → Process K V β) (g : β → Process K V γ) :
    (p.bind f).bind g = p.bind (fun a => (f a).bind g) := by
  induction p with
  | done a => rfl
  | read k next ih => simp only [bind, ih]
  | write k v next ih => simp only [bind, ih]

instance : LawfulMonad (Process K V) :=
  LawfulMonad.mk' _ bind_done (fun _ _ => rfl) bind_bind

/-- The process run by itself. -/
def run : Process K V α → Store K V → α × Store K V
  | .done a, σ => (a, σ)
  | .read k next, σ => (next (σ k)).run σ
  | .write k v next, σ => next.run (σ.put k v)

/-- Every access is to a cell it may read or may write. -/
def Within (reads writes : K → Prop) : Process K V α → Prop
  | .done _ => True
  | .read k next => reads k ∧ ∀ v, (next v).Within reads writes
  | .write k _ next => writes k ∧ next.Within reads writes

@[simp] theorem run_pure (a : α) (σ : Store K V) : (pure a : Process K V α).run σ = (a, σ) := rfl

@[simp] theorem run_bind (p : Process K V α) (f : α → Process K V β) (σ : Store K V) :
    (p >>= f).run σ = (f (p.run σ).1).run (p.run σ).2 := by
  show (bind p f).run σ = _
  induction p generalizing σ with
  | done a => rfl
  | read k next ih => simp only [bind, run, ih]
  | write k v next ih => simp only [bind, run, ih]

section Footprints

variable {reads writes : K → Prop}

omit [DecidableEq K] in
@[simp] theorem within_pure (a : α) : (pure a : Process K V α).Within reads writes := trivial

omit [DecidableEq K] in
theorem Within.bind {p : Process K V α} {f : α → Process K V β} (hp : p.Within reads writes)
    (hf : ∀ a, (f a).Within reads writes) : (p >>= f).Within reads writes := by
  show (Process.bind p f).Within reads writes
  induction p with
  | done a => exact hf a
  | read k next ih => exact ⟨hp.1, fun v => ih v (hp.2 v)⟩
  | write k v next ih => exact ⟨hp.1, ih hp.2⟩

/-- A process leaves every other cell alone. -/
theorem Within.frame {p : Process K V α} (hp : p.Within reads writes) (σ : Store K V) {k : K}
    (hk : ¬ writes k) : (p.run σ).2 k = σ k := by
  induction p generalizing σ with
  | done a => rfl
  | read k' next ih => exact ih _ (hp.2 _) σ
  | write k' v next ih =>
      have hne : k ≠ k' := fun h => hk (h ▸ hp.1)
      rw [run, ih hp.2, Store.put_of_ne σ v hne]

/-- The end of a run depends on the cells it may read, and a cell it may write on that cell
before. -/
theorem Within.agree {p : Process K V α} (hp : p.Within reads writes) {σ σ' : Store K V}
    (h : ∀ k, reads k ∨ writes k → σ k = σ' k) :
    (p.run σ).1 = (p.run σ').1 ∧ ∀ k, writes k → (p.run σ).2 k = (p.run σ').2 k := by
  induction p generalizing σ σ' with
  | done a => exact ⟨rfl, fun k hk => h k (.inr hk)⟩
  | read k next ih =>
      have hk : σ k = σ' k := h k (.inl hp.1)
      simp only [run, hk]
      exact ih (σ' k) (hp.2 _) h
  | write k v next ih =>
      have hput : ∀ k', reads k' ∨ writes k' → σ.put k v k' = σ'.put k v k' := by
        intro k' hk'
        by_cases hsame : k' = k
        · simp [hsame]
        · simp [hsame, h k' hk']
      simp only [run]
      exact ih hp.2 hput

end Footprints

section Fallible

variable {ε : Type}

/-- A computation without accesses. -/
def lift (x : Except ε α) : ExceptT ε (Process K V) α := ExceptT.mk (.done x)

/-- The contents of a cell. -/
def get (k : K) : ExceptT ε (Process K V) (Option V) := ExceptT.mk (.read k (fun v => .done (.ok v)))

/-- New contents for a cell. -/
def put (k : K) (v : V) : ExceptT ε (Process K V) Unit := ExceptT.mk (.write k v (.done (.ok ())))

/-- The process reads only, and ends with what `f` makes of the store. -/
def Computes (m : ExceptT ε (Process K V) α) (f : Store K V → Except ε α) : Prop :=
  ∀ σ, m.run.run σ = (f σ, σ)

theorem run_except_bind (m : ExceptT ε (Process K V) α) (f : α → ExceptT ε (Process K V) β)
    (σ : Store K V) : (m >>= f).run.run σ =
      match m.run.run σ with
      | (.ok a, σ') => (f a).run.run σ'
      | (.error e, σ') => (.error e, σ') := by
  rw [ExceptT.run_bind, run_bind]
  cases h : m.run.run σ with
  | mk outcome σ' => cases outcome <;> rfl

@[simp] theorem run_lift (x : Except ε α) (σ : Store K V) :
    (lift x : ExceptT ε (Process K V) α).run.run σ = (x, σ) := rfl

@[simp] theorem run_put (k : K) (v : V) (σ : Store K V) :
    (put k v : ExceptT ε (Process K V) Unit).run.run σ = (.ok (), σ.put k v) := rfl

theorem computes_pure (a : α) :
    Computes (pure a : ExceptT ε (Process K V) α) (fun _ => .ok a) := fun _ => rfl

theorem computes_lift (x : Except ε α) :
    Computes (lift x : ExceptT ε (Process K V) α) (fun _ => x) := fun _ => rfl

theorem computes_get (k : K) :
    Computes (get k : ExceptT ε (Process K V) (Option V)) (fun σ => .ok (σ k)) := fun _ => rfl

theorem Computes.bind {m : ExceptT ε (Process K V) α} {f : Store K V → Except ε α}
    {next : α → ExceptT ε (Process K V) β} {g : α → Store K V → Except ε β} (hm : Computes m f)
    (hnext : ∀ a, Computes (next a) (g a)) :
    Computes (m >>= next) (fun σ => f σ >>= fun a => g a σ) := by
  intro σ
  rw [run_except_bind, hm σ]
  show _ = (f σ >>= fun a => g a σ, σ)
  cases f σ with
  | error e => rfl
  | ok a => exact hnext a σ

theorem Computes.mapM {f : β → ExceptT ε (Process K V) α} {g : β → Store K V → Except ε α}
    (h : ∀ b, Computes (f b) (g b)) (bs : List β) :
    Computes (bs.mapM f) (fun σ => bs.mapM (fun b => g b σ)) := by
  induction bs with
  | nil => exact computes_pure []
  | cons b bs ih =>
      simp only [List.mapM_cons]
      exact (h b).bind (fun a => ih.bind (fun as => computes_pure (a :: as)))

variable {reads writes : K → Prop}

omit [DecidableEq K] in
theorem within_lift (x : Except ε α) :
    (lift x : ExceptT ε (Process K V) α).run.Within reads writes := trivial

omit [DecidableEq K] in
theorem within_get {k : K} (h : reads k) :
    (get k : ExceptT ε (Process K V) (Option V)).run.Within reads writes := ⟨h, fun _ => trivial⟩

omit [DecidableEq K] in
theorem within_put {k : K} (v : V) (h : writes k) :
    (put k v : ExceptT ε (Process K V) Unit).run.Within reads writes := ⟨h, trivial⟩

omit [DecidableEq K] in
theorem within_except_bind {m : ExceptT ε (Process K V) α} {f : α → ExceptT ε (Process K V) β}
    (hm : m.run.Within reads writes) (hf : ∀ a, (f a).run.Within reads writes) :
    (m >>= f).run.Within reads writes := by
  rw [ExceptT.run_bind]
  refine hm.bind (fun outcome => ?_)
  cases outcome with
  | ok a => exact hf a
  | error e => trivial

omit [DecidableEq K] in
theorem within_mapM {f : β → ExceptT ε (Process K V) α} {bs : List β}
    (h : ∀ b ∈ bs, (f b).run.Within reads writes) : (bs.mapM f).run.Within reads writes := by
  induction bs with
  | nil => trivial
  | cons b bs ih =>
      obtain ⟨hb, hbs⟩ := List.forall_mem_cons.mp h
      rw [List.mapM_cons]
      exact within_except_bind hb (fun _ => within_except_bind (ih hbs) (fun _ => trivial))

end Fallible

/-- The processes run one after the other. -/
def runEach : List (Process K V α) → Store K V → List α × Store K V
  | [], σ => ([], σ)
  | p :: ps, σ =>
      let (a, σ') := p.run σ
      let (as, σ'') := runEach ps σ'
      (a :: as, σ'')

end Process
