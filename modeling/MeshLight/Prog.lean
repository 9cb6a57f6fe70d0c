import MeshLight.Call

/-!
# MeshLight.Prog

Programs that consist of calls. A program is the tree of all its possible runs: it branches at every
call over the answers that may come, so a statement about all paths of the tree is one about all
surroundings. Surroundings that answer calls from a state of their own run a program along one path.
-/

namespace MeshLight

/-- A program that makes calls and then has a result. -/
inductive Prog (α : Type) where
  | done (result : α)
  | call (c : Call) (next : c.Answer → Prog α)

namespace Prog

def bind : Prog α → (α → Prog β) → Prog β
  | done a, f => f a
  | call c next, f => call c fun answer => (next answer).bind f

instance : Monad Prog where
  pure := done
  bind := bind

@[simp] theorem bind_done (a : α) (f : α → Prog β) : (done a >>= f) = f a := rfl

@[simp] theorem bind_call (c : Call) (next : c.Answer → Prog α) (f : α → Prog β) :
    (call c next >>= f) = call c fun answer => next answer >>= f := rfl

@[simp] theorem pure_eq_done (a : α) : (pure a : Prog α) = done a := rfl

theorem bind_pure_self (p : Prog α) : (p >>= fun a => done a) = p := by
  induction p with
  | done a => rfl
  | call c next ih => simp [ih]

theorem bind_assoc_self (p : Prog α) (f : α → Prog β) (g : β → Prog γ) :
    (p >>= f >>= g) = (p >>= fun a => f a >>= g) := by
  induction p with
  | done a => rfl
  | call c next ih => simp [ih]

instance : LawfulMonad Prog :=
  LawfulMonad.mk' Prog bind_pure_self (fun _ _ => rfl) bind_assoc_self

/-! ## single calls -/

def mesh (c : MeshCall) : Prog c.Answer := call (.mesh c) done

def board (c : BoardCall) : Prog c.Answer := call (.board c) done

def timer (c : TimerCall) : Prog c.Answer := call (.timer c) done

def emit (n : Notice) : Prog Unit := call (.emit n) done

/-! ## running -/

/-- Runs a program in surroundings that answer each call from their state and move on. -/
def run (answer : (c : Call) → σ → c.Answer × σ) : Prog α → σ → α × σ
  | done a, s => (a, s)
  | call c next, s =>
    let (reply, s) := answer c s
    run answer (next reply) s

theorem run_bind (answer : (c : Call) → σ → c.Answer × σ) (p : Prog α) (f : α → Prog β) (s : σ) :
    run answer (p >>= f) s = run answer (f (run answer p s).1) (run answer p s).2 := by
  induction p generalizing s with
  | done a => rfl
  | call c next ih => simp [run, ih]

end Prog

end MeshLight
