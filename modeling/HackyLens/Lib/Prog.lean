import Mathlib.Tactic.Common

-- Programs that keep a volatile state of type `σ` and ask an outside world for answers, one call at
-- a time. A program is a tree of calls; what the calls do is only fixed when the tree is run
-- against a handler. A run consumes one decision of the world per call, and is cut short when it
-- has no more decisions, so the list of decisions also says where the power is lost.

namespace Prog

-- The type of answers depends on the call. `hang` is a loop that used up its fuel.
inductive Tree (C : Type) (R : C → Type) (α : Type)
  | ret (a : α)
  | call (c : C) (k : R c → Tree C R α)
  | hang

namespace Tree

variable {C D' : Type} {R : C → Type} {S : D' → Type} {α β γ : Type}

protected def bind : Tree C R α → (α → Tree C R β) → Tree C R β
  | ret a,    f => f a
  | call c k, f => call c fun r => (k r).bind f
  | hang,     _ => hang

instance : Monad (Tree C R) where
  pure := ret
  bind := Tree.bind

theorem pure_def (a : α) : (pure a : Tree C R α) = ret a := rfl

theorem bind_def (t : Tree C R α) (f : α → Tree C R β) : t >>= f = t.bind f := rfl

theorem bind_ret (t : Tree C R α) : t.bind ret = t := by
  induction t with
  | ret | hang  => rfl
  | call c k ih => exact congrArg (call c) (funext ih)

theorem bind_assoc (t : Tree C R α) (f : α → Tree C R β) (g : β → Tree C R γ) :
    (t.bind f).bind g = t.bind fun a => (f a).bind g := by
  induction t with
  | ret | hang  => rfl
  | call c k ih => exact congrArg (call c) (funext ih)

instance : LawfulMonad (Tree C R) :=
  .mk' _ bind_ret (fun _ _ => rfl) bind_assoc

-- The same program in a world that answers more calls.
def widen : Tree C R α → Tree (C ⊕ D') (Sum.elim R S) α
  | ret a    => ret a
  | call c k => call (.inl c) fun r => (k r).widen
  | hang     => hang

end Tree

-- How a world of type `W` answers a call, given a decision `d` on what it leaves open.
abbrev Handler (C : Type) (R : C → Type) (W D : Type) := D → (c : C) → W → R c × W

inductive Outcome (α W : Type)
  | done (a : α) (w : W)
  | cut (w : W)
  | hung (w : W)

namespace Outcome

variable {α W : Type}

def world : Outcome α W → W
  | done _ w | cut w | hung w => w

def mapWorld {W' : Type} (f : W → W') : Outcome α W → Outcome α W'
  | done a w => done a (f w)
  | cut w    => cut (f w)
  | hung w   => hung (f w)

def result : Outcome α W → Option α
  | done a _      => some a
  | cut _ | hung _ => none

end Outcome

namespace Tree

variable {C : Type} {R : C → Type} {α W D : Type}

def run (h : Handler C R W D) : Tree C R α → List D → W → Outcome α W
  | ret a,    _,       w => .done a w
  | hang,     _,       w => .hung w
  | call _ _, [],      w => .cut w
  | call c k, d :: ds, w => (k (h d c w).fst).run h ds (h d c w).snd

end Tree
end Prog

-- A program with a volatile state.
abbrev Prog (C : Type) (R : C → Type) (σ : Type) := StateT σ (Prog.Tree C R)

namespace Prog

variable {C C' : Type} {R : C → Type} {R' : C' → Type} {σ τ α β W D : Type}

def call (c : C) : Prog C R σ (R c) :=
  fun s => .call c fun r => .ret (r, s)

def hang : Prog C R σ α :=
  fun _ => .hang

-- Runs `body` from `b` until it yields a result, at most `fuel` times.
def loop (body : β → Prog C R σ (α ⊕ β)) : Nat → β → Prog C R σ α
  | 0,        _ => hang
  | fuel + 1, b => do
    match ← body b with
    | .inl a => pure a
    | .inr b => loop body fuel b

theorem loop_pure {body : β → Prog C R σ (α ⊕ β)} {fuel : Nat} {a : α} {b : β} (hf : 0 < fuel)
    (hb : body b = pure (.inl a)) : loop body fuel b = pure a := by
  cases fuel
  case zero   => exact absurd hf (Nat.lt_irrefl 0)
  case succ n =>
    rw [loop, hb]
    rfl

-- A program on a part of a larger state.
def zoom (get : τ → σ) (put : σ → τ → τ) (p : Prog C R σ α) : Prog C R τ α :=
  fun t => p (get t) >>= fun (a, s) => .ret (a, put s t)

-- A program on a part of a larger state, in a world that answers more calls.
def focus (get : τ → σ) (put : σ → τ → τ) (p : Prog C R σ α) : Prog (C ⊕ C') (Sum.elim R R') τ α :=
  fun t => (p (get t)).widen >>= fun (a, s) => .ret (a, put s t)

def run (h : Handler C R W D) (p : Prog C R σ α) (s : σ) (ds : List D) (w : W) :
    Outcome (α × σ) W :=
  Tree.run h (p s) ds w

end Prog
