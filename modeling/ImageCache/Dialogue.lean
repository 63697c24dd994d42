namespace ImageCache

/-- Ends with a result, or asks and goes on as the reply has it. -/
inductive Dialogue (Query : Type) (Reply : Query → Type) (α : Type) where
  | done (result : α)
  | ask (query : Query) (next : Reply query → Dialogue Query Reply α)

namespace Dialogue

variable {Query : Type} {Reply : Query → Type} {α β σ : Type}

def bind : Dialogue Query Reply α → (α → Dialogue Query Reply β) → Dialogue Query Reply β
  | done a, f => f a
  | ask q next, f => ask q fun r => (next r).bind f

instance : Monad (Dialogue Query Reply) where
  pure := done
  bind := bind

def query (q : Query) : Dialogue Query Reply (Reply q) := ask q done

def run (answer : (q : Query) → σ → Reply q × σ) : Dialogue Query Reply α → σ → α × σ
  | done a, s => (a, s)
  | ask q next, s =>
    let (reply, s) := answer q s
    run answer (next reply) s

@[simp] theorem run_done (answer : (q : Query) → σ → Reply q × σ) (a : α) (s : σ) :
    (done a : Dialogue Query Reply α).run answer s = (a, s) := rfl

@[simp] theorem run_pure (answer : (q : Query) → σ → Reply q × σ) (a : α) (s : σ) :
    (pure a : Dialogue Query Reply α).run answer s = (a, s) := rfl

@[simp] theorem run_ask (answer : (q : Query) → σ → Reply q × σ) (q : Query)
    (next : Reply q → Dialogue Query Reply α) (s : σ) :
    (ask q next).run answer s = (next (answer q s).1).run answer (answer q s).2 := rfl

@[simp] theorem run_query (answer : (q : Query) → σ → Reply q × σ) (q : Query) (s : σ) :
    (query q : Dialogue Query Reply (Reply q)).run answer s = answer q s := rfl

@[simp] theorem run_bind (answer : (q : Query) → σ → Reply q × σ) (p : Dialogue Query Reply α)
    (f : α → Dialogue Query Reply β) (s : σ) :
    (p >>= f).run answer s = (f (p.run answer s).1).run answer (p.run answer s).2 := by
  change (p.bind f).run answer s = _
  induction p generalizing s with
  | done a => rfl
  | ask q next ih => exact ih _ _

end Dialogue

end ImageCache
