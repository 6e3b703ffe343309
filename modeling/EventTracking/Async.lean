set_option autoImplicit false

namespace EventTracking

inductive Async (σ : Type) : Type → Type 1 where
  | done {α : Type} (a : α) : Async σ α
  | step {α β : Type} (f : σ → β × σ) (next : β → Async σ α) : Async σ α
  -- Waits for something: `ready` looks whether it has happened, `leave` stops waiting for it.
  | wait {α β : Type} (ready : σ → Option β × σ) (leave : σ → σ) (next : β → Async σ α) : Async σ α
  -- Runs a computation at whose end, however it ends, `release` is due.
  | guarded {α β : Type} (release : σ → σ) (a : Async σ β) (next : β → Async σ α) : Async σ α
  | both {α β γ : Type} (a : Async σ β) (b : Async σ γ) (next : β → γ → Async σ α) : Async σ α
  -- Runs both until one ends, and leaves the other; the first goes first.
  | race {α β γ : Type} (a : Async σ β) (b : Async σ γ) (next : β ⊕ γ → Async σ α) : Async σ α
  -- Runs `body` again on what it gave, until that is final; `a` is the current round.
  | loop {α β γ : Type} (body : β → Async σ (β ⊕ γ)) (a : Async σ (β ⊕ γ)) (next : γ → Async σ α) :
      Async σ α

namespace Async

variable {σ α β γ : Type}

def bind (a : Async σ α) (k : α → Async σ β) : Async σ β :=
  match a with
  | done a => k a
  | step f next => step f fun b => (next b).bind k
  | wait ready leave next => wait ready leave fun b => (next b).bind k
  | guarded release a next => guarded release a fun b => (next b).bind k
  | both a b next => both a b fun x y => (next x y).bind k
  | race a b next => race a b fun x => (next x).bind k
  | loop body a next => loop body a fun x => (next x).bind k

instance : Monad (Async σ) where
  pure := done
  bind := bind

def act (f : σ → α × σ) : Async σ α := step f done

def get (f : σ → α) : Async σ α := act fun s => (f s, s)

def modify (f : σ → σ) : Async σ Unit := act fun s => ((), f s)

def await (ready : σ → Option α × σ) (leave : σ → σ := id) : Async σ α := wait ready leave done

def ensuring (release : σ → σ) (a : Async σ α) : Async σ α := guarded release a done

def gather : List (Async σ α) → Async σ (List α)
  | [] => done []
  | a :: rest => both a (gather rest) fun x xs => done (x :: xs)

def firstOf (a : Async σ α) (b : Async σ β) : Async σ (α ⊕ β) := race a b done

def iterate (body : β → Async σ (β ⊕ γ)) (start : β) : Async σ γ := loop body (body start) done

-- Gives up a computation where it stands: it stops waiting, and what it is to release is.
def abandon : {α : Type} → Async σ α → σ → σ
  | _, done _, s => s
  | _, step _ _, s => s
  | _, wait _ leave _, s => leave s
  | _, guarded release a _, s => release (a.abandon s)
  | _, both a b _, s => b.abandon (a.abandon s)
  | _, race a b _, s => b.abandon (a.abandon s)
  | _, loop _ a _, s => a.abandon s

inductive Polled (σ α : Type) where
  | ready (a : α)
  | pending (rest : Async σ α)

-- Goes on until the end or until there is nothing to do but wait, for at most `fuel` steps.
def poll : Nat → {α : Type} → Async σ α → σ → Polled σ α × σ
  | 0, _, a, s => (.pending a, s)
  | _ + 1, _, done a, s => (.ready a, s)
  | fuel + 1, _, step f next, s =>
    match f s with
    | (b, s) => poll fuel (next b) s
  | fuel + 1, _, wait ready leave next, s =>
    match ready s with
    | (some b, s) => poll fuel (next b) s
    | (none, s) => (.pending (wait ready leave next), s)
  | fuel + 1, _, guarded release a next, s =>
    match poll fuel a s with
    | (.ready b, s) => poll fuel (next b) (release s)
    | (.pending a, s) => (.pending (guarded release a next), s)
  | fuel + 1, _, both a b next, s =>
    match poll fuel a s with
    | (.ready x, s) =>
      match poll fuel b s with
      | (.ready y, s) => poll fuel (next x y) s
      | (.pending b, s) => (.pending (both (done x) b next), s)
    | (.pending a, s) =>
      match poll fuel b s with
      | (.ready y, s) => (.pending (both a (done y) next), s)
      | (.pending b, s) => (.pending (both a b next), s)
  | fuel + 1, _, race a b next, s =>
    match poll fuel a s with
    | (.ready x, s) => poll fuel (next (.inl x)) (b.abandon s)
    | (.pending a, s) =>
      match poll fuel b s with
      | (.ready y, s) => poll fuel (next (.inr y)) (a.abandon s)
      | (.pending b, s) => (.pending (race a b next), s)
  | fuel + 1, _, loop body a next, s =>
    match poll fuel a s with
    | (.ready (.inl b), s) => poll fuel (loop body (body b) next) s
    | (.ready (.inr c), s) => poll fuel (next c) s
    | (.pending a, s) => (.pending (loop body a next), s)

end Async

end EventTracking
