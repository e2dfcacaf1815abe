import EmmyStubs.Cache
import EmmyStubs.Log
import EmmyStubs.Stub.Basic

/-! # Sessions and actions

    All declarations of a run share two caches, one for qualified names and one for mapped
    types, and one log.  An action is a computation that asks for one cache operation or
    reports one message at a time and goes on with the answer.  Running it on a session serves
    its requests one after the other; since every request is one step, actions of several
    workers can also be interleaved. -/

namespace EmmyStubs

/-- No expression is vacant. -/
instance : Vacant TypeExpr := ⟨fun _ => false⟩

/-! ## §1. Requests -/

/-- One operation on a cache. -/
inductive CacheRequest (α : Type) where
  | get (key : Identity)
  | miss
  | store (key : Identity) (value : α)

/-- What a cache answers. -/
@[reducible]
def CacheRequest.Answer {α : Type} : CacheRequest α → Type
  | .get _ => Option α
  | .miss => Unit
  | .store _ _ => α

inductive Request where
  | name (r : CacheRequest String)
  | mapping (r : CacheRequest TypeExpr)
  | report (e : Log.Entry)

@[reducible]
def Request.Answer : Request → Type
  | .name r => r.Answer
  | .mapping r => r.Answer
  | .report _ => Unit

/-- Serves one request. -/
def Cache.serve {α : Type} [Vacant α] (c : Cache α) : (r : CacheRequest α) → r.Answer × Cache α
  | .get key => c.get key
  | .miss => ((), c.miss)
  | .store key value => c.store key value

/-! ## §2. Sessions -/

structure Session where
  names : Cache String
  mappings : Cache TypeExpr
  log : List Log.Entry

namespace Session

def start : Session :=
  ⟨Cache.empty, Cache.empty, []⟩

/-- Serves one request. -/
def serve (s : Session) : (r : Request) → r.Answer × Session
  | .name r => let (a, c) := s.names.serve r; (a, { s with names := c })
  | .mapping r => let (a, c) := s.mappings.serve r; (a, { s with mappings := c })
  | .report e => ((), { s with log := s.log ++ [e] })

end Session

/-! ## §3. Actions -/

/-- A result, or a request with what to do with its answer. -/
inductive Action (α : Type) : Type where
  | done (a : α)
  | ask (r : Request) (next : r.Answer → Action α)

namespace Action

variable {α β γ : Type}

def bind : Action α → (α → Action β) → Action β
  | done a, f => f a
  | ask r next, f => ask r fun a => (next a).bind f

instance : Monad Action where
  pure := done
  bind := bind

@[simp] theorem pure_eq_done (a : α) : (pure a : Action α) = done a := rfl

@[simp] theorem done_bind (a : α) (f : α → Action β) : done a >>= f = f a := rfl

@[simp] theorem ask_bind (r : Request) (next : r.Answer → Action α) (f : α → Action β) :
    ask r next >>= f = ask r fun a => next a >>= f := rfl

theorem bind_done (x : Action α) : x >>= done = x := by
  induction x with
  | done a => rfl
  | ask r next ih =>
    rw [ask_bind]
    congr 1
    funext a
    exact ih a

theorem bind_assoc (x : Action α) (f : α → Action β) (g : β → Action γ) :
    x >>= f >>= g = x >>= fun a => f a >>= g := by
  induction x with
  | done a => rfl
  | ask r next ih =>
    simp only [ask_bind]
    congr 1
    funext a
    exact ih a

instance : LawfulMonad Action :=
  LawfulMonad.mk' Action (fun x => bind_done x) (fun _ _ => rfl) bind_assoc

/-- The result of an action on a session, all requests served in turn. -/
def run : Action α → Session → α × Session
  | done a, s => (a, s)
  | ask r next, s => let (a, s) := s.serve r; (next a).run s

@[simp] theorem run_done (a : α) (s : Session) : (done a).run s = (a, s) := rfl

@[simp] theorem run_ask (r : Request) (next : r.Answer → Action α) (s : Session) :
    (ask r next).run s = (next (s.serve r).1).run (s.serve r).2 := rfl

/-- Running one action after another goes on with the session that the first one leaves. -/
theorem run_bind (x : Action α) (f : α → Action β) (s : Session) :
    (x >>= f).run s = (f (x.run s).1).run (x.run s).2 := by
  induction x generalizing s with
  | done a => rfl
  | ask r next ih => simp only [ask_bind, run_ask, ih]

/-! ## §4. Single requests -/

/-- The request itself, answered. -/
def request (r : Request) : Action r.Answer :=
  ask r done

/-- Reports a message. -/
def report (level : Log.Level) (source : Log.Source) (message : String) : Action Unit :=
  request (.report ⟨level, source, message⟩)

end Action

end EmmyStubs
