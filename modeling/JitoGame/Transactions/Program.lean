import Mathlib.Logic.Function.Basic
import Mathlib.Data.Nat.Notation

namespace JitoGame.Transactions

/-- A transactional store and the callers of it: `Lock` names what a statement waits for (a row, or
a key of a unique index) and `apply` is the effect of one buffered write at commit. -/
structure Schema where
  Db : Type
  Lock : Type
  Write : Type
  Id : Type
  Tag : Type
  Call : Type
  Err : Type
  Res : Type
  apply : Write → Db → Db
  fault : Err

/-- What a statement sees: the committed rows under the transaction's own writes, and `now()`,
which is the start of the transaction. -/
structure View (Db : Type) where
  db : Db
  now : ℕ

inductive Prog (S : Schema) (α : Type) : Type
  | ret (a : α)
  | fail (e : S.Err)
  | begin (k : Prog S α)
  | stmt (tag : S.Tag) (want : View S.Db → Option S.Lock) (effect : View S.Db → List S.Write)
      (k : Option (View S.Db) → Prog S α)
  | mint (k : S.Id → Prog S α)
  | input (k : ℕ → Prog S α)
  | commit (k : Bool → Prog S α)
  | rollback (k : Prog S α)

namespace Prog

variable {S : Schema} {α β : Type}

def bind : Prog S α → (α → Prog S β) → Prog S β
  | ret a, f => f a
  | fail e, _ => fail e
  | begin k, f => begin (k.bind f)
  | stmt tag want effect k, f => stmt tag want effect (fun v => (k v).bind f)
  | mint k, f => mint (fun x => (k x).bind f)
  | input k, f => input (fun n => (k n).bind f)
  | commit k, f => commit (fun b => (k b).bind f)
  | rollback k, f => rollback (k.bind f)

def handle : Prog S α → (S.Err → Prog S α) → Prog S α
  | ret a, _ => ret a
  | fail e, h => h e
  | begin k, h => begin (k.handle h)
  | stmt tag want effect k, h => stmt tag want effect (fun v => (k v).handle h)
  | mint k, h => mint (fun x => (k x).handle h)
  | input k, h => input (fun n => (k n).handle h)
  | commit k, h => commit (fun b => (k b).handle h)
  | rollback k, h => rollback (k.handle h)

instance : Monad (Prog S) where
  pure := ret
  bind := bind

instance : MonadExceptOf S.Err (Prog S) where
  throw := fail
  tryCatch := handle

/-- One SQL statement. It waits for the lock it wants, acts on the view it has when the lock is
granted, and raises `fault` when the database gives up on it. -/
def exec (tag : S.Tag) (want : View S.Db → Option S.Lock) (effect : View S.Db → List S.Write) :
    Prog S (View S.Db) :=
  stmt tag want effect fun
    | none => fail S.fault
    | some v => ret v

def select (tag : S.Tag) : Prog S (View S.Db) :=
  exec tag (fun _ => none) (fun _ => [])

def fresh : Prog S S.Id := mint ret

def outside : Prog S ℕ := input ret

/-- An interactive transaction: an error inside the body rolls it back and is thrown again. -/
def transaction (body : Prog S α) : Prog S α :=
  begin ((body.handle fun e => rollback (fail e)).bind fun a =>
    commit fun done => if done then ret a else fail S.fault)

end Prog

end JitoGame.Transactions
