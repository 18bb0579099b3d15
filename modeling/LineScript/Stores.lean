import LineScript.Store

/-!
Several stores side by side, each under a name. A copy takes over what is bound at the time, and
from then on the two stores have nothing to do with each other.
-/
namespace LineScript

/-- A store for every name; those never used are empty. -/
structure Stores where
  store : Text → Store

inductive StoreAction where
  | set (on name : Text) (v : Value)
  | clear (on : Text)
  | copy (source target : Text)
  deriving DecidableEq

def StoreAction.target : StoreAction → Text
  | .set on _ _ => on
  | .clear on => on
  | .copy _ target => target

namespace Stores

def empty : Stores := ⟨fun _ => Store.empty⟩

def put (stores : Stores) (on : Text) (s : Store) : Stores :=
  ⟨fun name => if name = on then s else stores.store name⟩

def apply (stores : Stores) : StoreAction → Stores
  | .set on name v => stores.put on ((stores.store on).set name v)
  | .clear on => stores.put on Store.empty
  | .copy source target => stores.put target (stores.store source)

def run (stores : Stores) (actions : List StoreAction) : Stores := actions.foldl apply stores

theorem store_put_self (stores : Stores) (on : Text) (s : Store) :
    (stores.put on s).store on = s := by simp [put]

theorem store_put_of_ne (stores : Stores) {on other : Text} (h : other ≠ on) (s : Store) :
    (stores.put on s).store other = stores.store other := by simp [put, h]

end Stores

end LineScript
