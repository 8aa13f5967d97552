import Mathlib.Data.Int.Notation
import Mathlib.Data.List.Basic

/-!
# Objects of a Kubernetes API server

The errors of API calls, what a reconcile returns to the controller runtime, and an object with all
versions that were ever stored.  A read through the cache may return any of them; the server accepts
a write only if it is based on the version that is stored now.
-/

namespace Kube

/-- An error of an API call: the object does not exist, the server's validation rejects it, or
anything else. -/
inductive Error where
  | notFound (text : String)
  | invalid (text : String)
  | other (text : String)
  deriving DecidableEq

namespace Error

def text : Error → String
  | notFound text => text
  | invalid text => text
  | other text => text

def isNotFound : Error → Bool
  | notFound _ => true
  | _ => false

def isTransient : Error → Bool
  | other _ => true
  | _ => false

def conflict : Error := other "the object has been modified"

end Error

def failed {α : Type*} : Except Error α → Bool
  | .error e => e.isTransient
  | .ok _ => false

/-- What the server does with a write that it does not reject as a conflict; a lost reply reports an
error although the write was stored. -/
inductive Reply where
  | ok
  | refused (e : Error)
  | lost (e : Error)

namespace Reply

def stores : Reply → Bool
  | refused _ => false
  | _ => true

def error? : Reply → Option Error
  | ok => none
  | refused e => some e
  | lost e => some e

end Reply

def second : ℤ := 1000000000

/-- What a reconcile returns to the controller runtime. -/
inductive Result where
  | done
  | requeueAfter (nanoseconds : ℤ)
  | error (text : String)
  deriving DecidableEq

def Result.retries : Result → Bool
  | done => false
  | requeueAfter d => 0 < d
  | error _ => true

structure Object (α : Type*) where
  versions : List α
  /-- Whether the object has been deleted for good. -/
  gone : Bool := false

namespace Object

variable {α : Type*} {o : Object α} {i : ℕ} {x : α} {r : Reply}

def current (o : Object α) : Option α := if o.gone then none else o.versions.getLast?

def isCurrent (o : Object α) (i : ℕ) : Bool := !o.gone && i + 1 == o.versions.length

def write (o : Object α) (i : ℕ) (x : α) (r : Reply) : Object α :=
  if o.isCurrent i && r.stores then { o with versions := o.versions ++ [x] } else o

def writeError (o : Object α) (i : ℕ) (r : Reply) : Option Error :=
  if o.isCurrent i then r.error? else some .conflict

theorem isCurrent_iff : o.isCurrent i ↔ o.gone = false ∧ i + 1 = o.versions.length := by
  simp [isCurrent]

theorem writeError_eq_none : o.writeError i r = none ↔ o.isCurrent i ∧ r = .ok := by
  rw [writeError]
  by_cases h : o.isCurrent i
  · cases r <;> simp [h, Reply.error?]
  · simp [h]

theorem current_eq (h : o.isCurrent i) (hx : o.versions[i]? = some x) : o.current = some x := by
  obtain ⟨hg, hi⟩ := isCurrent_iff.1 h
  rw [current, hg, List.getLast?_eq_getElem?, ← hi]
  exact hx

theorem getLast?_of_current (h : o.current = some x) : o.versions.getLast? = some x := by
  unfold current at h
  split at h
  · cases h
  · exact h

theorem current_mem (h : o.current = some x) : x ∈ o.versions :=
  List.mem_of_getLast? (getLast?_of_current h)

theorem write_of_stores (h : o.isCurrent i) (hr : r.stores) :
    o.write i x r = { o with versions := o.versions ++ [x] } := by
  rw [write, h, hr]
  rfl

theorem write_of_not (h : ¬ (o.isCurrent i ∧ r.stores)) : o.write i x r = o := by
  rw [write, if_neg]
  rwa [Bool.and_eq_true]

theorem isCurrent_write (h : o.isCurrent i) (hr : r.stores) :
    (o.write i x r).isCurrent (i + 1) := by
  obtain ⟨hg, hi⟩ := isCurrent_iff.1 h
  rw [write_of_stores h hr, isCurrent_iff]
  simp [hg, hi]

theorem current_write_of_stores (h : o.isCurrent i) (hr : r.stores) :
    (o.write i x r).current = some x := by
  rw [write_of_stores h hr, current, (isCurrent_iff.1 h).1]
  simp

end Object

end Kube
