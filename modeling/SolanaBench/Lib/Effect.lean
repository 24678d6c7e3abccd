import Mathlib.Data.List.Induction
import Mathlib.Algebra.GroupWithZero.Nat
import Mathlib.Algebra.Order.Group.Nat
import Mathlib.Algebra.BigOperators.Group.List.Basic

/-!
# Sends and counter updates

What a worker does to the outside while it handles a message: it sends on an
output channel, and it updates relaxed atomic counters it never reads back. A
function that does either returns the list of these effects in program order.
`send` stands for a `try_send` on a channel with room.
-/

inductive Effect (κ ε : Type*)
  | send (e : ε)
  | fetchAdd (counter : κ) (n : ℕ)
  | fetchMin (counter : κ) (n : ℕ)
  | fetchMax (counter : κ) (n : ℕ)
  deriving DecidableEq, Repr

namespace Effect

variable {κ ε : Type*}

def sent? : Effect κ ε → Option ε
  | send e => some e
  | _ => none

/-- The events sent, in order. -/
def sent (os : List (Effect κ ε)) : List ε := os.filterMap sent?

def added [DecidableEq κ] (c : κ) : Effect κ ε → ℕ
  | fetchAdd c' n => if c' = c then n else 0
  | _ => 0

/-- The sum of all `fetch_add` on a counter. -/
def total [DecidableEq κ] (c : κ) (os : List (Effect κ ε)) : ℕ := (os.map (added c)).sum

@[simp] theorem sent_nil : sent ([] : List (Effect κ ε)) = [] := rfl
@[simp] theorem sent_send (e : ε) (os : List (Effect κ ε)) : sent (send e :: os) = e :: sent os := rfl
@[simp] theorem sent_fetchAdd (c : κ) (n : ℕ) (os : List (Effect κ ε)) :
    sent (fetchAdd c n :: os) = sent os := rfl
@[simp] theorem sent_fetchMin (c : κ) (n : ℕ) (os : List (Effect κ ε)) :
    sent (fetchMin c n :: os) = sent os := rfl
@[simp] theorem sent_fetchMax (c : κ) (n : ℕ) (os : List (Effect κ ε)) :
    sent (fetchMax c n :: os) = sent os := rfl
@[simp] theorem sent_append (os ps : List (Effect κ ε)) : sent (os ++ ps) = sent os ++ sent ps :=
  List.filterMap_append

variable [DecidableEq κ]

@[simp] theorem total_nil (c : κ) : total c ([] : List (Effect κ ε)) = 0 := rfl
@[simp] theorem total_cons (c : κ) (o : Effect κ ε) (os : List (Effect κ ε)) :
    total c (o :: os) = added c o + total c os := rfl
@[simp] theorem total_append (c : κ) (os ps : List (Effect κ ε)) :
    total c (os ++ ps) = total c os + total c ps := by
  simp [total, List.map_append]

@[simp] theorem added_send (c : κ) (e : ε) : added c (send e : Effect κ ε) = 0 := rfl
@[simp] theorem added_fetchAdd (c c' : κ) (n : ℕ) :
    added c (fetchAdd c' n : Effect κ ε) = if c' = c then n else 0 := rfl
@[simp] theorem added_fetchMin (c c' : κ) (n : ℕ) : added c (fetchMin c' n : Effect κ ε) = 0 := rfl
@[simp] theorem added_fetchMax (c c' : κ) (n : ℕ) : added c (fetchMax c' n : Effect κ ε) = 0 := rfl

end Effect
