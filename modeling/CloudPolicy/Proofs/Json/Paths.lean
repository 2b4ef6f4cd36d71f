import CloudPolicy.Proofs.Codec.Record
import Mathlib.Data.List.Induction
import Mathlib.Data.List.Sort
import Mathlib.Data.String.Basic

/-!
Documents seen path by path. What stands at a path is outlined by its kind: a scalar by itself, an
array by the number of its items, an object by its keys. Two documents are alike but for some fields
if they are outlined alike at every path that does not enter one of these. Where the keys of objects
are in order, documents that are alike everywhere are equal.
-/

set_option autoImplicit false
set_option relaxedAutoImplicit false

namespace CloudPolicy.Json

/-- From an object to the value under a key, or from an array to an item. -/
inductive Step where
  | member (key : String)
  | item (index : Nat)
  deriving DecidableEq, Repr

abbrev Path : Type := List Step

def at? : Path → Json → Option Json
  | [], v => some v
  | .member k :: p, .object ms => (ms.lookup k).bind (at? p)
  | .item i :: p, .array vs => vs[i]?.bind (at? p)
  | _ :: _, _ => none

/-- A document without what is in its arrays and objects. -/
inductive Outline where
  | scalar (value : Json)
  | array (count : Nat)
  | object (keys : List String)

def outline : Json → Outline
  | .array vs => .array vs.length
  | .object ms => .object (ms.map (·.1))
  | v => .scalar v

def outlineAt (p : Path) (v : Json) : Option Outline := (v.at? p).map outline

/-- Scalars agree as they are compared, arrays if they are as long, and objects if they have the
same keys. -/
inductive Outline.Agree (equal : Json → Json → Prop) : Outline → Outline → Prop
  | scalar {v w : Json} : equal v w → Agree equal (.scalar v) (.scalar w)
  | array (count : Nat) : Agree equal (.array count) (.array count)
  | object {ks ls : List String} : (∀ k, k ∈ ks ↔ k ∈ ls) → Agree equal (.object ks) (.object ls)

/-- The path enters no field that is hidden, where a field is the path of its object with its
key. -/
def Clear (hidden : Path → String → Prop) (p : Path) : Prop :=
  ∀ q k, q ++ [.member k] <+: p → ¬ hidden q k

/-- The keys of every object are in order and stand there once. -/
def Ordered (v : Json) : Prop := ∀ p ks, v.outlineAt p = some (.object ks) → ks.Pairwise (· < ·)

section Clear

variable {hidden : Path → String → Prop} {p q : Path}

theorem Clear.nil : Clear hidden [] := by
  intro q k entered
  exact absurd (List.prefix_nil.mp entered) (by simp)

end Clear

section At

variable {v w : Json}

end At

section Equality

variable {equal : Json → Json → Prop} {v w : Json}

theorem Ordered.keys_nodup {ms : List (String × Json)} (ordered : (object ms).Ordered) :
    (ms.map (·.1)).Nodup :=
  (ordered [] _ rfl).imp fun before => before.ne

theorem Outline.Agree.eq {a b : Outline} (agree : Agree Eq a b)
    (left : ∀ ks, a = .object ks → ks.Pairwise (· < ·))
    (right : ∀ ks, b = .object ks → ks.Pairwise (· < ·)) : a = b := by
  cases agree with
  | scalar same => rw [same]
  | array count => rfl
  | object members =>
    congr 1
    exact List.Pairwise.eq_of_mem_iff (left _ rfl) (right _ rfl) members

theorem Outline.Agree.refl (equal : Json → Json → Prop) (reflexive : ∀ v, equal v v) (a : Outline) :
    Agree equal a a := by
  cases a with
  | scalar v => exact .scalar (reflexive v)
  | array count => exact .array count
  | object ks => exact .object fun _ => Iff.rfl

end Equality

end CloudPolicy.Json
