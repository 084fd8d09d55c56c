/-!
# Stacks

A stack is a list with the top first, together with its length, so that asking for the size costs
nothing.  `Stack.toList` and `Stack.top` show values the other way round, the deepest first, which
is the order in which they were pushed.

Two stacks with the same items are equal (`Stack.ext`).
-/

namespace StackMachine

structure Stack (α : Type) where
  /-- The items, the top first. -/
  items : List α
  size : Nat
  size_eq : size = items.length

namespace Stack

variable {α : Type}

def empty : Stack α := ⟨[], 0, rfl⟩

def push (a : α) (s : Stack α) : Stack α :=
  ⟨a :: s.items, s.size + 1, by rw [List.length_cons, ← s.size_eq]⟩

def pop? : Stack α → Option (α × Stack α)
  | ⟨[], _, _⟩ => none
  | ⟨a :: rest, n, h⟩ => some (a, ⟨rest, n - 1, by rw [h, List.length_cons, Nat.add_sub_cancel]⟩)

/-- The stack on which the items were pushed in order. -/
def ofList (as : List α) : Stack α :=
  ⟨as.reverse, as.length, by rw [List.length_reverse]⟩

/-- The items in the order in which they were pushed. -/
def toList (s : Stack α) : List α :=
  s.items.reverse

/-- The `n` topmost items, the deepest of them first. -/
def top (n : Nat) (s : Stack α) : List α :=
  (s.items.take n).reverse

/-- The items above the lowest `base`, the deepest of them first. -/
def above (base : Nat) (s : Stack α) : List α :=
  s.top (s.size - base)

/-! ### Views -/

@[ext] theorem ext {s t : Stack α} (h : s.items = t.items) : s = t := by
  obtain ⟨as, n, hn⟩ := s
  obtain ⟨bs, m, hm⟩ := t
  obtain rfl : as = bs := h
  obtain rfl : n = m := hn.trans hm.symm
  rfl

@[simp] theorem items_empty : (empty : Stack α).items = [] := rfl

@[simp] theorem items_push (a : α) (s : Stack α) : (s.push a).items = a :: s.items := rfl

@[simp] theorem items_ofList (as : List α) : (ofList as).items = as.reverse := rfl

@[simp] theorem size_empty : (empty : Stack α).size = 0 := rfl

@[simp] theorem size_push (a : α) (s : Stack α) : (s.push a).size = s.size + 1 := rfl

@[simp] theorem size_ofList (as : List α) : (ofList as).size = as.length := rfl

@[simp] theorem pop?_push (a : α) (s : Stack α) : (s.push a).pop? = some (a, s) := rfl

@[simp] theorem pop?_empty : (empty : Stack α).pop? = none := rfl

theorem pop?_eq_none_iff {s : Stack α} : s.pop? = none ↔ s = empty := by
  constructor
  · intro h
    match s, h with
    | ⟨[], n, hn⟩, _ => exact ext rfl
  · rintro rfl
    rfl

/-- What can be popped was pushed. -/
theorem eq_push_of_pop? {s t : Stack α} {a : α} (h : s.pop? = some (a, t)) : s = t.push a := by
  match s, h with
  | ⟨_ :: _, n, hn⟩, h =>
    obtain ⟨rfl, rfl⟩ := Prod.mk.inj (Option.some.inj h)
    exact ext rfl

@[simp] theorem toList_ofList (as : List α) : (ofList as).toList = as :=
  List.reverse_reverse as

@[simp] theorem toList_push (a : α) (s : Stack α) : (s.push a).toList = s.toList ++ [a] :=
  List.reverse_cons

end Stack

end StackMachine
