import StackMachine.Stack

/-!
# Stacks on top of stacks

`s.atop below` is the stack `s` lying on another one.  Pushing, popping and looking at no more
than `s.size` items do not notice what lies below: this is what makes an invocation blind to the
values of its callers.

* `Stack.eq_empty_or_push`: every stack is empty or has a top.
* `Stack.top_atop`, `Stack.above_atop`: items on top are the same with and without `below`.
* `Stack.atop_bottom`: a stack is its upper part lying on its lower part.
* `Stack.top_map`, `Stack.above_map`, `Stack.cases_of_map_eq`: stacks changed item by item.
-/

namespace StackMachine.Stack

variable {α β : Type}

theorem eq_empty_or_push (s : Stack α) : s = empty ∨ ∃ (a : α) (t : Stack α), s = t.push a := by
  cases h : s.pop? with
  | none => exact .inl (pop?_eq_none_iff.mp h)
  | some popped => exact .inr ⟨popped.1, popped.2, eq_push_of_pop? h⟩

@[simp] theorem push_inj {s t : Stack α} {a b : α} : s.push a = t.push b ↔ s = t ∧ a = b := by
  constructor
  · intro h
    have hpop := congrArg pop? h
    simp only [pop?_push, Option.some.injEq, Prod.mk.injEq] at hpop
    exact ⟨hpop.2, hpop.1⟩
  · rintro ⟨rfl, rfl⟩
    rfl

@[simp] theorem push_ne_empty {s : Stack α} {a : α} : s.push a ≠ empty := by
  intro h
  exact absurd (congrArg size h) (by simp)

theorem length_items (s : Stack α) : s.items.length = s.size := s.size_eq.symm

@[simp] theorem length_toList (s : Stack α) : s.toList.length = s.size := by
  rw [toList, List.length_reverse, length_items]

theorem ofList_toList (s : Stack α) : ofList s.toList = s := ext (List.reverse_reverse _)

theorem length_top {s : Stack α} {n : Nat} (h : n ≤ s.size) : (s.top n).length = n := by
  rw [top, List.length_reverse, List.length_take, length_items, Nat.min_eq_left h]

theorem length_above (s : Stack α) (base : Nat) : (s.above base).length = s.size - base :=
  length_top (Nat.sub_le _ _)

/-- All that was pushed is on top of nothing. -/
theorem top_ofList (as : List α) : (ofList as).top as.length = as := by
  rw [top, items_ofList, ← List.length_reverse, List.take_length, List.reverse_reverse]

@[simp] theorem above_size_push (s : Stack α) (a : α) : (s.push a).above s.size = [a] := by
  rw [above, size_push, Nat.add_sub_cancel_left]
  rfl

/-! ### One stack on another -/

def atop (s below : Stack α) : Stack α :=
  ⟨s.items ++ below.items, s.size + below.size, by
    rw [List.length_append, length_items, length_items]⟩

@[simp] theorem items_atop (s below : Stack α) : (s.atop below).items = s.items ++ below.items :=
  rfl

@[simp] theorem size_atop (s below : Stack α) : (s.atop below).size = s.size + below.size := rfl

@[simp] theorem empty_atop (below : Stack α) : empty.atop below = below := ext rfl

@[simp] theorem push_atop (s below : Stack α) (a : α) :
    (s.push a).atop below = (s.atop below).push a := ext rfl

theorem toList_atop (s below : Stack α) : (s.atop below).toList = below.toList ++ s.toList := by
  rw [toList, items_atop, List.reverse_append, toList, toList]

theorem top_atop {s : Stack α} {n : Nat} (below : Stack α) (h : n ≤ s.size) :
    (s.atop below).top n = s.top n := by
  rw [top, items_atop, List.take_append_of_le_length (by rw [length_items]; exact h), top]

theorem above_atop (s below : Stack α) (base : Nat) :
    (s.atop below).above (base + below.size) = s.above base := by
  rw [above, size_atop, Nat.add_sub_add_right, top_atop below (Nat.sub_le _ _), above]

def bottom (n : Nat) (s : Stack α) : Stack α := ofList (s.toList.take n)

theorem size_bottom {s : Stack α} {n : Nat} (h : n ≤ s.size) : (s.bottom n).size = n := by
  rw [bottom, size_ofList, List.length_take, length_toList, Nat.min_eq_left h]

theorem toList_bottom (s : Stack α) (n : Nat) : (s.bottom n).toList = s.toList.take n :=
  toList_ofList _

theorem above_eq_drop (s : Stack α) (base : Nat) : s.above base = s.toList.drop base := by
  rw [above, top, toList, List.drop_reverse, length_items]

/-- A stack is its items above any height lying on those below it. -/
theorem atop_bottom (s : Stack α) (n : Nat) : (ofList (s.above n)).atop (s.bottom n) = s := by
  apply ext
  rw [items_atop, items_ofList, bottom, items_ofList, ← List.reverse_append, above_eq_drop,
    List.take_append_drop, toList, List.reverse_reverse]

/-! ### Item by item -/

def map (f : α → β) (s : Stack α) : Stack β :=
  ⟨s.items.map f, s.size, by rw [List.length_map, length_items]⟩

@[simp] theorem items_map (f : α → β) (s : Stack α) : (s.map f).items = s.items.map f := rfl

@[simp] theorem size_map (f : α → β) (s : Stack α) : (s.map f).size = s.size := rfl

@[simp] theorem map_push (f : α → β) (s : Stack α) (a : α) :
    (s.push a).map f = (s.map f).push (f a) := ext rfl

@[simp] theorem map_empty (f : α → β) : (empty : Stack α).map f = empty := ext rfl

theorem toList_map (f : α → β) (s : Stack α) : (s.map f).toList = s.toList.map f := by
  rw [toList, items_map, toList, List.map_reverse]

theorem top_map (f : α → β) (s : Stack α) (n : Nat) : (s.map f).top n = (s.top n).map f := by
  rw [top, items_map, top, List.map_reverse, List.map_take]

theorem above_map (f : α → β) (s : Stack α) (base : Nat) :
    (s.map f).above base = (s.above base).map f :=
  s.top_map f (s.size - base)

/-- Stacks with the same image are both empty, or have tops with the same image on such stacks. -/
theorem cases_of_map_eq {f : α → β} {s t : Stack α} (h : s.map f = t.map f) :
    (s = empty ∧ t = empty) ∨ ∃ a b s' t', s = push a s' ∧ t = push b t' ∧ f a = f b ∧
      s'.map f = t'.map f := by
  rcases s.eq_empty_or_push with rfl | ⟨a, s', rfl⟩ <;>
    rcases t.eq_empty_or_push with rfl | ⟨b, t', rfl⟩
  · exact .inl ⟨rfl, rfl⟩
  · rw [map_empty, map_push] at h
    exact absurd h.symm push_ne_empty
  · rw [map_empty, map_push] at h
    exact absurd h push_ne_empty
  · rw [map_push, map_push, push_inj] at h
    exact .inr ⟨a, b, s', t', rfl, rfl, h.2, h.1⟩

end StackMachine.Stack
