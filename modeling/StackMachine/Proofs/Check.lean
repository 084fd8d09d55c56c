/-!
# Checks in sequence

Validation and execution are full of checks of which the first that fails is reported.  Two such
checks in a row succeed if both do (`bind_eq_ok_iff`) and fail if the first does, or the first
succeeds and the second fails (`bind_eq_error_iff`).  Where every item of a list is checked, the
results match the items position by position (`Matches`).
-/

namespace StackMachine

theorem bind_eq_ok_iff {ε α β : Type} {x : Except ε α} {f : α → Except ε β} {b : β} :
    x >>= f = .ok b ↔ ∃ a, x = .ok a ∧ f a = .ok b := by
  cases x <;> simp [bind, Except.bind]

theorem bind_eq_error_iff {ε α β : Type} {x : Except ε α} {f : α → Except ε β} {e : ε} :
    x >>= f = .error e ↔ x = .error e ∨ ∃ a, x = .ok a ∧ f a = .error e := by
  cases x <;> simp [bind, Except.bind]

theorem map_eq_error_iff {ε α β : Type} {x : Except ε α} {f : α → β} {e : ε} :
    x.map f = .error e ↔ x = .error e := by
  cases x <;> simp [Except.map]

def error? {ε α : Type} : Except ε α → Option ε
  | .ok _ => none
  | .error e => some e

theorem error?_eq_none_iff {ε α : Type} {x : Except ε α} : error? x = none ↔ ∃ a, x = .ok a := by
  cases x <;> simp [error?]

theorem error?_eq_some_iff {ε α : Type} {x : Except ε α} {e : ε} :
    error? x = some e ↔ x = .error e := by
  cases x <;> simp [error?]

/-! ### Position by position -/

variable {α β : Type} {R : Nat → α → β → Prop} {a : α} {as : List α} {bs : List β}

/-- Two lists are equally long, and items at the same position are related. -/
structure Matches (R : Nat → α → β → Prop) (as : List α) (bs : List β) : Prop where
  length_eq : bs.length = as.length
  related : ∀ {i a}, as[i]? = some a → ∃ b, bs[i]? = some b ∧ R i a b

theorem matches_nil_iff : Matches R [] bs ↔ bs = [] := by
  constructor
  · intro h
    exact List.length_eq_zero_iff.mp h.length_eq
  · rintro rfl
    exact ⟨rfl, fun h => by simp at h⟩

theorem matches_cons_iff :
    Matches R (a :: as) bs ↔
      ∃ b rest, bs = b :: rest ∧ R 0 a b ∧ Matches (fun i => R (i + 1)) as rest := by
  constructor
  · intro h
    cases bs with
    | nil => exact absurd h.length_eq (by simp)
    | cons b rest =>
      have hhead : R 0 a b := by
        obtain ⟨b', hb', hR⟩ := h.related (i := 0) rfl
        obtain rfl : b = b' := Option.some.inj hb'
        exact hR
      refine ⟨b, rest, rfl, hhead, by simpa using h.length_eq, ?_⟩
      intro i a' ha'
      obtain ⟨b', hb', hR⟩ := h.related (i := i + 1) (by simpa using ha')
      exact ⟨b', by simpa using hb', hR⟩
  · rintro ⟨b, rest, rfl, hhead, htail⟩
    refine ⟨by simp [htail.length_eq], ?_⟩
    intro i a' ha'
    cases i with
    | zero =>
      obtain rfl : a = a' := Option.some.inj ha'
      exact ⟨b, rfl, hhead⟩
    | succ i =>
      obtain ⟨b', hb', hR⟩ := htail.related (i := i) (by simpa using ha')
      exact ⟨b', by simpa using hb', hR⟩

theorem Matches.imp {R' : Nat → α → β → Prop} (h : Matches R as bs)
    (himp : ∀ {i a b}, R i a b → R' i a b) : Matches R' as bs := by
  refine ⟨h.length_eq, ?_⟩
  intro i a ha
  obtain ⟨b, hb, hR⟩ := h.related ha
  exact ⟨b, hb, himp hR⟩

/-- If every item can be matched, the list can. -/
theorem exists_matches (h : ∀ i a, as[i]? = some a → ∃ b, R i a b) : ∃ bs, Matches R as bs := by
  induction as generalizing R with
  | nil => exact ⟨[], matches_nil_iff.mpr rfl⟩
  | cons a as ih =>
    obtain ⟨b, hb⟩ := h 0 a rfl
    have htail : ∀ i a', as[i]? = some a' → ∃ b, R (i + 1) a' b :=
      fun i a' ha' => h (i + 1) a' (by simpa using ha')
    obtain ⟨rest, hrest⟩ := ih htail
    exact ⟨b :: rest, matches_cons_iff.mpr ⟨b, rest, rfl, hb, hrest⟩⟩

/-- An item of the second list belongs to one of the first. -/
theorem Matches.exists_left (h : Matches R as bs) {i : Nat} {b : β} (hb : bs[i]? = some b) :
    ∃ a, as[i]? = some a ∧ R i a b := by
  obtain ⟨hi, -⟩ := List.getElem?_eq_some_iff.mp hb
  have hlt : i < as.length := h.length_eq ▸ hi
  obtain ⟨b', hb', hR⟩ := h.related (List.getElem?_eq_getElem hlt)
  obtain rfl := Option.some.inj (hb.symm.trans hb')
  exact ⟨as[i], List.getElem?_eq_getElem hlt, hR⟩

theorem matches_mapIdx {f : Nat → α → β} (h : ∀ i a, as[i]? = some a → R i a (f i a)) :
    Matches R as (as.mapIdx f) := by
  refine ⟨List.length_mapIdx, ?_⟩
  intro i a ha
  exact ⟨f i a, by rw [List.getElem?_mapIdx, ha]; rfl, h i a ha⟩

/-- Where each item is a function of the one that it is matched with, the first list can be read
off the second. -/
theorem matches_eq_map_iff {f : β → α} {P : Nat → β → Prop} :
    Matches (fun i a b => a = f b ∧ P i b) as bs ↔
      as = bs.map f ∧ ∀ i b, bs[i]? = some b → P i b := by
  constructor
  · intro h
    refine ⟨List.ext_getElem? fun i => ?_, fun i b hb => ?_⟩
    · rw [List.getElem?_map]
      cases hb : bs[i]? with
      | none =>
        rw [List.getElem?_eq_none_iff, h.length_eq] at hb
        exact List.getElem?_eq_none_iff.mpr hb
      | some b =>
        obtain ⟨a, ha, rfl, -⟩ := h.exists_left hb
        exact ha
    · obtain ⟨a, -, -, hP⟩ := h.exists_left hb
      exact hP
  · rintro ⟨rfl, hP⟩
    refine ⟨(List.length_map f).symm, ?_⟩
    intro i a ha
    obtain ⟨b, hb, rfl⟩ := Option.map_eq_some_iff.mp (List.getElem?_map.symm.trans ha)
    exact ⟨b, hb, rfl, hP i b hb⟩

end StackMachine
