import Sequitur.Formula.Parser

/-!
# Sequitur.Proofs.Formula.Operator

Where items are cut.  The search for the loosest operator keeps the loosest
one so far and takes a looser one in its place.  So it ends at an operator
before which all others bind tighter, and behind which none binds more
loosely (`Splits`); there is at most one such place, and the search finds it
if there is one (`weakest?_eq_some_iff`).
-/

namespace Sequitur

namespace Item

/-- All operators among the items bind tighter than `n`. -/
def Below (n : Nat) (items : List Item) : Prop :=
  ∀ item ∈ items, ∀ m, item.looseness? = some m → m < n

theorem below_nil (n : Nat) : Below n [] := List.forall_mem_nil _

theorem below_cons {n : Nat} {item : Item} {items : List Item} :
    Below n (item :: items) ↔ (∀ m, item.looseness? = some m → m < n) ∧ Below n items :=
  List.forall_mem_cons

theorem Below.mono {n m : Nat} {items : List Item} (h : Below n items) (hle : n ≤ m) :
    Below m items :=
  fun item hitem k hk => Nat.lt_of_lt_of_le (h item hitem k hk) hle

/-- `Splits n l item r`: an operator that binds as loosely as `n` stands between items where
all others bind tighter, and items where none binds more loosely. -/
structure Splits (n : Nat) (l : List Item) (item : Item) (r : List Item) : Prop where
  looseness : item.looseness? = some n
  left : Below n l
  right : Below (n + 1) r

/-- No item that splits a list stands behind another that does. -/
theorem Splits.not_behind {n m : Nat} {l between r r' : List Item} {item other : Item}
    (h : Splits n l item (between ++ other :: r)) :
    ¬ Splits m (l ++ item :: between) other r' := by
  intro hother
  have hlt := hother.left item (by simp) n h.looseness
  have hle := h.right other (by simp) m hother.looseness
  omega

theorem Splits.length_le {n m : Nat} {l l' r r' : List Item} {item item' : Item}
    (h : Splits n l item r) (h' : Splits m l' item' r')
    (heq : l ++ item :: r = l' ++ item' :: r') : l'.length ≤ l.length := by
  rcases List.append_eq_append_iff.mp heq with ⟨between, rfl, hr⟩ | ⟨between, rfl, -⟩
  · cases between with
    | nil => exact Nat.le_of_eq (congrArg List.length (List.append_nil l))
    | cons x between =>
        obtain ⟨rfl, rfl⟩ := List.cons.inj hr
        exact absurd h' h.not_behind
  · rw [List.length_append]
    exact Nat.le_add_right _ _

/-- A list is split at one place at most. -/
theorem Splits.length_eq {n m : Nat} {l l' r r' : List Item} {item item' : Item}
    (h : Splits n l item r) (h' : Splits m l' item' r')
    (heq : l ++ item :: r = l' ++ item' :: r') : l.length = l'.length :=
  Nat.le_antisymm (h'.length_le h heq.symm) (h.length_le h' heq)

/-! ## The search -/

/-- How loosely an operator must bind to take the place of the loosest one so far. -/
def limit (best : Option (Nat × Nat)) : Nat := best.elim 0 (·.2 + 1)

/-- What a search finds among items of which the first is at position `i`. -/
inductive Finds (i : Nat) (best : Option (Nat × Nat)) (items : List Item) : Option Nat → Prop where
  /-- No operator takes the place of the loosest one so far. -/
  | kept (h : Below (limit best) items) : Finds i best items (best.map (·.1))
  /-- The items are split at the operator that is found. -/
  | here (n : Nat) (l : List Item) (item : Item) (r : List Item) (hitems : items = l ++ item :: r)
      (h : Splits n l item r) (hle : limit best ≤ n) : Finds i best items (some (i + l.length))

/-- An item that is passed over. -/
theorem Finds.skip {i : Nat} {best : Option (Nat × Nat)} {item : Item} {rest : List Item}
    {found : Option Nat} (hitem : ∀ k, item.looseness? = some k → k < limit best)
    (h : Finds (i + 1) best rest found) : Finds i best (item :: rest) found := by
  cases h with
  | kept h => exact .kept (below_cons.mpr ⟨hitem, h⟩)
  | here n l other r hrest h hle =>
      rw [Nat.add_right_comm, Nat.add_assoc]
      refine .here n (item :: l) other r (by rw [hrest, List.cons_append]) ?_ hle
      have hleft := below_cons.mpr ⟨fun k hk => Nat.lt_of_lt_of_le (hitem k hk) hle, h.left⟩
      exact ⟨h.looseness, hleft, h.right⟩

/-- An item that takes the place of the loosest one so far. -/
theorem Finds.take {i k : Nat} {best : Option (Nat × Nat)} {item : Item} {rest : List Item}
    {found : Option Nat} (hitem : item.looseness? = some k) (hle : limit best ≤ k)
    (h : Finds (i + 1) (some (i, k)) rest found) : Finds i best (item :: rest) found := by
  cases h with
  | kept h => exact .here k [] item rest rfl ⟨hitem, below_nil k, h⟩ hle
  | here n l other r hrest h hlt =>
      rw [Nat.add_right_comm, Nat.add_assoc]
      refine .here n (item :: l) other r (by rw [hrest, List.cons_append]) ?_
        (Nat.le_trans hle (Nat.le_of_succ_le hlt))
      have hother (m : Nat) (hm : item.looseness? = some m) : m < n := by
        obtain rfl := Option.some.inj (hitem.symm.trans hm)
        exact hlt
      exact ⟨h.looseness, below_cons.mpr ⟨hother, h.left⟩, h.right⟩

theorem finds_weakestFrom (i : Nat) (best : Option (Nat × Nat)) (items : List Item) :
    Finds i best items (weakestFrom i best items) := by
  fun_induction weakestFrom i best items with
  | case1 i best => exact .kept (below_nil _)
  | case2 i best item rest hitem ih => exact ih.skip (by simp [hitem])
  | case3 i item rest n hitem ih => exact ih.take hitem (Nat.zero_le n)
  | case4 i item rest n j m hitem hlt ih => exact ih.take hitem hlt
  | case5 i item rest n j m hitem hle ih =>
      refine ih.skip ?_
      intro k hk
      obtain rfl := Option.some.inj (hitem.symm.trans hk)
      exact Nat.lt_succ_of_le (Nat.not_lt.mp hle)

/-- **The search finds the place where items are split**, if there is one. -/
theorem weakest?_eq_some_iff {items : List Item} {i : Nat} :
    weakest? items = some i ↔
      ∃ n l item r, items = l ++ item :: r ∧ Splits n l item r ∧ l.length = i := by
  have hfinds := finds_weakestFrom 0 none items
  rw [← weakest?] at hfinds
  generalize hfound : weakest? items = found at hfinds
  constructor
  · rintro rfl
    cases hfinds with
    | here n l item r hitems h _ => exact ⟨n, l, item, r, hitems, h, (Nat.zero_add _).symm⟩
  · rintro ⟨n, l, item, r, rfl, h, rfl⟩
    cases hfinds with
    | kept hbelow =>
        have hlt := hbelow item (by simp) n h.looseness
        exact absurd hlt (Nat.not_lt_zero n)
    | here m l' item' r' hitems h' _ => rw [h.length_eq h' hitems, Nat.zero_add]

/-- What is known of the items around the operator that is found. -/
theorem splits_of_weakest? {items : List Item} {i : Nat} {item : Item}
    (h : weakest? items = some i) (hi : items[i]? = some item) :
    items = items.take i ++ item :: items.drop (i + 1) ∧
      ∃ n, Splits n (items.take i) item (items.drop (i + 1)) := by
  obtain ⟨n, l, other, r, rfl, hsplits, rfl⟩ := weakest?_eq_some_iff.mp h
  have hother : some other = some item := by
    rw [← hi]
    simp
  obtain rfl := Option.some.inj hother
  have hdrop : (l ++ other :: r).drop (l.length + 1) = r := by simp
  rw [List.take_left, hdrop]
  exact ⟨rfl, n, hsplits⟩

/-! ## What operators make -/

theorem formula_of_op {items : List Item} {i offset : Nat} {c : Connective} {p q : Formula}
    (h : weakest? items = some i) (hi : items[i]? = some (.token ⟨.op c, offset⟩))
    (hl : formula (items.take i) = .ok p) (hr : formula (items.drop (i + 1)) = .ok q) :
    formula items = .ok (.bin c p q) := by
  fun_cases formula items
  case case1 | case2 | case3 | case4 => contradiction
  case case5 | case6 | case7 | case9 => simp_all
  case case8 j d offset' _ _ _ _ hj hitem =>
      obtain rfl : j = i := Option.some.inj (hj.symm.trans h)
      obtain ⟨rfl, rfl⟩ : c = d ∧ offset = offset' := by simpa [hi] using hitem
      rw [hl, hr]
      rfl

theorem formula_of_neg {items : List Item} {offset : Nat} {p : Formula}
    (h : weakest? items = some 0) (hi : items[0]? = some (.token ⟨.neg, offset⟩))
    (hr : formula (items.drop 1) = .ok p) : formula items = .ok p.neg := by
  fun_cases formula items
  case case1 | case2 | case3 | case4 => contradiction
  case case5 | case6 | case8 | case9 => simp_all
  case case7 j offset' hj _ _ _ _ _ _ =>
      obtain rfl : j = 0 := Decidable.not_not.mp hj
      rw [hr]
      rfl

/-- A connective that splits items joins what is on its two sides. -/
theorem formula_append_op {n offset : Nat} {c : Connective} {l r : List Item} {p q : Formula}
    (h : Splits n l (.token ⟨.op c, offset⟩) r) (hl : formula l = .ok p) (hr : formula r = .ok q) :
    formula (l ++ .token ⟨.op c, offset⟩ :: r) = .ok (.bin c p q) := by
  have hop : (l ++ .token ⟨.op c, offset⟩ :: r)[l.length]? = some (.token ⟨.op c, offset⟩) := by
    simp
  have hdrop : (l ++ .token ⟨.op c, offset⟩ :: r).drop (l.length + 1) = r := by simp
  refine formula_of_op (weakest?_eq_some_iff.mpr ⟨n, l, _, r, rfl, h, rfl⟩) hop ?_ ?_
  · rw [List.take_left, hl]
  · rw [hdrop, hr]

/-- A negation that splits items negates what follows. -/
theorem formula_neg_cons {n offset : Nat} {r : List Item} {p : Formula}
    (h : Splits n [] (.token ⟨.neg, offset⟩) r) (hr : formula r = .ok p) :
    formula (.token ⟨.neg, offset⟩ :: r) = .ok p.neg :=
  formula_of_neg (weakest?_eq_some_iff.mpr ⟨n, [], _, r, rfl, h, rfl⟩) rfl hr

end Item

end Sequitur
