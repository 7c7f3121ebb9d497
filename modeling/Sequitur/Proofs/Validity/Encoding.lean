import Mathlib.Data.List.Nodup
import Mathlib.Data.Set.Function
import Mathlib.Order.Interval.Set.Basic
import Sequitur.Proofs.Logic.Valuation

/-!
# Sequitur.Proofs.Validity.Encoding

The clause form of a sequent says what the sequent says, model for model.

An assignment gives values to the numbers of a clause form.  It is a model
over a valuation if all clauses hold and the variables of the sequent have
the values of the valuation.  A clause form encodes a property of valuations
if there is a model over exactly those with the property, and then only one
(`Encodes`): the numbers beyond the variables have no freedom of their own.

Each number is given together with what determines its value, and this keeps
the property (`Encodes.extend`).  The number of a formula has the value of the
formula (`define_spec`), so that asserting it adds the formula to the property
(`Encodes.assert`).  In the end the clause form of a sequent encodes that the
sequent is refuted (`clauseForm_encodes`).
-/

namespace Sequitur

/-- Values for all of a type, from values for a part of it.  The rest is false. -/
def total {α : Type} {p : α → Prop} [DecidablePred p] (values : Subtype p → Bool) (i : α) : Bool :=
  if h : p i then values ⟨i, h⟩ else false

theorem total_of_mem {α : Type} {p : α → Prop} [DecidablePred p] (values : Subtype p → Bool)
    {i : α} (h : p i) : total values i = values ⟨i, h⟩ := dif_pos h

/-! ## Literals and clauses -/

theorem Literal.holds_natCast (a : Nat → Bool) {n : Nat} (hn : 1 ≤ n) :
    Literal.holds a (n : Int) = a n := by
  have hpos : decide ((0 : Int) < n) = true := decide_eq_true (by omega)
  rw [Literal.holds, hpos, Int.natAbs_natCast, beq_true]

theorem Literal.holds_neg_natCast (a : Nat → Bool) {n : Nat} (hn : 1 ≤ n) :
    Literal.holds a (-(n : Int)) = !a n := by
  rw [Literal.holds_neg a (by omega), Literal.holds_natCast a hn]

@[simp] theorem Clause.holds_nil (a : Nat → Bool) : Clause.holds a [] = false := rfl

@[simp] theorem Clause.holds_cons (a : Nat → Bool) (l : Literal) (c : Clause) :
    Clause.holds a (l :: c) = (Literal.holds a l || Clause.holds a c) := rfl

namespace ClauseForm

/-- The clauses that define a number hold exactly if it has the value of the
two others joined by the connective. -/
theorem holds_definition_iff (a : Nat → Bool) {x m n : Nat} (hx : 1 ≤ x) (hm : 1 ≤ m)
    (hn : 1 ≤ n) (c : Connective) :
    (∀ d ∈ definition x m n c, Clause.holds a d = true) ↔ a x = c.eval (a m) (a n) := by
  cases c <;>
    simp only [definition, List.forall_mem_cons, List.not_mem_nil, false_implies, implies_true,
      Clause.holds_cons, Clause.holds_nil, Literal.holds_natCast a hx, Literal.holds_natCast a hm,
      Literal.holds_natCast a hn, Literal.holds_neg_natCast a hx, Literal.holds_neg_natCast a hm,
      Literal.holds_neg_natCast a hn, Connective.eval] <;>
    cases a x <;> cases a m <;> cases a n <;> simp

/-! ## Models -/

/-- All clauses hold, and the variables of the sequent have the values of a
valuation. -/
structure Models (f : ClauseForm) (v : Valuation) (a : Nat → Bool) : Prop where
  clauses : ∀ c ∈ f.clauses, Clause.holds a c = true
  vars : ∀ p ∈ f.vars, a p.2 = v p.1

/-- Only numbers that have been given are used, and different variables have
different numbers. -/
structure Numbered (f : ClauseForm) : Prop where
  names_nodup : (f.vars.map Prod.fst).Nodup
  numbers_nodup : (f.vars.map Prod.snd).Nodup
  vars_mem : ∀ p ∈ f.vars, p.2 ∈ Set.Icc 1 f.count
  literals_mem : ∀ c ∈ f.clauses, ∀ l ∈ c, l.natAbs ∈ Set.Icc 1 f.count
  /-- The number of falsity is declared false. -/
  falsity_mem : ∀ n, f.falsity = some n → [-(n : Int)] ∈ f.clauses

/-- There is a model over exactly the valuations with a property, and not
more than one. -/
structure Encodes (f : ClauseForm) (P : Valuation → Prop) : Prop extends Numbered f where
  exists_models : ∀ v, (∃ a, f.Models v a) ↔ P v
  unique : ∀ {v a b}, f.Models v a → f.Models v b → Set.EqOn a b (Set.Icc 1 f.count)

variable {f g : ClauseForm} {P : Valuation → Prop}

/-- Whether an assignment is a model depends on the values of the numbers
that have been given. -/
theorem Numbered.models_congr (h : f.Numbered) {v : Valuation} {a b : Nat → Bool}
    (hab : Set.EqOn a b (Set.Icc 1 f.count)) : f.Models v a ↔ f.Models v b := by
  have hclause : ∀ c ∈ f.clauses, Clause.holds a c = Clause.holds b c := fun c hc =>
    Clause.holds_congr fun l hl => hab (h.literals_mem c hc l hl)
  have hvar : ∀ p ∈ f.vars, a p.2 = b p.2 := fun p hp => hab (h.vars_mem p hp)
  constructor
  · intro ha
    refine ⟨fun c hc => ?_, fun p hp => ?_⟩
    · rw [← hclause c hc, ha.clauses c hc]
    · rw [← hvar p hp, ha.vars p hp]
  · intro hb
    refine ⟨fun c hc => ?_, fun p hp => ?_⟩
    · rw [hclause c hc, hb.clauses c hc]
    · rw [hvar p hp, hb.vars p hp]

/-- The number of falsity is false in every model. -/
theorem Numbered.falsity_eq_false (h : f.Numbered) {n : Nat} (hn : f.falsity = some n)
    {v : Valuation} {a : Nat → Bool} (ha : f.Models v a) : a n = false := by
  have hmem := h.falsity_mem n hn
  have hone : 1 ≤ n := by simpa using (h.literals_mem _ hmem _ List.mem_cons_self).1
  simpa [Literal.holds_neg_natCast a hone] using ha.clauses _ hmem

theorem models_add {cs : List Clause} {v : Valuation} {a : Nat → Bool} :
    (f.add cs).Models v a ↔ f.Models v a ∧ ∀ c ∈ cs, Clause.holds a c = true := by
  constructor
  · rintro ⟨hclauses, hvars⟩
    obtain ⟨hold, hnew⟩ := List.forall_mem_append.mp hclauses
    exact ⟨⟨hold, hvars⟩, hnew⟩
  · rintro ⟨hold, hnew⟩
    exact ⟨List.forall_mem_append.mpr ⟨hold.clauses, hnew⟩, hold.vars⟩

/-! ## One more number -/

/-- The clause form in which a name has the next number. -/
def withVar (f : ClauseForm) (x : Name) : ClauseForm :=
  { f with count := f.count + 1, vars := f.vars ++ [(x, f.count + 1)] }

/-- The clause form with clauses about the next number. -/
def withGate (f : ClauseForm) (falsity : Option Nat) (cs : List Clause) : ClauseForm :=
  { f with count := f.count + 1, falsity, clauses := f.clauses ++ cs }

theorem next_mem (n : Nat) : n + 1 ∈ Set.Icc 1 (n + 1) := ⟨Nat.succ_pos n, le_refl _⟩

theorem mem_next {m n : Nat} (h : m ∈ Set.Icc 1 n) : m ∈ Set.Icc 1 (n + 1) :=
  ⟨h.1, Nat.le_succ_of_le h.2⟩

theorem models_withVar {x : Name} {v : Valuation} {a : Nat → Bool} :
    (f.withVar x).Models v a ↔ f.Models v a ∧ a (f.count + 1) = v x := by
  constructor
  · rintro ⟨hclauses, hvars⟩
    obtain ⟨hold, hnew⟩ := List.forall_mem_append.mp hvars
    exact ⟨⟨hclauses, hold⟩, hnew _ List.mem_cons_self⟩
  · rintro ⟨hold, hnew⟩
    refine ⟨hold.clauses, List.forall_mem_append.mpr ⟨hold.vars, ?_⟩⟩
    rw [List.forall_mem_singleton]
    exact hnew

theorem models_withGate {falsity : Option Nat} {cs : List Clause} {v : Valuation}
    {a : Nat → Bool} :
    (f.withGate falsity cs).Models v a ↔ f.Models v a ∧ ∀ c ∈ cs, Clause.holds a c = true := by
  rw [← models_add]
  exact ⟨fun ⟨hclauses, hvars⟩ => ⟨hclauses, hvars⟩, fun ⟨hclauses, hvars⟩ => ⟨hclauses, hvars⟩⟩

/-- Whether a name has a number. -/
def Binds (f : ClauseForm) (x : Name) : Prop := x ∈ f.vars.map Prod.fst

theorem Numbered.withVar (h : f.Numbered) {x : Name} (hx : ¬ f.Binds x) :
    (f.withVar x).Numbered := by
  refine ⟨?_, ?_, ?_, fun c hc l hl => mem_next (h.literals_mem c hc l hl), h.falsity_mem⟩
  · rw [ClauseForm.withVar, List.map_append, List.nodup_append_comm]
    exact List.nodup_cons.mpr ⟨hx, h.names_nodup⟩
  · rw [ClauseForm.withVar, List.map_append, List.nodup_append_comm]
    refine List.nodup_cons.mpr ⟨fun hmem => ?_, h.numbers_nodup⟩
    obtain ⟨p, hp, hnext⟩ := List.mem_map.mp hmem
    have hle := (h.vars_mem p hp).2
    rw [hnext] at hle
    exact absurd hle (Nat.not_succ_le_self _)
  · refine List.forall_mem_append.mpr ⟨fun p hp => mem_next (h.vars_mem p hp), ?_⟩
    rw [List.forall_mem_singleton]
    exact next_mem f.count

theorem Numbered.withGate (h : f.Numbered) {falsity : Option Nat} {cs : List Clause}
    (hmem : ∀ c ∈ cs, ∀ l ∈ c, l.natAbs ∈ Set.Icc 1 (f.count + 1))
    (hfalsity : ∀ n, falsity = some n → [-(n : Int)] ∈ f.clauses ++ cs) :
    (f.withGate falsity cs).Numbered := by
  refine ⟨h.names_nodup, h.numbers_nodup, fun p hp => mem_next (h.vars_mem p hp), ?_, hfalsity⟩
  exact List.forall_mem_append.mpr ⟨fun c hc l hl => mem_next (h.literals_mem c hc l hl), hmem⟩

/-! ## Encoding a property -/

theorem empty_encodes : empty.Encodes fun _ => True where
  names_nodup := List.nodup_nil
  numbers_nodup := List.nodup_nil
  vars_mem _ hp := absurd hp List.not_mem_nil
  literals_mem _ hc := absurd hc List.not_mem_nil
  falsity_mem _ hn := by contradiction
  exists_models v := by
    have hmodel : empty.Models v fun _ => false :=
      ⟨fun _ hc => absurd hc List.not_mem_nil, fun _ hp => absurd hp List.not_mem_nil⟩
    exact iff_of_true ⟨_, hmodel⟩ trivial
  unique _ _ n hn := absurd (le_trans hn.1 hn.2) (by decide)

/-- One more number, whose value is determined by the valuation and the
numbers before it, leaves a clause form with the same property. -/
theorem Encodes.extend (hf : f.Encodes P) (hg : g.Numbered) (hcount : g.count = f.count + 1)
    (value : Valuation → (Nat → Bool) → Bool)
    (hvalue : ∀ v a b, Set.EqOn a b (Set.Icc 1 f.count) → value v a = value v b)
    (hmodels : ∀ v a, g.Models v a ↔ f.Models v a ∧ a (f.count + 1) = value v a) :
    g.Encodes P := by
  refine ⟨hg, fun v => ?_, ?_⟩
  · rw [← hf.exists_models v]
    constructor
    · rintro ⟨a, ha⟩
      exact ⟨a, ((hmodels v a).mp ha).1⟩
    · rintro ⟨a, ha⟩
      -- the new number lies beyond the others, so setting it does not disturb them
      have hold : Set.EqOn a (Function.update a (f.count + 1) (value v a))
          (Set.Icc 1 f.count) := by
        intro n hn
        have hne : n ≠ f.count + 1 := Nat.ne_of_lt (Nat.lt_succ_of_le hn.2)
        rw [Function.update_of_ne hne]
      refine ⟨Function.update a (f.count + 1) (value v a), (hmodels v _).mpr ⟨?_, ?_⟩⟩
      · exact (hf.models_congr hold).mp ha
      · rw [Function.update_self]
        exact hvalue v _ _ hold
  · intro v a b ha hb n hn
    obtain ⟨hfa, hva⟩ := (hmodels v a).mp ha
    obtain ⟨hfb, hvb⟩ := (hmodels v b).mp hb
    have hold := hf.unique hfa hfb
    rw [hcount] at hn
    rcases Nat.le_succ_iff.mp hn.2 with hle | rfl
    · exact hold ⟨hn.1, hle⟩
    · rw [hva, hvb, hvalue v a b hold]

/-- A literal whose value is a function of the valuation, once it is asserted,
adds to the property that the value is true. -/
theorem Encodes.assert (hf : f.Encodes P) {l : Literal} (hl : l.natAbs ∈ Set.Icc 1 f.count)
    {value : Valuation → Bool} (hvalue : ∀ {v a}, f.Models v a → Literal.holds a l = value v) :
    (f.add [[l]]).Encodes fun v => P v ∧ value v = true := by
  have hmodels : ∀ v a, (f.add [[l]]).Models v a ↔ f.Models v a ∧ value v = true := by
    intro v a
    rw [models_add]
    refine and_congr_right fun ha => ?_
    simp [hvalue ha]
  refine ⟨⟨hf.names_nodup, hf.numbers_nodup, hf.vars_mem, ?_, ?_⟩, fun v => ?_, ?_⟩
  · refine List.forall_mem_append.mpr ⟨hf.literals_mem, ?_⟩
    simp only [List.forall_mem_singleton]
    exact hl
  · intro n hn
    exact List.mem_append_left _ (hf.falsity_mem n hn)
  · simp only [hmodels, exists_and_right, hf.exists_models v]
  · intro v a b ha hb
    exact hf.unique ((hmodels v a).mp ha).1 ((hmodels v b).mp hb).1

/-! ## The number of a formula -/

/-- In `g`, which goes on from `f`, the number `x` has the value of `p`. -/
structure Defines (f : ClauseForm) (p : Formula) (x : Nat) (g : ClauseForm) : Prop where
  number_mem : x ∈ Set.Icc 1 g.count
  value : ∀ {v a}, g.Models v a → a x = p.eval v
  count_le : f.count ≤ g.count
  models : ∀ {v a}, g.Models v a → f.Models v a
  binds : ∀ y, g.Binds y ↔ f.Binds y ∨ p.Occurs y

theorem mem_of_lookup {x : Name} {n : Nat} (h : f.vars.lookup x = some n) : (x, n) ∈ f.vars := by
  obtain ⟨before, after, hvars, -⟩ := List.lookup_eq_some_iff.mp h
  rw [hvars]
  exact List.mem_append_right _ List.mem_cons_self

theorem not_binds_of_lookup {x : Name} (h : f.vars.lookup x = none) : ¬ f.Binds x := by
  intro hx
  obtain ⟨p, hp, rfl⟩ := List.mem_map.mp hx
  simpa using List.lookup_eq_none_iff.mp h p hp

theorem number_spec (hf : f.Encodes P) (x : Name) :
    (f.number x).2.Encodes P ∧ f.Defines (.var x) (f.number x).1 (f.number x).2 := by
  rw [number]
  split
  · next n hn =>
      have hmem := mem_of_lookup hn
      have hx : f.Binds x := List.mem_map.mpr ⟨_, hmem, rfl⟩
      refine ⟨hf, hf.vars_mem _ hmem, fun ha => ha.vars _ hmem, le_refl _, id, fun y => ?_⟩
      rw [Formula.occurs_var, or_iff_left_of_imp]
      rintro rfl
      exact hx
  · next hnone =>
      change (f.withVar x).Encodes P ∧ f.Defines (.var x) (f.count + 1) (f.withVar x)
      have hencodes : (f.withVar x).Encodes P :=
        hf.extend (hf.withVar (not_binds_of_lookup hnone)) rfl (fun v _ => v x)
          (fun _ _ _ _ => rfl) (fun _ _ => models_withVar)
      refine ⟨hencodes, next_mem f.count, fun ha => (models_withVar.mp ha).2, Nat.le_succ _,
        fun ha => (models_withVar.mp ha).1, fun y => ?_⟩
      simp [Binds, withVar]

theorem falsum_spec (hf : f.Encodes P) :
    f.falsum.2.Encodes P ∧ f.Defines .falsity f.falsum.1 f.falsum.2 := by
  rw [falsum]
  split
  · next n hn =>
      refine ⟨hf, ?_, hf.falsity_eq_false hn, le_refl _, id, fun y => by simp⟩
      simpa using hf.literals_mem _ (hf.falsity_mem n hn) _ List.mem_cons_self
  · let cs : List Clause := [[-((f.count + 1 : Nat) : Int)]]
    change (f.withGate (some (f.count + 1)) cs).Encodes P ∧
      f.Defines .falsity (f.count + 1) (f.withGate (some (f.count + 1)) cs)
    have hmodels : ∀ v a, (f.withGate (some (f.count + 1)) cs).Models v a ↔
        f.Models v a ∧ a (f.count + 1) = false := by
      intro v a
      rw [models_withGate, List.forall_mem_singleton, Clause.holds_cons,
        Literal.holds_neg_natCast a (Nat.succ_pos _), Clause.holds_nil, Bool.or_false,
        Bool.not_eq_true']
    have hnumbered : (f.withGate (some (f.count + 1)) cs).Numbered := by
      refine hf.withGate ?_ ?_
      · rw [List.forall_mem_singleton, List.forall_mem_singleton, Int.natAbs_neg,
          Int.natAbs_natCast]
        exact next_mem f.count
      · rintro n ⟨⟩
        exact List.mem_append_right _ List.mem_cons_self
    have hencodes := hf.extend hnumbered rfl (fun _ _ => false) (fun _ _ _ _ => rfl) hmodels
    exact ⟨hencodes, next_mem f.count, fun ha => ((hmodels _ _).mp ha).2, Nat.le_succ _,
      fun ha => ((hmodels _ _).mp ha).1, fun y => by simp [Binds, withGate]⟩

/-- The clauses that define a number are about that number and the two others. -/
theorem natAbs_mem_of_definition {S : Set Nat} {x m n : Nat} (hx : x ∈ S) (hm : m ∈ S)
    (hn : n ∈ S) (c : Connective) : ∀ d ∈ definition x m n c, ∀ l ∈ d, l.natAbs ∈ S := by
  cases c <;> simp [definition, hx, hm, hn]

/-- One more number for two formulas that have numbers, joined by a
connective. -/
theorem gate_spec {m n : Nat} {l r : Formula} (hf : f.Encodes P) (c : Connective)
    (hm : m ∈ Set.Icc 1 f.count) (hn : n ∈ Set.Icc 1 f.count)
    (hl : ∀ {v a}, f.Models v a → a m = l.eval v) (hr : ∀ {v a}, f.Models v a → a n = r.eval v) :
    (f.withGate f.falsity (definition (f.count + 1 : Nat) m n c)).Encodes P ∧
      ∀ {v a}, (f.withGate f.falsity (definition (f.count + 1 : Nat) m n c)).Models v a →
        f.Models v a ∧ a (f.count + 1) = (Formula.bin c l r).eval v := by
  have hmodels : ∀ v a,
      (f.withGate f.falsity (definition (f.count + 1 : Nat) m n c)).Models v a ↔
        f.Models v a ∧ a (f.count + 1) = c.eval (a m) (a n) := by
    intro v a
    rw [models_withGate, holds_definition_iff a (Nat.succ_pos _) hm.1 hn.1]
  have hnumbered : (f.withGate f.falsity (definition (f.count + 1 : Nat) m n c)).Numbered := by
    refine hf.withGate ?_ ?_
    · exact natAbs_mem_of_definition (next_mem f.count) (mem_next hm) (mem_next hn) c
    · intro k hk
      exact List.mem_append_left _ (hf.falsity_mem k hk)
  constructor
  · refine hf.extend hnumbered rfl (fun _ a => c.eval (a m) (a n)) ?_ hmodels
    intro v a b hab
    rw [hab hm, hab hn]
  · intro v a ha
    obtain ⟨hold, hnew⟩ := (hmodels v a).mp ha
    rw [hnew, hl hold, hr hold, Formula.eval_bin]
    exact ⟨hold, rfl⟩

/-- **The number of a formula has the value of the formula**, and giving it
leaves the property that is encoded as it was. -/
theorem define_spec (hf : f.Encodes P) (p : Formula) :
    (f.define p).2.Encodes P ∧ f.Defines p (f.define p).1 (f.define p).2 := by
  induction p generalizing f with
  | falsity => exact falsum_spec hf
  | var x => exact number_spec hf x
  | bin c l r ihl ihr =>
      obtain ⟨hencodesl, hl⟩ := ihl hf
      obtain ⟨hencodesr, hr⟩ := ihr hencodesl
      have hm : (f.define l).1 ∈ Set.Icc 1 ((f.define l).2.define r).2.count :=
        ⟨hl.number_mem.1, le_trans hl.number_mem.2 hr.count_le⟩
      obtain ⟨hencodes, hmodels⟩ := gate_spec hencodesr c hm hr.number_mem
        (fun ha => hl.value (hr.models ha)) hr.value
      refine ⟨hencodes, next_mem _, fun ha => (hmodels ha).2, ?_, ?_, fun y => ?_⟩
      · exact le_trans (le_trans hl.count_le hr.count_le) (Nat.le_succ _)
      · exact fun ha => hl.models (hr.models (hmodels ha).1)
      · change ((f.define l).2.define r).2.Binds y ↔ _
        rw [hr.binds, hl.binds, Formula.occurs_bin, or_assoc]

/-! ## The clause form of a sequent -/

theorem assertAll_cons (f : ClauseForm) (h : Formula) (hs : List Formula) :
    (f.assertAll (h :: hs)).2 =
      (((f.define h).2.add [[((f.define h).1 : Int)]]).assertAll hs).2 := rfl

theorem assertAll_spec (hf : f.Encodes P) (hs : List Formula) :
    ((f.assertAll hs).2.Encodes fun v => P v ∧ ∀ h ∈ hs, h.eval v = true) ∧
      ∀ y, (f.assertAll hs).2.Binds y ↔ f.Binds y ∨ ∃ h ∈ hs, h.Occurs y := by
  induction hs generalizing f P with
  | nil => simpa [assertAll] using hf
  | cons h hs ih =>
      obtain ⟨hencodes, hdefines⟩ := define_spec hf h
      have hasserted := hencodes.assert (l := ((f.define h).1 : Int)) hdefines.number_mem
        fun ha => (Literal.holds_natCast _ hdefines.number_mem.1).trans (hdefines.value ha)
      obtain ⟨hall, hbinds⟩ := ih hasserted
      rw [assertAll_cons]
      constructor
      · simpa only [List.forall_mem_cons, and_assoc] using hall
      · intro y
        have hnames : ((f.define h).2.add [[((f.define h).1 : Int)]]).Binds y ↔
            f.Binds y ∨ h.Occurs y := hdefines.binds y
        rw [hbinds, hnames, List.exists_mem_cons_iff, or_assoc]

theorem deny_spec (hf : f.Encodes P) (p : Formula) :
    ((f.deny p).Encodes fun v => P v ∧ p.eval v = false) ∧
      ∀ y, (f.deny p).Binds y ↔ f.Binds y ∨ p.Occurs y := by
  obtain ⟨hencodes, hdefines⟩ := define_spec hf p
  have hmem : (-((f.define p).1 : Int)).natAbs ∈ Set.Icc 1 (f.define p).2.count := by
    rw [Int.natAbs_neg]
    exact hdefines.number_mem
  have hvalue : ∀ {v a}, (f.define p).2.Models v a →
      Literal.holds a (-((f.define p).1 : Int)) = !p.eval v := fun ha => by
    rw [Literal.holds_neg_natCast _ hdefines.number_mem.1, hdefines.value ha]
  have hdenied := hencodes.assert hmem hvalue
  simp only [Bool.not_eq_true'] at hdenied
  exact ⟨hdenied, hdefines.binds⟩

/-! ## Reading values off an assignment -/

/-- Whether all clauses hold. -/
def SatisfiedBy (f : ClauseForm) (a : Nat → Bool) : Prop :=
  ∀ c ∈ f.clauses, Clause.holds a c = true

/-- The values of the names that have a number. -/
def read (f : ClauseForm) (a : Nat → Bool) : Valuation := fun x => (f.vars.lookup x).any a

theorem Numbered.lookup_of_mem (h : f.Numbered) {x : Name} {n : Nat} (hn : (x, n) ∈ f.vars) :
    f.vars.lookup x = some n := by
  cases hlookup : f.vars.lookup x with
  | none => exact absurd (List.mem_map.mpr ⟨_, hn, rfl⟩) (not_binds_of_lookup hlookup)
  | some m =>
      have heq : (x, m) = (x, n) :=
        List.inj_on_of_nodup_map h.names_nodup (mem_of_lookup hlookup) hn rfl
      rw [(Prod.mk.inj heq).2]

theorem Numbered.read_of_mem (h : f.Numbered) {x : Name} {n : Nat} (hn : (x, n) ∈ f.vars)
    (a : Nat → Bool) : f.read a x = a n := by
  rw [read, h.lookup_of_mem hn, Option.any_some]

/-- Clauses that hold have a model over the values that are read. -/
theorem Numbered.models_read (h : f.Numbered) {a : Nat → Bool} (ha : f.SatisfiedBy a) :
    f.Models (f.read a) a :=
  ⟨ha, fun _ hp => (h.read_of_mem hp a).symm⟩

end ClauseForm

namespace Sequent

theorem clauseForm_eq (s : Sequent) :
    s.clauseForm = (ClauseForm.empty.assertAll s.hyps).2.deny s.concl := rfl

/-- The clause form of a sequent encodes that the sequent is refuted, and the
names with a number are the variables of the sequent. -/
theorem clauseForm_encodes (s : Sequent) :
    s.clauseForm.Encodes s.RefutedBy ∧ ∀ y, s.clauseForm.Binds y ↔ s.Mentions y := by
  obtain ⟨hhyps, hhypnames⟩ := ClauseForm.assertAll_spec ClauseForm.empty_encodes s.hyps
  obtain ⟨hall, hnames⟩ := ClauseForm.deny_spec hhyps s.concl
  rw [clauseForm_eq]
  constructor
  · simp only [true_and] at hall
    exact hall
  · intro y
    have hempty : ¬ ClauseForm.empty.Binds y := List.not_mem_nil
    rw [hnames, hhypnames, or_iff_right hempty]
    simp [Mentions, formulas, or_and_right, exists_or]

/-! ## Model for model -/

theorem refutedBy_read {s : Sequent} {a : Nat → Bool} (ha : s.clauseForm.SatisfiedBy a) :
    s.RefutedBy (s.clauseForm.read a) := by
  have hencodes := s.clauseForm_encodes.1
  exact (hencodes.exists_models _).mp ⟨a, hencodes.models_read ha⟩

/-- Values for the numbers of the clause form of a sequent. -/
abbrev Assignment (s : Sequent) := { n : Nat // n ∈ Set.Icc 1 s.clauseForm.count } → Bool

/-- Values for the variables of a sequent. -/
abbrev LocalValuation (s : Sequent) := { x : Name // s.Mentions x } → Bool

/-- The values that an assignment gives to the variables of a sequent. -/
def restrict (s : Sequent) (a : s.Assignment) : s.LocalValuation :=
  fun x => s.clauseForm.read (total a) x

theorem exists_number {s : Sequent} {x : Name} (hx : s.Mentions x) :
    ∃ n, (x, n) ∈ s.clauseForm.vars := by
  obtain ⟨⟨y, n⟩, hn, rfl⟩ := List.mem_map.mp ((s.clauseForm_encodes.2 x).mpr hx)
  exact ⟨n, hn⟩

theorem mapsTo_restrict (s : Sequent) :
    Set.MapsTo s.restrict { a | s.clauseForm.SatisfiedBy (total a) }
      { v | s.RefutedBy (total v) } := by
  intro a ha
  refine (refutedBy_congr fun x hx => ?_).mp (refutedBy_read ha)
  rw [total_of_mem _ hx, restrict]

theorem injOn_restrict (s : Sequent) :
    Set.InjOn s.restrict { a | s.clauseForm.SatisfiedBy (total a) } := by
  intro a ha b hb hab
  have hencodes := s.clauseForm_encodes.1
  -- the two assignments are models over the same valuation
  have hsame : ∀ p ∈ s.clauseForm.vars, total b p.2 = s.clauseForm.read (total a) p.1 := by
    intro p hp
    have hx : s.Mentions p.1 := (s.clauseForm_encodes.2 p.1).mp (List.mem_map_of_mem hp)
    have hp' : s.restrict a ⟨p.1, hx⟩ = s.restrict b ⟨p.1, hx⟩ := by rw [hab]
    rw [← hencodes.read_of_mem hp (total b)]
    exact hp'.symm
  funext n
  have heq := hencodes.unique (hencodes.models_read ha) ⟨hb, hsame⟩ n.2
  rwa [total_of_mem a n.2, total_of_mem b n.2] at heq

theorem surjOn_restrict (s : Sequent) :
    Set.SurjOn s.restrict { a | s.clauseForm.SatisfiedBy (total a) }
      { v | s.RefutedBy (total v) } := by
  intro v hv
  have hencodes := s.clauseForm_encodes.1
  obtain ⟨a, ha⟩ := (hencodes.exists_models _).mpr hv
  let b : s.Assignment := fun n => a n
  have hab : Set.EqOn a (total b) (Set.Icc 1 s.clauseForm.count) :=
    fun n hn => (total_of_mem b hn).symm
  have hb : s.clauseForm.Models (total v) (total b) := (hencodes.models_congr hab).mp ha
  refine ⟨b, hb.clauses, ?_⟩
  funext x
  obtain ⟨n, hn⟩ := exists_number x.2
  rw [restrict, hencodes.read_of_mem hn, hb.vars _ hn, total_of_mem v x.2]

theorem exists_satisfiedBy_iff (s : Sequent) :
    (∃ a, s.clauseForm.SatisfiedBy a) ↔ ∃ v, s.RefutedBy v := by
  constructor
  · rintro ⟨a, ha⟩
    exact ⟨_, refutedBy_read ha⟩
  · rintro ⟨v, hv⟩
    obtain ⟨a, ha⟩ := (s.clauseForm_encodes.1.exists_models v).mpr hv
    exact ⟨a, ha.clauses⟩

/-- **The clause form is exact.**  Reading the variables of the sequent is a
bijection from the assignments under which all clauses hold to the valuations
that refute the sequent, so that there is one if and only if there is the
other.  The names with a number are the variables of the sequent, whatever
they are called, each has one number, and no two share one.  No clause speaks
of a number that has not been given. -/
theorem bijOn_restrict (s : Sequent) :
    Set.BijOn s.restrict { a | s.clauseForm.SatisfiedBy (total a) }
      { v | s.RefutedBy (total v) } ∧
    ((∃ a, s.clauseForm.SatisfiedBy a) ↔ ∃ v, s.RefutedBy v) ∧
    (∀ x, x ∈ s.clauseForm.vars.map Prod.fst ↔ s.Mentions x) ∧
    (s.clauseForm.vars.map Prod.fst).Nodup ∧ (s.clauseForm.vars.map Prod.snd).Nodup ∧
    (∀ p ∈ s.clauseForm.vars, p.2 ∈ Set.Icc 1 s.clauseForm.count) ∧
    (∀ c ∈ s.clauseForm.clauses, ∀ l ∈ c, l.natAbs ∈ Set.Icc 1 s.clauseForm.count) := by
  obtain ⟨hencodes, hbinds⟩ := s.clauseForm_encodes
  exact ⟨⟨s.mapsTo_restrict, s.injOn_restrict, s.surjOn_restrict⟩, s.exists_satisfiedBy_iff,
    hbinds, hencodes.names_nodup, hencodes.numbers_nodup, hencodes.vars_mem,
    hencodes.literals_mem⟩

/-- Names that look like numbers are names like others: `x2` is the first
variable of `x2 |- x1 /\ x2`, `x1` the second and the conjunction the third. -/
example :
    let x1 : Name := ⟨⟨'x', rfl⟩, [⟨'1', rfl⟩]⟩
    let x2 : Name := ⟨⟨'x', rfl⟩, [⟨'2', rfl⟩]⟩
    clauseForm ⟨[.var x2], .conj (.var x1) (.var x2)⟩ =
      { count := 3, vars := [(x2, 1), (x1, 2)], falsity := none,
        clauses := [[1], [-3, 2], [-3, 1], [3, -2, -1], [-3]] } := by decide

end Sequent

end Sequitur
