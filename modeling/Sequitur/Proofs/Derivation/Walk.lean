import Sequitur.Proofs.Derivation.Reachable

/-!
# Sequitur.Proofs.Derivation.Walk

Walking through a derivation and following a path in it show the same nodes:
the whole walk comes by a node with a path if and only if the path leads to
that node (`mem_walk_iff`).  So what the statistics read off the walk can be
said of paths; the depth of a derivation is one more than the length of its
longest path (`depth_le_iff`).
-/

namespace Sequitur

namespace Derivation

/-! ## Nodes of the walk -/

/-- There is nothing below a goal. -/
theorem at?_goal_eq_some {s : Sequent} {p : Path} {n : Derivation} :
    (goal s).at? p = some n ↔ p = [] ∧ n = goal s := by
  constructor
  · intro h
    cases p with
    | nil => exact ⟨rfl, (Option.some.inj h).symm⟩
    | cons i p =>
        obtain ⟨_, _, _, _, _, hnode, -⟩ := at?_cons_eq_some h
        contradiction
  · rintro ⟨rfl, rfl⟩
    rfl

/-- Below a node there are its premises and what is below them. -/
theorem at?_node_eq_some {s : Sequent} {k : Rule} {ds : List Derivation} {p : Path}
    {n : Derivation} :
    (node s k ds).at? p = some n ↔ (p = [] ∧ n = node s k ds) ∨
      ∃ (m : Nat) (d : Derivation) (q : Path), ds[m]? = some d ∧ p = (m : Int) :: q ∧
        d.at? q = some n := by
  constructor
  · intro h
    cases p with
    | nil => exact .inl ⟨rfl, (Option.some.inj h).symm⟩
    | cons i p =>
        obtain ⟨_, _, _, m, d, hnode, rfl, hm, hn⟩ := at?_cons_eq_some h
        cases hnode
        exact .inr ⟨m, d, p, hm, rfl, hn⟩
  · rintro (⟨rfl, rfl⟩ | ⟨m, d, q, hm, rfl, hn⟩)
    · rfl
    · rw [at?_cons_of_premise hm, hn]

/-- The walk through premises comes by the nodes of each of them, if the walk
through each of them comes by its own. -/
theorem mem_walkAmong {ds : List Derivation} {q : Path} {n : Derivation} (path : Path) (i : Nat)
    (h : ∀ d ∈ ds, ∀ path, (q, n) ∈ walkFrom (fun _ => true) path d ↔
      ∃ p, q = path ++ p ∧ d.at? p = some n) :
    (q, n) ∈ walkAmong (fun _ => true) path i ds ↔
      ∃ m d p, ds[m]? = some d ∧ q = path ++ ((i + m : Nat) : Int) :: p ∧ d.at? p = some n := by
  induction ds generalizing i with
  | nil => simp [walkAmong]
  | cons d ds ih =>
      obtain ⟨hd, hds⟩ := List.forall_mem_cons.mp h
      have hfirst : (∃ p, q = path ++ [(i : Int)] ++ p ∧ d.at? p = some n) ↔
          ∃ p, q = path ++ ((i + 0 : Nat) : Int) :: p ∧ d.at? p = some n := by
        simp
      rw [walkAmong, List.mem_append, hd, ih (i + 1) hds, hfirst]
      constructor
      · rintro (⟨p, hq, hn⟩ | ⟨m, e, p, hm, hq, hn⟩)
        · exact ⟨0, d, p, rfl, hq, hn⟩
        · rw [Nat.add_assoc, Nat.add_comm 1] at hq
          exact ⟨m + 1, e, p, hm, hq, hn⟩
      · rintro ⟨m, e, p, hm, hq, hn⟩
        cases m with
        | zero =>
            obtain rfl : d = e := Option.some.inj hm
            exact .inl ⟨p, hq, hn⟩
        | succ m =>
            rw [Nat.add_comm m, ← Nat.add_assoc] at hq
            exact .inr ⟨m, e, p, hm, hq, hn⟩

theorem mem_walkFrom {d n : Derivation} {path q : Path} :
    (q, n) ∈ walkFrom (fun _ => true) path d ↔ ∃ p, q = path ++ p ∧ d.at? p = some n := by
  induction d using inductOn generalizing path with
  | goal s =>
      rw [walkFrom, List.mem_singleton, Prod.mk.injEq]
      simp only [at?_goal_eq_some]
      constructor
      · rintro ⟨rfl, rfl⟩
        exact ⟨[], by simp, rfl, rfl⟩
      · rintro ⟨p, rfl, rfl, rfl⟩
        exact ⟨List.append_nil path, rfl⟩
  | node s k ds ih =>
      have hpremises := mem_walkAmong path 0 fun d hd path => ih d hd
      rw [walkFrom, if_pos rfl, List.mem_cons, Prod.mk.injEq, hpremises]
      simp only [at?_node_eq_some, Nat.zero_add]
      constructor
      · rintro (⟨rfl, rfl⟩ | ⟨m, d, p, hm, rfl, hn⟩)
        · exact ⟨[], by simp, .inl ⟨rfl, rfl⟩⟩
        · exact ⟨_, rfl, .inr ⟨m, d, p, hm, rfl, hn⟩⟩
      · rintro ⟨p, rfl, ⟨rfl, rfl⟩ | ⟨m, d, q, hm, rfl, hn⟩⟩
        · exact .inl ⟨List.append_nil path, rfl⟩
        · exact .inr ⟨m, d, q, hm, rfl, hn⟩

/-- **The whole walk comes by the nodes that paths lead to**, and by no others. -/
theorem mem_walk_iff {d n : Derivation} {path : Path} :
    (path, n) ∈ d.walk (fun _ => true) ↔ d.at? path = some n := by
  rw [walk, mem_walkFrom]
  simp

/-! ## Depth -/

theorem depth_foldl_add {st : Stats} {nodes : List (Path × Derivation)} {m : Nat} :
    (nodes.foldl Stats.add st).depth ≤ m ↔
      st.depth ≤ m ∧ ∀ n ∈ nodes, n.1.length + 1 ≤ m := by
  induction nodes generalizing st with
  | nil => simp
  | cons n nodes ih =>
      have hadd : (st.add n).depth = max st.depth (n.1.length + 1) := rfl
      rw [List.foldl_cons, ih, hadd, Nat.max_le, List.forall_mem_cons, and_assoc]

/-- The depth of a derivation bounds the lengths of its paths. -/
theorem depth_le_iff {d : Derivation} {m : Nat} :
    d.stats.depth ≤ m ↔ ∀ path n, d.at? path = some n → path.length + 1 ≤ m := by
  rw [stats, depth_foldl_add]
  constructor
  · rintro ⟨-, h⟩ path n hat
    exact h (path, n) (mem_walk_iff.mpr hat)
  · intro h
    refine ⟨Nat.zero_le m, fun n hn => ?_⟩
    exact h n.1 n.2 (mem_walk_iff.mp hn)

/-- There is a node as deep as the derivation. -/
theorem exists_deepest (d : Derivation) :
    ∃ path n, d.at? path = some n ∧ path.length + 1 = d.stats.depth := by
  refine Classical.byContradiction fun hnone => ?_
  have hpaths := depth_le_iff.mp (Nat.le_refl d.stats.depth)
  have hlt : d.stats.depth ≤ d.stats.depth - 1 := by
    refine depth_le_iff.mpr fun path n hat => ?_
    have hle := hpaths path n hat
    have hne : path.length + 1 ≠ d.stats.depth := fun heq => hnone ⟨path, n, hat, heq⟩
    omega
  have hroot := hpaths [] d rfl
  rw [List.length_nil] at hroot
  omega

end Derivation

end Sequitur
