import Sequitur.Formula.Group

/-!
# Sequitur.Proofs.Formula.Nesting

Nesting tokens by their parentheses, and writing nested items back.  A group
does not keep the place of the parenthesis that closes it, so what is written
back are the lexemes, with the offsets of all but the closing parentheses
(`Token.mark`).

* `collects`: collecting items comes to one of four ends, told apart by the
  tokens that have been read.  The induction is on the number of tokens: what
  is between two parentheses is shorter, and so is the rest behind them.
* `Nested.collected_append`: the tokens of an item are collected as this item.
* `nest_eq_ok_iff`: nesting and writing back are inverse to each other.
* `nest_isOk_iff`: nesting succeeds if and only if the parentheses balance.
-/

namespace Sequitur

/-! ## Balance -/

/-- The parentheses balance: at no point have more been closed than opened,
and at the end as many. -/
def Balanced (ls : List Lexeme) : Prop :=
  (∀ start, start <+: ls → start.count .rparen ≤ start.count .lparen) ∧
    ls.count .rparen = ls.count .lparen

/-- At some point more parentheses have been closed than opened. -/
def Overclosed (ls : List Lexeme) : Prop :=
  ∃ start, start <+: ls ∧ start.count .lparen < start.count .rparen

theorem balanced_iff {ls : List Lexeme} :
    Balanced ls ↔ ¬ Overclosed ls ∧ ls.count .rparen = ls.count .lparen := by
  simp only [Balanced, Overclosed, not_exists, not_and, Nat.not_lt]

theorem Balanced.not_overclosed {ls : List Lexeme} (h : Balanced ls) : ¬ Overclosed ls :=
  (balanced_iff.mp h).1

theorem not_overclosed_append {ls more : List Lexeme} (hls : ¬ Overclosed ls)
    (hmore : ¬ Overclosed more) : ¬ Overclosed (ls ++ more) := by
  rintro ⟨start, hstart, hlt⟩
  rcases List.prefix_or_prefix_of_prefix hstart (List.prefix_append ls more) with hle | ⟨tail, rfl⟩
  · exact hls ⟨start, hle, hlt⟩
  · -- all of the first part has been read, and it closes no more than it opens
    have hfirst : ls.count .rparen ≤ ls.count .lparen :=
      Nat.not_lt.mp fun hgt => hls ⟨ls, List.prefix_rfl, hgt⟩
    rw [List.count_append, List.count_append] at hlt
    exact hmore ⟨tail, (List.prefix_append_right_inj ls).mp hstart, by omega⟩

theorem not_overclosed_singleton {l : Lexeme} (h : l ≠ .rparen) : ¬ Overclosed [l] := by
  rintro ⟨start, hstart, hlt⟩
  have hle : start.count .rparen ≤ [l].count .rparen := hstart.sublist.count_le _
  have hnone : [l].count .rparen = 0 := List.count_eq_zero_of_not_mem (by simpa using Ne.symm h)
  omega

theorem not_overclosed_cons {l : Lexeme} {ls : List Lexeme} (h : l ≠ .rparen)
    (hls : ¬ Overclosed ls) : ¬ Overclosed (l :: ls) :=
  not_overclosed_append (not_overclosed_singleton h) hls

theorem Balanced.append {ls more : List Lexeme} (hls : Balanced ls) (hmore : Balanced more) :
    Balanced (ls ++ more) := by
  refine balanced_iff.mpr ⟨not_overclosed_append hls.not_overclosed hmore.not_overclosed, ?_⟩
  rw [List.count_append, List.count_append, hls.2, hmore.2]

theorem balanced_nil : Balanced [] := by simp [Balanced]

theorem balanced_singleton {l : Lexeme} (hopen : l ≠ .lparen) (hclose : l ≠ .rparen) :
    Balanced [l] := by
  refine balanced_iff.mpr ⟨not_overclosed_singleton hclose, ?_⟩
  simp [hopen, hclose]

/-- What balances between two parentheses balances with them. -/
theorem Balanced.group {ls : List Lexeme} (h : Balanced ls) :
    Balanced (.lparen :: ls ++ [.rparen]) := by
  have htotal : (Lexeme.lparen :: ls ++ [Lexeme.rparen]).count .rparen =
      (Lexeme.lparen :: ls ++ [Lexeme.rparen]).count .lparen := by
    simp [h.2]
  refine ⟨?_, htotal⟩
  intro start hstart
  rcases List.prefix_concat_iff.mp hstart with rfl | hstart
  · exact Nat.le_of_eq htotal
  · -- up to the closing parenthesis there is the opening one to spare
    have hopened := not_overclosed_cons (l := .lparen) (by simp) h.not_overclosed
    exact Nat.not_lt.mp fun hlt => hopened ⟨start, hstart, hlt⟩

/-- What follows an opening parenthesis without closing it leaves it open. -/
theorem not_balanced_of_unclosed {before after : List Lexeme} (hbefore : ¬ Overclosed before)
    (hafter : Balanced after) : ¬ Balanced (before ++ .lparen :: after) := by
  rintro ⟨-, htotal⟩
  have hle : before.count .rparen ≤ before.count .lparen :=
    Nat.not_lt.mp fun hgt => hbefore ⟨before, List.prefix_rfl, hgt⟩
  have hopen : (Lexeme.lparen :: after).count .lparen = after.count .lparen + 1 := by simp
  have hclose : (Lexeme.lparen :: after).count .rparen = after.count .rparen := by simp
  have heq := hafter.2
  rw [List.count_append, List.count_append] at htotal
  omega

/-- A closing parenthesis behind what balances closes nothing. -/
theorem Balanced.overclosed_rparen {before : List Lexeme} (h : Balanced before)
    (after : List Lexeme) : Overclosed (before ++ .rparen :: after) := by
  have hopen : (before ++ [Lexeme.rparen]).count .lparen = before.count .lparen := by simp
  have hclose : (before ++ [Lexeme.rparen]).count .rparen = before.count .rparen + 1 := by simp
  have htotal := h.2
  exact ⟨before ++ [.rparen], ⟨after, by simp⟩, by omega⟩

/-! ## Writing items back -/

/-- What nesting keeps of a token: its lexeme and, unless it is a closing
parenthesis, its offset. -/
def Token.mark (t : Token) : Lexeme × Option Nat :=
  (t.lexeme, if t.lexeme = .rparen then none else some t.offset)

theorem Token.eq_of_mark_eq {t u : Token} (h : t.mark = u.mark) (hclose : u.lexeme ≠ .rparen) :
    t = u := by
  obtain ⟨l, offset⟩ := t
  obtain ⟨l', offset'⟩ := u
  obtain rfl : l = l' := congrArg Prod.fst h
  have hoffset := congrArg Prod.snd h
  simp only [Token.mark, if_neg hclose, Option.some.injEq] at hoffset
  rw [hoffset]

namespace Item

mutual

/-- What is kept of the tokens of an item: a group is put between its
parentheses. -/
def marks : Item → List (Lexeme × Option Nat)
  | .token t => [t.mark]
  | .group opening items => (.lparen, some opening) :: marksOf items ++ [(.rparen, none)]

/-- What is kept of the tokens of a list of items. -/
def marksOf : List Item → List (Lexeme × Option Nat)
  | [] => []
  | item :: items => item.marks ++ marksOf items

end

/-- No parenthesis is left among the tokens of an item. -/
inductive Nested : Item → Prop where
  | token (t : Token) (hopen : t.lexeme ≠ .lparen) (hclose : t.lexeme ≠ .rparen) :
      Nested (.token t)
  | group (opening : Nat) (items : List Item) (h : ∀ item ∈ items, Nested item) :
      Nested (.group opening items)

theorem marksOf_append (items more : List Item) :
    marksOf (items ++ more) = marksOf items ++ marksOf more := by
  induction items with
  | nil => rfl
  | cons item items ih => rw [List.cons_append, marksOf, marksOf, ih, List.append_assoc]

/-- `Written items ts`: the items are those of the tokens, with no
parenthesis left among them. -/
structure Written (items : List Item) (ts : List Token) : Prop where
  marks : marksOf items = ts.map Token.mark
  nested : ∀ item ∈ items, item.Nested

namespace Written

theorem nil : Written [] [] := ⟨rfl, List.forall_mem_nil _⟩

theorem append {items more : List Item} {ts rest : List Token} (h : Written items ts)
    (hmore : Written more rest) : Written (items ++ more) (ts ++ rest) where
  marks := by rw [marksOf_append, h.marks, hmore.marks, List.map_append]
  nested := List.forall_mem_append.mpr ⟨h.nested, hmore.nested⟩

theorem token {t : Token} (hopen : t.lexeme ≠ .lparen) (hclose : t.lexeme ≠ .rparen) :
    Written [.token t] [t] where
  marks := rfl
  nested := List.forall_mem_singleton.mpr (.token t hopen hclose)

theorem group {items : List Item} {ts : List Token} (h : Written items ts)
    (opening closing : Nat) :
    Written [.group opening items] (⟨.lparen, opening⟩ :: ts ++ [⟨.rparen, closing⟩]) where
  marks := by
    rw [marksOf, marksOf, Item.marks, h.marks, List.append_nil, List.map_append]
    rfl
  nested := List.forall_mem_singleton.mpr (.group opening items h.nested)

/-- The lexemes of the tokens are those that are written back. -/
theorem map_lexeme {items : List Item} {ts : List Token} (h : Written items ts) :
    ts.map (·.lexeme) = (marksOf items).map (·.1) := by
  rw [h.marks, List.map_map]
  rfl

end Written

theorem balanced_marksOf {items : List Item}
    (h : ∀ item ∈ items, Balanced (item.marks.map (·.1))) :
    Balanced ((marksOf items).map (·.1)) := by
  induction items with
  | nil => exact balanced_nil
  | cons item items ih =>
      obtain ⟨hitem, hitems⟩ := List.forall_mem_cons.mp h
      rw [marksOf, List.map_append]
      exact hitem.append (ih hitems)

theorem Nested.balanced {item : Item} (h : item.Nested) : Balanced (item.marks.map (·.1)) := by
  induction h with
  | token t hopen hclose => exact balanced_singleton hopen hclose
  | group opening items _ ih =>
      rw [marks, List.map_append, List.map_cons]
      exact (balanced_marksOf ih).group

/-- The tokens of nested items balance. -/
theorem Written.balanced {items : List Item} {ts : List Token} (h : Written items ts) :
    Balanced (ts.map (·.lexeme)) := by
  rw [h.map_lexeme]
  exact balanced_marksOf fun item hitem => (h.nested item hitem).balanced

/-! ## One token at a time -/

theorem Found.map_widen {n m : Nat} (h : n ≤ m) (r : Except LexError (Found n)) :
    (Found.widen h r).map (·.val) = r.map (·.val) := by
  cases r <;> rfl

section

variable {opening : Option Nat} {done items : List Item} {ts : List Token} {k : Nat}

theorem collected_nil : collected opening done [] = .ok (done.reverse, []) := by
  rw [collected, collect.eq_def]
  rfl

theorem collected_rparen_none :
    collected none done (⟨.rparen, k⟩ :: ts) = .error ⟨k, .unopened⟩ := by
  rw [collected, collect.eq_def]
  rfl

theorem collected_rparen_some {o : Nat} :
    collected (some o) done (⟨.rparen, k⟩ :: ts) = .ok (done.reverse, ⟨.rparen, k⟩ :: ts) := by
  rw [collected, collect.eq_def]
  rfl

theorem collected_token {t : Token} (hopen : t.lexeme ≠ .lparen) (hclose : t.lexeme ≠ .rparen) :
    collected opening done (t :: ts) = collected opening (.token t :: done) ts := by
  obtain ⟨l, offset⟩ := t
  rw [collected, collected, collect.eq_def]
  cases l with
  | lparen => exact absurd rfl hopen
  | rparen => exact absurd rfl hclose
  | _ => exact Found.map_widen ..

theorem collect_eq_error {e : LexError} (h : collected opening done ts = .error e) :
    collect opening done ts = .error e := by
  rw [collected] at h
  cases hfound : collect opening done ts with
  | error e' =>
      rw [hfound] at h
      obtain rfl : e' = e := Except.error.inj h
      rfl
  | ok found => rw [hfound] at h; contradiction

theorem exists_collect_eq_ok {found : List Item × List Token}
    (h : collected opening done ts = .ok found) :
    ∃ hle, collect opening done ts = .ok ⟨found, hle⟩ := by
  rw [collected] at h
  cases hfound : collect opening done ts with
  | error e => rw [hfound] at h; contradiction
  | ok found' =>
      rw [hfound] at h
      obtain rfl : found'.val = found := Except.ok.inj h
      exact ⟨found'.property, rfl⟩

theorem collected_lparen_error {e : LexError} (h : collected (some k) [] ts = .error e) :
    collected opening done (⟨.lparen, k⟩ :: ts) = .error e := by
  rw [collected, collect.eq_def]
  simp only [collect_eq_error h]
  rfl

theorem collected_lparen_nil (h : collected (some k) [] ts = .ok (items, [])) :
    collected opening done (⟨.lparen, k⟩ :: ts) = .error ⟨k, .unclosed⟩ := by
  obtain ⟨hle, hinside⟩ := exists_collect_eq_ok h
  rw [collected, collect.eq_def]
  simp only [hinside]
  rfl

/-- Items are collected on behind a group that is closed. -/
theorem collected_lparen_cons {t : Token} {rest : List Token}
    (h : collected (some k) [] ts = .ok (items, t :: rest)) :
    collected opening done (⟨.lparen, k⟩ :: ts) =
      collected opening (.group k items :: done) rest := by
  obtain ⟨hle, hinside⟩ := exists_collect_eq_ok h
  rw [collected, collected, collect.eq_def]
  simp only [hinside]
  exact Found.map_widen ..

end

/-- A token opens a group, closes one or stands for itself. -/
theorem token_cases (t : Token) :
    t = ⟨.lparen, t.offset⟩ ∨ t = ⟨.rparen, t.offset⟩ ∨
      t.lexeme ≠ .lparen ∧ t.lexeme ≠ .rparen := by
  obtain ⟨l, offset⟩ := t
  cases l <;> simp

/-! ## Where collecting ends -/

/-- What collecting makes of tokens, behind the items `done`. -/
inductive Collects (opening : Option Nat) (done : List Item) (ts : List Token) :
    Except LexError (List Item × List Token) → Prop where
  /-- All tokens have been collected. -/
  | toEnd (items : List Item) (h : Written items ts) :
      Collects opening done ts (.ok (done.reverse ++ items, []))
  /-- A parenthesis is open, and a closing one has been reached. -/
  | toClosing (items : List Item) (inside : List Token) (closing : Nat) (after : List Token)
      (hopening : opening ≠ none) (h : Written items inside)
      (hts : ts = inside ++ ⟨.rparen, closing⟩ :: after) :
      Collects opening done ts (.ok (done.reverse ++ items, ⟨.rparen, closing⟩ :: after))
  /-- No parenthesis is open, and a closing one has been reached. -/
  | unopened (before : List Token) (closing : Nat) (after : List Token)
      (hopening : opening = none) (hbefore : Balanced (before.map (·.lexeme)))
      (hts : ts = before ++ ⟨.rparen, closing⟩ :: after) :
      Collects opening done ts (.error ⟨closing, .unopened⟩)
  /-- There is a parenthesis behind which all is closed that is opened, but not itself. -/
  | unclosed (before : List Token) (offset : Nat) (after : List Token)
      (hbefore : ¬ Overclosed (before.map (·.lexeme)))
      (hafter : Balanced (after.map (·.lexeme)))
      (hts : ts = before ++ ⟨.lparen, offset⟩ :: after) :
      Collects opening done ts (.error ⟨offset, .unclosed⟩)

/-- Tokens that are collected as items may be put in front. -/
theorem Collects.behind {opening : Option Nat} {done items : List Item} {first rest : List Token}
    {r : Except LexError (List Item × List Token)}
    (h : Collects opening (items.reverse ++ done) rest r) (hfirst : Written items first) :
    Collects opening done (first ++ rest) r := by
  have hreverse (more : List Item) :
      (items.reverse ++ done).reverse ++ more = done.reverse ++ (items ++ more) := by
    rw [List.reverse_append, List.reverse_reverse, List.append_assoc]
  cases h with
  | toEnd more hmore =>
      rw [hreverse]
      exact .toEnd _ (hfirst.append hmore)
  | toClosing more inside closing after hopening hmore hts =>
      rw [hreverse]
      exact .toClosing _ (first ++ inside) closing after hopening (hfirst.append hmore)
        (by rw [hts, List.append_assoc])
  | unopened before closing after hopening hbefore hts =>
      refine .unopened (first ++ before) closing after hopening ?_ (by rw [hts, List.append_assoc])
      rw [List.map_append]
      exact hfirst.balanced.append hbefore
  | unclosed before offset after hbefore hafter hts =>
      refine .unclosed (first ++ before) offset after ?_ hafter (by rw [hts, List.append_assoc])
      rw [List.map_append]
      exact not_overclosed_append hfirst.balanced.not_overclosed hbefore

/-- Behind an opening parenthesis, from how collecting ends inside of it and behind it. -/
theorem collects_lparen {opening : Option Nat} {done : List Item} {offset : Nat}
    {ts : List Token}
    (hinside : Collects (some offset) [] ts (collected (some offset) [] ts))
    (hbehind : ∀ items rest, rest.length < ts.length →
      Collects opening (.group offset items :: done) rest
        (collected opening (.group offset items :: done) rest)) :
    Collects opening done (⟨.lparen, offset⟩ :: ts)
      (collected opening done (⟨.lparen, offset⟩ :: ts)) := by
  generalize hr : collected (some offset) [] ts = r at hinside
  cases hinside with
  | toEnd items h =>
      rw [collected_lparen_nil hr]
      exact .unclosed [] offset ts balanced_nil.not_overclosed h.balanced rfl
  | toClosing items inside closing after _ h hts =>
      rw [List.reverse_nil, List.nil_append] at hr
      rw [collected_lparen_cons hr]
      have hrun := (hbehind items after (by simp [hts]; omega)).behind (h.group offset closing)
      simpa [hts] using hrun
  | unopened before closing after hopening _ hts => contradiction
  | unclosed before offset' after hbefore hafter hts =>
      rw [collected_lparen_error hr]
      refine .unclosed (⟨.lparen, offset⟩ :: before) offset' after ?_ hafter (by rw [hts]; rfl)
      exact not_overclosed_cons (by simp) hbefore

/-- **Collecting ends in one of four ways.** -/
theorem collects (opening : Option Nat) (done : List Item) (ts : List Token) :
    Collects opening done ts (collected opening done ts) := by
  induction hn : ts.length using Nat.strongRecOn generalizing opening done ts with
  | ind n ih =>
  subst hn
  cases ts with
  | nil =>
      rw [collected_nil, ← List.append_nil done.reverse]
      exact .toEnd [] .nil
  | cons t ts =>
      rcases token_cases t with ht | ht | ⟨hopen, hclose⟩
      · rw [ht]
        refine collects_lparen (ih _ (Nat.lt_succ_self _) _ _ _ rfl) ?_
        intro items rest hrest
        exact ih _ (Nat.lt_succ_of_lt hrest) _ _ _ rfl
      · rw [ht]
        cases opening with
        | none =>
            rw [collected_rparen_none]
            exact .unopened [] t.offset ts rfl balanced_nil rfl
        | some offset =>
            rw [collected_rparen_some, ← List.append_nil done.reverse]
            exact .toClosing [] [] t.offset ts (Option.some_ne_none _) .nil rfl
      · rw [collected_token hopen hclose]
        have hrun := ih _ (Nat.lt_succ_self _) opening (.token t :: done) ts rfl
        have htoken : Written [.token t] [t] := .token hopen hclose
        exact hrun.behind htoken

/-- **Nesting ends in one of three ways**: its result is written back as the
tokens; or what balances is followed by a closing parenthesis; or it follows
an opening one. -/
theorem nest_cases (ts : List Token) :
    (∃ items, Written items ts ∧ nest ts = .ok items) ∨
    (∃ before closing after, ts = before ++ ⟨.rparen, closing⟩ :: after ∧
      Balanced (before.map (·.lexeme)) ∧ nest ts = .error ⟨closing, .unopened⟩) ∨
    (∃ before opening after, ts = before ++ ⟨.lparen, opening⟩ :: after ∧
      ¬ Overclosed (before.map (·.lexeme)) ∧ Balanced (after.map (·.lexeme)) ∧
      nest ts = .error ⟨opening, .unclosed⟩) := by
  have hend := collects none [] ts
  generalize hr : collected none [] ts = r at hend
  have hnest : nest ts = r.map (·.1) := by rw [nest, hr]
  cases hend with
  | toEnd items h => exact .inl ⟨items, h, hnest⟩
  | toClosing items inside closing after hopening _ _ => contradiction
  | unopened before closing after _ hbefore hts =>
      exact .inr (.inl ⟨before, closing, after, hts, hbefore, hnest⟩)
  | unclosed before opening after hbefore hafter hts =>
      exact .inr (.inr ⟨before, opening, after, hts, hbefore, hafter, hnest⟩)

/-! ## Nesting undoes writing back -/

/-- If the tokens of each item are collected as the item, then the tokens of
all are collected as all of them. -/
theorem collected_append_of_forall {items : List Item} {opening : Option Nat}
    (h : ∀ item ∈ items, ∀ ts, item.marks = ts.map Token.mark → ∀ done rest,
      collected opening done (ts ++ rest) = collected opening (item :: done) rest)
    {ts : List Token} (hts : marksOf items = ts.map Token.mark) (done : List Item)
    (rest : List Token) :
    collected opening done (ts ++ rest) = collected opening (items.reverse ++ done) rest := by
  induction items generalizing ts done with
  | nil =>
      obtain rfl : ts = [] := List.map_eq_nil_iff.mp hts.symm
      rfl
  | cons item items ih =>
      obtain ⟨hitem, hitems⟩ := List.forall_mem_cons.mp h
      rw [marksOf] at hts
      obtain ⟨first, more, rfl, hfirst, hmore⟩ := List.map_eq_append_iff.mp hts.symm
      rw [List.append_assoc, hitem first hfirst.symm, ih hitems hmore.symm, List.reverse_cons,
        List.append_assoc, List.singleton_append]

/-- Tokens between two parentheses, by what is kept of them. -/
theorem exists_of_map_mark_eq_group {ts : List Token} {opening : Nat}
    {inside : List (Lexeme × Option Nat)}
    (h : ts.map Token.mark = (.lparen, some opening) :: inside ++ [(.rparen, none)]) :
    ∃ us closing, ts = ⟨.lparen, opening⟩ :: us ++ [⟨.rparen, closing⟩] ∧
      inside = us.map Token.mark := by
  obtain ⟨first, last, rfl, hfirst, hlast⟩ := List.map_eq_append_iff.mp h
  obtain ⟨t, us, rfl, ht, hus⟩ := List.map_eq_cons_iff.mp hfirst
  obtain ⟨u, rest, rfl, hu, hrest⟩ := List.map_eq_cons_iff.mp hlast
  obtain rfl := List.map_eq_nil_iff.mp hrest
  obtain rfl : t = ⟨.lparen, opening⟩ := Token.eq_of_mark_eq ht (by simp)
  obtain ⟨l, closing⟩ := u
  obtain rfl : l = .rparen := congrArg Prod.fst hu
  exact ⟨us, closing, rfl, hus.symm⟩

theorem Nested.collected_append {item : Item} (h : item.Nested) {ts : List Token}
    (hts : item.marks = ts.map Token.mark) (opening : Option Nat) (done : List Item)
    (rest : List Token) :
    collected opening done (ts ++ rest) = collected opening (item :: done) rest := by
  induction h generalizing opening done ts rest with
  | token t hopen hclose =>
      obtain ⟨u, more, rfl, hu, hmore⟩ := List.map_eq_cons_iff.mp hts.symm
      obtain rfl := List.map_eq_nil_iff.mp hmore
      obtain rfl : u = t := Token.eq_of_mark_eq hu hclose
      exact collected_token hopen hclose
  | group offset items _ ih =>
      rw [marks] at hts
      obtain ⟨us, closing, rfl, hus⟩ := exists_of_map_mark_eq_group hts.symm
      -- inside the group the items collected start afresh
      have hitems := collected_append_of_forall
        (fun item hitem ts hts done rest => ih item hitem hts (some offset) done rest) hus []
        (⟨.rparen, closing⟩ :: rest)
      rw [List.append_nil, collected_rparen_some, List.reverse_reverse] at hitems
      rw [List.append_assoc, List.cons_append, List.singleton_append]
      exact collected_lparen_cons hitems

/-- **Nesting undoes writing back.** -/
theorem Written.nest_eq {items : List Item} {ts : List Token} (h : Written items ts) :
    nest ts = .ok items := by
  have hread := collected_append_of_forall
    (fun item hitem _ hts => (h.nested item hitem).collected_append hts none) h.marks [] []
  rw [List.append_nil, List.append_nil, collected_nil, List.reverse_reverse] at hread
  rw [nest, hread]
  rfl

/-- **Nesting and writing back are inverse to each other**, on items in which no parenthesis
is left. -/
theorem nest_eq_ok_iff {ts : List Token} {items : List Item} :
    nest ts = .ok items ↔ Written items ts := by
  refine ⟨?_, Written.nest_eq⟩
  intro h
  rcases nest_cases ts with ⟨items', hwritten, hnest⟩ | ⟨_, _, _, _, _, hnest⟩ |
    ⟨_, _, _, _, _, _, hnest⟩
  · obtain rfl : items' = items := Except.ok.inj (hnest.symm.trans h)
    exact hwritten
  · exact absurd (h.symm.trans hnest) (by simp)
  · exact absurd (h.symm.trans hnest) (by simp)

/-! ## When nesting succeeds -/

/-- **Nesting succeeds if and only if the parentheses balance.** -/
theorem nest_isOk_iff {ts : List Token} :
    (∃ items, nest ts = .ok items) ↔ Balanced (ts.map (·.lexeme)) := by
  constructor
  · rintro ⟨items, h⟩
    exact (nest_eq_ok_iff.mp h).balanced
  · intro h
    rcases nest_cases ts with ⟨items, _, hnest⟩ | ⟨before, closing, after, hts, hbefore, _⟩ |
      ⟨before, opening, after, hts, hbefore, hafter, _⟩
    · exact ⟨items, hnest⟩
    · rw [hts, List.map_append] at h
      exact absurd (hbefore.overclosed_rparen _) h.not_overclosed
    · rw [hts, List.map_append] at h
      exact absurd h (not_balanced_of_unclosed hbefore hafter)

end Item

end Sequitur
