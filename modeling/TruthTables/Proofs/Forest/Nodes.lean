import Mathlib.Data.List.Nodup
import TruthTables.Forest
import TruthTables.Proofs.Assignment.Values
import TruthTables.Proofs.Postfix.Machine

set_option autoImplicit false

/-! # The nodes of a forest

A forest goes through the subtrees of its trees in post-order and keeps each where it occurs first. Over one
symbol set, to coincide is to be equal, so the nodes are the subtrees without repetition. That a node comes
behind its children is clear as long as there is one tree. It stays so for many, and when repetitions are
left out, because no more is asked of a node than that its children occur somewhere before it
(`ChildrenFirst`): a subtree that is left out has occurred, and a tree needs nothing from the trees in front
of it. -/

namespace TruthTables

namespace Expr

/-! ## Subtrees -/

/-- The trees right below the topmost node, with the labels of the edges that lead to them. -/
def branches : Expr → List (String × Expr)
  | .var _ => []
  | .not e => [("", e)]
  | .binary _ l r => [("L", l), ("R", r)]

/-- The trees right below the topmost node. -/
def children (e : Expr) : List Expr :=
  e.branches.map Prod.snd

/-- A tree is a subtree of itself and of whatever one of its parents is a subtree of. -/
inductive Subtree (a : Expr) : Expr → Prop
  | refl : Subtree a a
  | child {c e : Expr} (hchild : c ∈ e.children) (h : Subtree a c) : Subtree a e

theorem Subtree.trans {a b e : Expr} (h : Subtree a b) (h' : Subtree b e) : Subtree a e := by
  induction h' with
  | refl => exact h
  | child hchild _ ih => exact .child hchild ih

theorem mem_subtrees_iff {a e : Expr} : a ∈ e.subtrees ↔ Subtree a e := by
  constructor
  · intro h
    induction e with
    | var s =>
        cases List.mem_singleton.1 h
        exact .refl
    | not e ih =>
        rcases List.mem_append.1 h with h | h
        · exact .child (List.mem_singleton_self e) (ih h)
        · cases List.mem_singleton.1 h
          exact .refl
    | binary c l r ihl ihr =>
        rcases List.mem_append.1 h with h | h
        · rcases List.mem_append.1 h with h | h
          · exact .child (List.mem_cons_self ..) (ihl h)
          · exact .child (List.mem_cons_of_mem _ (List.mem_singleton_self r)) (ihr h)
        · cases List.mem_singleton.1 h
          exact .refl
  · intro h
    induction h with
    | refl => exact self_mem_subtrees a
    | @child c e hchild _ ih =>
        cases e with
        | var s => exact absurd hchild (by simp [children, branches])
        | not e =>
            cases List.mem_singleton.1 hchild
            exact List.mem_append_left _ ih
        | binary c l r =>
            rcases List.mem_cons.1 hchild with rfl | hchild
            · exact List.mem_append_left _ (List.mem_append_left _ ih)
            · cases List.mem_singleton.1 hchild
              exact List.mem_append_left _ (List.mem_append_right _ ih)

/-! ## Trees over a symbol set -/

/-- The symbols of a tree belong to a set. -/
def Over (set : SymbolSet) (e : Expr) : Prop :=
  ∀ s ∈ e.symbols, s ∈ set.symbols

section

variable {set : SymbolSet}

theorem Over.child {c e : Expr} (h : e.Over set) (hchild : c ∈ e.children) : c.Over set := by
  cases e with
  | var s => exact absurd hchild (by simp [children, branches])
  | not e =>
      cases List.mem_singleton.1 hchild
      exact h
  | binary c l r =>
      rcases List.mem_cons.1 hchild with rfl | hchild
      · exact fun s hs => h s (List.mem_append_left _ hs)
      · cases List.mem_singleton.1 hchild
        exact fun s hs => h s (List.mem_append_right _ hs)

theorem Over.subtree {a e : Expr} (h : e.Over set) (hsub : Subtree a e) : a.Over set := by
  induction hsub with
  | refl => exact h
  | child hchild _ ih => exact ih (h.child hchild)

/-- Over one symbol set, trees that coincide are equal, for no two symbols share a position. -/
theorem coincides_iff_eq {a b : Expr} (ha : a.Over set) (hb : b.Over set) :
    a.coincides b = true ↔ a = b := by
  refine ⟨fun h => ?_, fun h => h ▸ a.coincides_refl⟩
  induction a generalizing b with
  | var s =>
      cases b with
      | var t =>
          have hposition : s.position = t.position := by simpa [coincides, Symbol.coincides] using h
          have hs := SymbolSet.getElem?_symbols_of_mem (ha s (List.mem_singleton_self s))
          have ht := SymbolSet.getElem?_symbols_of_mem (hb t (List.mem_singleton_self t))
          rw [hposition, ht] at hs
          exact congrArg var (Option.some.inj hs).symm
      | not b => exact absurd h (by simp [coincides])
      | binary c l r => exact absurd h (by simp [coincides])
  | not a ih =>
      cases b with
      | var t => exact absurd h (by simp [coincides])
      | not b => exact congrArg not (ih ha hb h)
      | binary c l r => exact absurd h (by simp [coincides])
  | binary c l r ihl ihr =>
      cases b with
      | var t => exact absurd h (by simp [coincides])
      | not b => exact absurd h (by simp [coincides])
      | binary c' l' r' =>
          simp only [coincides, Bool.and_eq_true, beq_iff_eq] at h
          obtain ⟨⟨rfl, hl⟩, hr⟩ := h
          have heql : l = l' := ihl (fun s hs => ha s (List.mem_append_left _ hs))
            (fun s hs => hb s (List.mem_append_left _ hs)) hl
          have heqr : r = r' := ihr (fun s hs => ha s (List.mem_append_right _ hs))
            (fun s hs => hb s (List.mem_append_right _ hs)) hr
          rw [heql, heqr]

end

end Expr

namespace Forest

open TruthTables.Expr

/-! ## Children in front -/

/-- Every child of a listed tree is listed before it or is one of the trees before the list. -/
def ChildrenFirst (before : List Expr) : List Expr → Prop
  | [] => True
  | e :: rest => (∀ c ∈ e.children, c ∈ before) ∧ ChildrenFirst (e :: before) rest

namespace ChildrenFirst

variable {before list rest : List Expr}

theorem mono {before' : List Expr} (h : ChildrenFirst before list) (hsub : before ⊆ before') :
    ChildrenFirst before' list := by
  induction list generalizing before before' with
  | nil => trivial
  | cons e list ih =>
      exact ⟨fun c hc => hsub (h.1 c hc), ih h.2 (List.cons_subset_cons e hsub)⟩

theorem append (h : ChildrenFirst before list) (hrest : ChildrenFirst (list ++ before) rest) :
    ChildrenFirst before (list ++ rest) := by
  induction list generalizing before with
  | nil => exact hrest
  | cons e list ih =>
      exact ⟨h.1, ih h.2 (hrest.mono List.perm_middle.symm.subset)⟩

/-- A tree may follow once its children are listed. -/
theorem concat {e : Expr} (h : ChildrenFirst before list) (he : ∀ c ∈ e.children, c ∈ list) :
    ChildrenFirst before (list ++ [e]) :=
  h.append ⟨fun c hc => List.mem_append_left _ (he c hc), trivial⟩

theorem subtrees (e : Expr) (before : List Expr) : ChildrenFirst before e.subtrees := by
  induction e generalizing before with
  | var s => exact ⟨by simp [children, branches], trivial⟩
  | not e ih =>
      refine (ih before).concat fun c hc => ?_
      cases List.mem_singleton.1 hc
      exact self_mem_subtrees e
  | binary c l r ihl ihr =>
      refine ((ihl before).append (ihr _)).concat fun c hc => ?_
      rcases List.mem_cons.1 hc with rfl | hc
      · exact List.mem_append_left _ (self_mem_subtrees _)
      · cases List.mem_singleton.1 hc
        exact List.mem_append_right _ (self_mem_subtrees r)

theorem flatMap_subtrees (trees : List (String × Expr)) (before : List Expr) :
    ChildrenFirst before (trees.flatMap fun tree => tree.2.subtrees) := by
  induction trees generalizing before with
  | nil => trivial
  | cons tree trees ih => exact (subtrees tree.2 before).append (ih _)

/-- The place where a child is listed comes before that of its parent. -/
theorem exists_getElem? {n : Nat} {e c : Expr} (h : ChildrenFirst before list)
    (he : list[n]? = some e) (hc : c ∈ e.children) :
    c ∈ before ∨ ∃ m < n, list[m]? = some c := by
  induction list generalizing before n with
  | nil => exact absurd he (by simp)
  | cons e' list ih =>
      cases n with
      | zero =>
          cases Option.some.inj he
          exact Or.inl (h.1 c hc)
      | succ n =>
          rcases ih h.2 he with hbefore | ⟨m, hm, hlist⟩
          · rcases List.mem_cons.1 hbefore with rfl | hbefore
            · exact Or.inr ⟨0, Nat.succ_pos n, rfl⟩
            · exact Or.inl hbefore
          · exact Or.inr ⟨m + 1, Nat.succ_lt_succ hm, hlist⟩

end ChildrenFirst

/-! ## Leaving out repetitions -/

section

variable {set : SymbolSet} {seen list : List Expr}

theorem any_coincides_iff {e : Expr} (he : e.Over set) (hseen : ∀ a ∈ seen, a.Over set) :
    seen.any e.coincides = true ↔ e ∈ seen := by
  rw [List.any_eq_true]
  constructor
  · rintro ⟨a, ha, h⟩
    rwa [(coincides_iff_eq he (hseen a ha)).1 h]
  · intro h
    exact ⟨e, h, e.coincides_refl⟩

variable (hlist : ∀ a ∈ list, a.Over set) (hseen : ∀ a ∈ seen, a.Over set)
include hlist hseen

theorem mem_distinct_iff {e : Expr} : e ∈ distinct seen list ↔ e ∈ list ∧ e ∉ seen := by
  induction list generalizing seen with
  | nil => simp [distinct]
  | cons a list ih =>
      obtain ⟨ha, hlist⟩ := List.forall_mem_cons.1 hlist
      have hany := any_coincides_iff ha hseen
      rw [distinct]
      by_cases h : a ∈ seen
      · rw [if_pos (hany.2 h), ih hlist hseen, List.mem_cons]
        constructor
        · exact fun ⟨hmem, hnew⟩ => ⟨Or.inr hmem, hnew⟩
        · rintro ⟨rfl | hmem, hnew⟩
          · exact absurd h hnew
          · exact ⟨hmem, hnew⟩
      · rw [if_neg (mt hany.1 h), List.mem_cons, ih hlist (List.forall_mem_cons.2 ⟨ha, hseen⟩),
          List.mem_cons, List.mem_cons]
        by_cases heq : e = a
        · simp [heq, h]
        · simp [heq]

theorem nodup_distinct : (distinct seen list).Nodup := by
  induction list generalizing seen with
  | nil => exact .nil
  | cons a list ih =>
      obtain ⟨ha, hlist⟩ := List.forall_mem_cons.1 hlist
      have hseen' := List.forall_mem_cons.2 ⟨ha, hseen⟩
      rw [distinct]
      split
      · exact ih hlist hseen
      · refine List.nodup_cons.2 ⟨fun hmem => ?_, ih hlist hseen'⟩
        exact ((mem_distinct_iff hlist hseen').1 hmem).2 (List.mem_cons_self ..)

/-- What is left out has been seen, so nothing that follows misses it. -/
theorem ChildrenFirst.distinct (h : ChildrenFirst seen list) :
    ChildrenFirst seen (distinct seen list) := by
  induction list generalizing seen with
  | nil => trivial
  | cons a list ih =>
      obtain ⟨ha, hlist⟩ := List.forall_mem_cons.1 hlist
      rw [Forest.distinct]
      split
      · next hany =>
          have hmem := (any_coincides_iff ha hseen).1 hany
          exact ih hlist hseen (h.2.mono (List.cons_subset.2 ⟨hmem, List.Subset.refl seen⟩))
      · exact ⟨h.1, ih hlist (List.forall_mem_cons.2 ⟨ha, hseen⟩) h.2⟩

end

/-! ## The nodes of a forest -/

section

variable {set : SymbolSet} {trees : List (String × Expr)} (h : ∀ tree ∈ trees, tree.2.Over set)
include h

theorem over_of_mem_subtrees :
    ∀ a ∈ trees.flatMap fun tree => tree.2.subtrees, a.Over set := by
  intro a ha
  obtain ⟨tree, htree, hmem⟩ := List.mem_flatMap.1 ha
  exact (h tree htree).subtree (mem_subtrees_iff.1 hmem)

/-- The nodes are the subtrees of the trees. -/
theorem mem_nodes_iff {e : Expr} :
    e ∈ (ofTrees trees).nodes ↔ ∃ tree ∈ trees, Subtree e tree.2 := by
  show e ∈ distinct [] _ ↔ _
  rw [mem_distinct_iff (over_of_mem_subtrees h) (by simp), List.mem_flatMap]
  simp [mem_subtrees_iff]

theorem nodup_nodes : (ofTrees trees).nodes.Nodup :=
  nodup_distinct (over_of_mem_subtrees h) (by simp)

theorem over_of_mem_nodes {e : Expr} (he : e ∈ (ofTrees trees).nodes) : e.Over set := by
  obtain ⟨tree, htree, hsub⟩ := (mem_nodes_iff h).1 he
  exact (h tree htree).subtree hsub

/-- A node is found at its position. -/
theorem getElem?_position {e : Expr} (he : e ∈ (ofTrees trees).nodes) :
    (ofTrees trees).nodes[(ofTrees trees).position e]? = some e := by
  have hlt : (ofTrees trees).position e < (ofTrees trees).nodes.length :=
    List.findIdx_lt_length_of_exists ⟨e, he, e.coincides_refl⟩
  have hfound : e.coincides (ofTrees trees).nodes[(ofTrees trees).position e] = true :=
    List.findIdx_getElem
  rw [List.getElem?_eq_getElem hlt,
    ← (coincides_iff_eq (over_of_mem_nodes h he) (over_of_mem_nodes h (List.getElem_mem hlt))).1 hfound]

/-- The number of a node is its position. -/
theorem position_of_getElem? {n : Nat} {e : Expr} (he : (ofTrees trees).nodes[n]? = some e) :
    (ofTrees trees).position e = n := by
  have hmem := List.mem_of_getElem? he
  have hlt := (List.getElem?_eq_some_iff.1 he).1
  exact ((List.getElem?_inj hlt (nodup_nodes h)).1 (he.trans (getElem?_position h hmem).symm)).symm

/-- The children of a node have smaller numbers. -/
theorem position_child_lt {n : Nat} {e c : Expr} (he : (ofTrees trees).nodes[n]? = some e)
    (hc : c ∈ e.children) : (ofTrees trees).position c < n := by
  have hfirst : ChildrenFirst [] (ofTrees trees).nodes :=
    .distinct (over_of_mem_subtrees h) (by simp) (.flatMap_subtrees trees [])
  rcases hfirst.exists_getElem? he hc with hnil | ⟨m, hm, hmem⟩
  · exact absurd hnil (by simp)
  · rwa [position_of_getElem? h hmem]

end

end Forest

end TruthTables
