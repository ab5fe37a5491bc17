import Mathlib.Logic.Relation
import TruthTables.Forest.Dot
import TruthTables.Proofs.Forest.Nodes

set_option autoImplicit false

/-! # Unfolding the graph of a forest

What is drawn of a forest is a graph: labels of nodes, numbered from zero, and labelled edges between the
numbers (`Forest.dot_eq`). The trees are no longer in it. They can be read off all the same: from a box the
only edge leads to a node, from there the edges lead to the children in their order, and the labels tell the
symbols and operators apart (`Graph.Unfolds`). As every edge between nodes leads to a smaller number, this
comes to an end, and it gives the tree that was drawn and no other. -/

namespace TruthTables

/-- Labelled nodes, numbered from zero, and labelled edges between them. -/
structure Graph where
  labels : List String
  edges : List Forest.Edge

namespace Graph

/-- The labels and targets of the edges that leave a node, in order. -/
def leaving (g : Graph) (n : Nat) : List (String × Nat) :=
  (g.edges.filter fun edge => edge.source = n).map fun edge => (edge.label, edge.target)

/-- There is an edge between the nodes. -/
def Leads (g : Graph) (m n : Nat) : Prop :=
  ∃ label, (label, n) ∈ g.leaving m

/-- The tree that is read off the labels and edges from a node on, over a symbol set. -/
inductive Unfolds (g : Graph) (set : SymbolSet) : Nat → Expr → Prop
  | var {n : Nat} {s : Symbol} (hlabel : g.labels[n]? = some s.name.toString)
      (hs : s ∈ set.symbols) (hedges : g.leaving n = []) : Unfolds g set n (.var s)
  | not {n m : Nat} {e : Expr} (hlabel : g.labels[n]? = some Operator.not.char.toString)
      (hedges : g.leaving n = [("", m)]) (he : Unfolds g set m e) : Unfolds g set n (.not e)
  | binary {n i j : Nat} {c : Connective} {l r : Expr}
      (hlabel : g.labels[n]? = some c.char.toString)
      (hedges : g.leaving n = [("L", i), ("R", j)]) (hl : Unfolds g set i l)
      (hr : Unfolds g set j r) : Unfolds g set n (.binary c l r)

/-- The line of a node in the dot language. The nodes from `boxes` on are drawn as boxes. -/
def nodeLine (boxes : Nat) (label : String) (n : Nat) : String :=
  Forest.statement (Forest.nodeName n ++ Forest.setting "label" label
    ++ if n < boxes then "" else Forest.setting "shape" "box")

/-- The graph in the dot language. -/
def dot (g : Graph) (boxes : Nat) : String :=
  let nodes := g.labels.zipIdx.map fun (label, n) => nodeLine boxes label n
  let edges := g.edges.map fun edge =>
    Forest.statement (Forest.nodeName edge.source ++ " -> " ++ Forest.nodeName edge.target
      ++ Forest.setting "label" edge.label)
  "digraph parse_forest \x7b\n" ++ String.join nodes ++ String.join edges ++ "\x7d\n"

section

variable {g : Graph} {set : SymbolSet} {n : Nat}

/-- A label that is a single character has no other one. -/
theorem char_of_label {c d : Char} (hc : g.labels[n]? = some c.toString)
    (hd : g.labels[n]? = some d.toString) : c = d :=
  String.singleton_inj.1 (Option.some.inj (hc.symm.trans hd))

/-- No two trees can be read off the same node. -/
theorem Unfolds.unique {e e' : Expr} (h : g.Unfolds set n e) (h' : g.Unfolds set n e') : e = e' := by
  induction h generalizing e' with
  | var hlabel hs hedges =>
      cases h' with
      | var hlabel' hs' _ =>
          have hget := SymbolSet.get?_name hs
          rw [char_of_label hlabel hlabel', SymbolSet.get?_name hs'] at hget
          exact congrArg Expr.var (Option.some.inj hget).symm
      | not _ hedges' _ => exact absurd (hedges.symm.trans hedges') (by simp)
      | binary _ hedges' _ _ => exact absurd (hedges.symm.trans hedges') (by simp)
  | not hlabel hedges _ ih =>
      cases h' with
      | var _ _ hedges' => exact absurd (hedges.symm.trans hedges') (by simp)
      | not _ hedges' he' =>
          cases hedges.symm.trans hedges'
          exact congrArg Expr.not (ih he')
      | binary _ hedges' _ _ => exact absurd (hedges.symm.trans hedges') (by simp)
  | binary hlabel hedges _ _ ihl ihr =>
      cases h' with
      | var _ _ hedges' => exact absurd (hedges.symm.trans hedges') (by simp)
      | not _ hedges' _ => exact absurd (hedges.symm.trans hedges') (by simp)
      | binary hlabel' hedges' hl' hr' =>
          cases hedges.symm.trans hedges'
          rw [Connective.char_inj (char_of_label hlabel hlabel'), ihl hl', ihr hr']

end

end Graph

namespace Forest

open TruthTables.Expr

/-! ## What is drawn -/

/-- The graph of a forest: its nodes with the signs of their topmost places, then a box for each root. -/
def graph (f : Forest) : Graph where
  labels := f.nodes.map Expr.label ++ f.roots.map Prod.fst
  edges := f.edges

/-- The lines of nodes and boxes. -/
theorem nodeLines_eq (f : Forest) :
    (f.graph.labels.zipIdx.map fun (label, n) => Graph.nodeLine f.nodes.length label n) =
      (f.nodes.zipIdx.map fun (e, i) => statement (nodeName i ++ setting "label" e.label)) ++
        f.roots.zipIdx.map fun (root, i) =>
          statement (nodeName (f.box i) ++ setting "label" root.1 ++ setting "shape" "box") := by
  rw [graph, List.zipIdx_append, List.length_map, List.map_append, List.zipIdx_map, List.zipIdx_map,
    List.zipIdx_eq_map_add (i := 0 + f.nodes.length), List.map_map, List.map_map, List.map_map]
  congr 1
  · refine List.map_congr_left fun (e, i) he => ?_
    have hi : i < 0 + f.nodes.length := (List.mem_zipIdx he).2.1
    rw [Nat.zero_add] at hi
    show Graph.nodeLine _ e.label i = _
    rw [Graph.nodeLine, if_pos hi, String.append_empty]
  · refine List.map_congr_left fun (root, i) _ => ?_
    show Graph.nodeLine _ root.1 (0 + f.nodes.length + i) = _
    rw [Graph.nodeLine, if_neg (by omega), Nat.zero_add]
    rfl

/-- A forest is drawn as its graph. -/
theorem dot_eq (f : Forest) : f.dot = f.graph.dot f.nodes.length := by
  have hlines := congrArg String.join (nodeLines_eq f)
  unfold dot Graph.dot
  extract_lets nodes boxes edges lines edges'
  have hedges : edges' = edges := rfl
  have hjoin : String.join lines = String.join nodes ++ String.join boxes :=
    hlines.trans String.join_append
  have hassoc (a : String) :
      a ++ (String.join nodes ++ String.join boxes) = a ++ String.join nodes ++ String.join boxes :=
    String.append_assoc.symm
  rw [hjoin, hedges, hassoc]

/-! ## Edges -/

/-- The edges that leave the members of a list, of which the first has the number `first`. -/
def edgesFrom {α : Type} (out : α → List (String × Nat)) (first : Nat) (list : List α) : List Edge :=
  (list.zipIdx first).flatMap fun (a, source) =>
    (out a).map fun (label, target) => { source, label, target }

section

variable {α : Type} {out : α → List (String × Nat)} {first : Nat} {list : List α}

theorem mem_edgesFrom_iff {edge : Edge} : edge ∈ edgesFrom out first list ↔
    first ≤ edge.source ∧ ∃ a, list[edge.source - first]? = some a ∧
      (edge.label, edge.target) ∈ out a := by
  simp only [edgesFrom, List.mem_flatMap, List.mem_map, Prod.exists]
  constructor
  · rintro ⟨a, n, ha, label, target, hout, rfl⟩
    obtain ⟨hle, hget⟩ := List.mk_mem_zipIdx_iff_le_and_getElem?_sub.1 ha
    exact ⟨hle, a, hget, hout⟩
  · rintro ⟨hle, a, hget, hout⟩
    exact ⟨a, edge.source, List.mk_mem_zipIdx_iff_le_and_getElem?_sub.2 ⟨hle, hget⟩, edge.label,
      edge.target, hout, rfl⟩

/-- The edges that leave one member are those listed for it. -/
theorem leaving_edgesFrom (n : Nat) :
    ((edgesFrom out first list).filter fun edge => edge.source = n).map
        (fun edge => (edge.label, edge.target)) =
      if first ≤ n then (list[n - first]?.map out).getD [] else [] := by
  induction list generalizing first with
  | nil => simp [edgesFrom]
  | cons a list ih =>
      have hcons : edgesFrom out first (a :: list) =
          ((out a).map fun (label, target) => ⟨first, label, target⟩) ++
            edgesFrom out (first + 1) list := rfl
      have hhead : (((out a).map fun (label, target) => (⟨first, label, target⟩ : Edge)).filter
          fun edge => edge.source = n).map (fun edge => (edge.label, edge.target)) =
            if first = n then out a else [] := by
        rw [List.filter_map, List.map_map]
        by_cases h : first = n <;> simp [h, Function.comp_def]
      rw [hcons, List.filter_append, List.map_append, ih, hhead]
      rcases Nat.lt_trichotomy first n with hlt | rfl | hgt
      · have hsucc : n - first = n - (first + 1) + 1 := by omega
        rw [if_neg (Nat.ne_of_lt hlt), if_pos (Nat.succ_le_of_lt hlt), if_pos (Nat.le_of_lt hlt), hsucc,
          List.getElem?_cons_succ, List.nil_append]
      · simp
      · rw [if_neg (Nat.ne_of_gt hgt), if_neg (by omega), if_neg (by omega), List.nil_append]

end

/-- What an edge from a node or a box leads to. -/
theorem edges_eq (f : Forest) : f.edges =
    edgesFrom (fun e : Expr => e.branches.map fun (label, c) => (label, f.position c)) 0 f.nodes ++
      edgesFrom (fun root : String × Expr => [("", f.position root.2)]) f.nodes.length f.roots := by
  have hnodes : (fun (e, source) => f.childEdges source e : Expr × Nat → List Edge) =
      fun (e, source) => (e.branches.map fun (label, c) => (label, f.position c)).map
        fun (label, target) => ⟨source, label, target⟩ := by
    funext ⟨e, source⟩
    cases e <;> rfl
  rw [edges, edgesFrom, edgesFrom, hnodes, List.zipIdx_eq_map_add (i := f.nodes.length),
    List.flatMap_map, List.map_eq_flatMap]
  rfl

theorem leaving_node {f : Forest} {n : Nat} {e : Expr} (he : f.nodes[n]? = some e) :
    f.graph.leaving n = e.branches.map fun (label, c) => (label, f.position c) := by
  have hn := (List.getElem?_eq_some_iff.1 he).1
  rw [Graph.leaving, graph, edges_eq, List.filter_append, List.map_append, leaving_edgesFrom,
    leaving_edgesFrom, if_pos (Nat.zero_le n), Nat.sub_zero, he, if_neg (Nat.not_le_of_lt hn),
    List.append_nil]
  rfl

theorem leaving_box {f : Forest} {i : Nat} {root : String × Expr} (hroot : f.roots[i]? = some root) :
    f.graph.leaving (f.box i) = [("", f.position root.2)] := by
  have hbehind : f.nodes.length ≤ f.box i := Nat.le_add_right ..
  have hfrom : f.box i - f.nodes.length = i := Nat.add_sub_cancel_left ..
  rw [Graph.leaving, graph, edges_eq, List.filter_append, List.map_append, leaving_edgesFrom,
    leaving_edgesFrom, if_pos (Nat.zero_le _), Nat.sub_zero, List.getElem?_eq_none hbehind,
    if_pos hbehind, hfrom, hroot]
  rfl

/-! ## Reading the trees back -/

theorem label_node {f : Forest} {n : Nat} {e : Expr} (he : f.nodes[n]? = some e) :
    f.graph.labels[n]? = some e.label := by
  have hn : n < (f.nodes.map Expr.label).length := by
    rw [List.length_map]
    exact (List.getElem?_eq_some_iff.1 he).1
  rw [graph, List.getElem?_append_left hn, List.getElem?_map, he]
  rfl

theorem label_box {f : Forest} {i : Nat} {root : String × Expr} (hroot : f.roots[i]? = some root) :
    f.graph.labels[f.box i]? = some root.1 := by
  have hbehind : (f.nodes.map Expr.label).length ≤ f.box i := by
    rw [List.length_map]
    exact Nat.le_add_right ..
  have hfrom : f.box i - (f.nodes.map Expr.label).length = i := by
    rw [List.length_map]
    exact Nat.add_sub_cancel_left ..
  rw [graph, List.getElem?_append_right hbehind, hfrom, List.getElem?_map, hroot]
  rfl

section

variable {set : SymbolSet} {trees : List (String × Expr)} (h : ∀ tree ∈ trees, tree.2.Over set)
include h

/-- The children of a node are nodes. -/
theorem getElem?_position_child {n : Nat} {e c : Expr} (he : (ofTrees trees).nodes[n]? = some e)
    (hc : c ∈ e.children) : (ofTrees trees).nodes[(ofTrees trees).position c]? = some c := by
  obtain ⟨tree, htree, hsub⟩ := (mem_nodes_iff h).1 (List.mem_of_getElem? he)
  exact getElem?_position h ((mem_nodes_iff h).2 ⟨tree, htree, (Subtree.child hc .refl).trans hsub⟩)

/-- From a node its own tree is read off. -/
theorem unfolds_of_getElem? {n : Nat} {e : Expr} (he : (ofTrees trees).nodes[n]? = some e) :
    (ofTrees trees).graph.Unfolds set n e := by
  induction e generalizing n with
  | var s =>
      have hover := over_of_mem_nodes h (List.mem_of_getElem? he)
      exact .var (label_node he) (hover s (List.mem_singleton_self s)) (leaving_node he)
  | not e ih =>
      have hchild := getElem?_position_child h he (List.mem_singleton_self e)
      exact .not (label_node he) (leaving_node he) (ih hchild)
  | binary c l r ihl ihr =>
      have hleft := getElem?_position_child h he (List.mem_cons_self ..)
      have hright := getElem?_position_child h he (List.mem_cons_of_mem _ (List.mem_singleton_self r))
      exact .binary (label_node he) (leaving_node he) (ihl hleft) (ihr hright)

/-- Edges lead from a tree to all of its subtrees. -/
theorem leads_to_subtree {a e : Expr} (hsub : Subtree a e) (he : e ∈ (ofTrees trees).nodes) :
    Relation.ReflTransGen (ofTrees trees).graph.Leads ((ofTrees trees).position e)
      ((ofTrees trees).position a) := by
  induction hsub with
  | refl => exact .refl
  | @child c e hchild _ ih =>
      have hget := getElem?_position h he
      have hnode := List.mem_of_getElem? (getElem?_position_child h hget hchild)
      obtain ⟨⟨label, c⟩, hbranch, rfl⟩ := List.mem_map.1 hchild
      have hedge : (label, (ofTrees trees).position c) ∈
          (ofTrees trees).graph.leaving ((ofTrees trees).position e) := by
        rw [leaving_node hget]
        exact List.mem_map.2 ⟨(label, c), hbranch, rfl⟩
      exact .head ⟨label, hedge⟩ (ih hnode)

end

/-! ## Pictures -/

/-- A forest is a picture of labelled trees over a symbol set. Its nodes are the subtrees of the trees, each
    one once, and each is found. From a node lead the edges to its children in their order, from a box one
    edge to the node of its tree, and there are no others. Every node can be reached from a box, and what
    is read off from a box is its tree. -/
structure Pictures (set : SymbolSet) (trees : List (String × Expr)) (f : Forest) : Prop where
  nodup : f.nodes.Nodup
  mem_iff (e : Expr) : e ∈ f.nodes ↔ ∃ tree ∈ trees, Subtree e tree.2
  found : ∀ tree ∈ trees, ∀ e, Subtree e tree.2 → f.nodes[f.position e]? = some e
  children (n : Nat) (e : Expr) : f.nodes[n]? = some e →
    (f.graph.leaving n).map (fun (label, m) => (label, f.nodes[m]?)) =
      e.branches.map fun (label, c) => (label, some c)
  descending : ∀ n < f.nodes.length, ∀ branch ∈ f.graph.leaving n, branch.2 < n
  sources : ∀ edge ∈ f.edges, edge.source < f.nodes.length + trees.length
  boxes (i : Nat) (tree : String × Expr) : trees[i]? = some tree →
    f.graph.labels[f.nodes.length + i]? = some tree.1 ∧
      ∃ m, f.graph.leaving (f.nodes.length + i) = [("", m)] ∧ f.nodes[m]? = some tree.2 ∧
        ∀ e, f.graph.Unfolds set m e ↔ e = tree.2
  reachable : ∀ n < f.nodes.length, ∃ i < trees.length,
    Relation.ReflTransGen f.graph.Leads (f.nodes.length + i) n

/-- A forest is a picture of its trees. -/
theorem ofTrees_pictures {set : SymbolSet} {trees : List (String × Expr)}
    (h : ∀ tree ∈ trees, tree.2.Over set) : Pictures set trees (ofTrees trees) where
  nodup := nodup_nodes h
  mem_iff _ := mem_nodes_iff h
  found tree htree e hsub := getElem?_position h ((mem_nodes_iff h).2 ⟨tree, htree, hsub⟩)
  children n e he := by
    rw [leaving_node he, List.map_map]
    refine List.map_congr_left fun (label, c) hbranch => ?_
    have hc : c ∈ e.children := List.mem_map.2 ⟨(label, c), hbranch, rfl⟩
    exact congrArg (Prod.mk label) (getElem?_position_child h he hc)
  descending n hn branch hbranch := by
    have he := List.getElem?_eq_getElem hn
    rw [leaving_node he] at hbranch
    obtain ⟨⟨label, c⟩, hmem, rfl⟩ := List.mem_map.1 hbranch
    exact position_child_lt h he (List.mem_map.2 ⟨(label, c), hmem, rfl⟩)
  sources edge hedge := by
    rw [edges_eq] at hedge
    rcases List.mem_append.1 hedge with hnode | hbox
    · obtain ⟨_, e, he, _⟩ := mem_edgesFrom_iff.1 hnode
      have hlt := (List.getElem?_eq_some_iff.1 he).1
      omega
    · obtain ⟨_, root, hroot, _⟩ := mem_edgesFrom_iff.1 hbox
      have hlt : _ < trees.length := (List.getElem?_eq_some_iff.1 hroot).1
      omega
  boxes i tree htree := by
    have hroot : (ofTrees trees).roots[i]? = some tree := htree
    have hmem : tree.2 ∈ (ofTrees trees).nodes :=
      (mem_nodes_iff h).2 ⟨tree, List.mem_of_getElem? htree, .refl⟩
    have hget := getElem?_position h hmem
    have hunfolds := unfolds_of_getElem? h hget
    exact ⟨label_box hroot, _, leaving_box hroot, hget,
      fun e => ⟨fun he => he.unique hunfolds, fun heq => heq ▸ hunfolds⟩⟩
  reachable n hn := by
    obtain ⟨tree, htree, hsub⟩ := (mem_nodes_iff h).1 (List.getElem_mem hn)
    obtain ⟨i, hi, hget⟩ := List.mem_iff_getElem.1 htree
    have hroot : (ofTrees trees).roots[i]? = some tree := List.getElem?_eq_some_iff.2 ⟨hi, hget⟩
    have hbox : (ofTrees trees).graph.Leads ((ofTrees trees).box i)
        ((ofTrees trees).position tree.2) := by
      refine ⟨"", ?_⟩
      rw [leaving_box hroot]
      exact List.mem_singleton_self _
    have hpath := leads_to_subtree h hsub ((mem_nodes_iff h).2 ⟨tree, htree, .refl⟩)
    rw [position_of_getElem? h (List.getElem?_eq_getElem hn)] at hpath
    exact ⟨i, hi, .head hbox hpath⟩

/-- An implication and its negation share four nodes, and the box of the implication has an edge into the
    middle of the other tree. -/
theorem ofTrees_pictures_shared :
    let implication : Expr := .binary .implies (.var ⟨'p', 0⟩) (.var ⟨'q', 1⟩)
    let trees := [("~(p > q)", .not implication), ("p > q", implication)]
    (ofTrees trees).edges =
      [⟨2, "L", 0⟩, ⟨2, "R", 1⟩, ⟨3, "", 2⟩, ⟨4, "", 3⟩, ⟨5, "", 2⟩] ∧
    ∃ set, SymbolSet.ofList ["p", "q"] = .ok set ∧ Pictures set trees (ofTrees trees) := by
  intro implication trees
  have hover : ∀ set : SymbolSet, ⟨'p', 0⟩ ∈ set.symbols → ⟨'q', 1⟩ ∈ set.symbols →
      ∀ tree ∈ trees, tree.2.Over set := by
    intro set hp hq tree htree s hs
    have hpq : s = ⟨'p', 0⟩ ∨ s = ⟨'q', 1⟩ := by
      rcases List.mem_cons.1 htree with rfl | htree
      · simpa [implication, symbols] using hs
      · cases List.mem_singleton.1 htree
        simpa [implication, symbols] using hs
    rcases hpq with rfl | rfl
    · exact hp
    · exact hq
  exact ⟨by decide, _, rfl, ofTrees_pictures
    (hover _ (SymbolSet.mem_symbols_iff.2 rfl) (SymbolSet.mem_symbols_iff.2 rfl))⟩

end Forest

end TruthTables
