import Mathlib

/-!
# Trees with labelled leaves

A tree of any width whose leaves carry values and whose inner nodes carry
labels, edited by paths of child indices. Every edit is described by what it
does to the list of leaves, so that a property of the leaves is a property of a
list.
-/

namespace Orqara

open List

universe u v

/-- A tree whose leaves carry `α` and whose inner nodes carry `γ`. -/
inductive SplitTree (γ : Type u) (α : Type v)
  | leaf (a : α)
  | node (g : γ) (children : List (SplitTree γ α))

namespace SplitTree

variable {γ : Type u} {α : Type v} {β : Type v}

/-- Induction with the hypothesis for every child. -/
@[elab_as_elim, induction_eliminator]
theorem childInduction {motive : SplitTree γ α → Prop} (leaf : ∀ a, motive (leaf a))
    (node : ∀ g children, (∀ child ∈ children, motive child) → motive (node g children)) :
    ∀ tree, motive tree
  | .leaf a => leaf a
  | .node g children => node g children fun child _ => childInduction leaf node child

mutual
/-- The leaves, from left to right. -/
def leaves : SplitTree γ α → List α
  | leaf a => [a]
  | node _ children => leavesAll children

/-- The leaves of several trees. -/
def leavesAll : List (SplitTree γ α) → List α
  | [] => []
  | child :: children => leaves child ++ leavesAll children
end

mutual
/-- The number of levels. -/
def depth : SplitTree γ α → ℕ
  | leaf _ => 1
  | node _ children => 1 + depthAll children

/-- The largest depth among several trees. -/
def depthAll : List (SplitTree γ α) → ℕ
  | [] => 0
  | child :: children => max (depth child) (depthAll children)
end

mutual
/-- The path of the first leaf with the property. -/
def findPath (p : α → Bool) : SplitTree γ α → Option (List ℕ)
  | leaf a => if p a then some [] else none
  | node _ children => findPathIn p 0 children

/-- The search among children, the first of which has the given index. -/
def findPathIn (p : α → Bool) : ℕ → List (SplitTree γ α) → Option (List ℕ)
  | _, [] => none
  | i, child :: children =>
    match findPath p child with
    | some path => some (i :: path)
    | none => findPathIn p (i + 1) children
end

mutual
/-- The tree with every leaf rewritten. -/
def mapLeaves (f : α → α) : SplitTree γ α → SplitTree γ α
  | leaf a => leaf (f a)
  | node g children => node g (mapLeavesAll f children)

/-- Several trees with every leaf rewritten. -/
def mapLeavesAll (f : α → α) : List (SplitTree γ α) → List (SplitTree γ α)
  | [] => []
  | child :: children => mapLeaves f child :: mapLeavesAll f children
end

/-- The subtree at a path. -/
def getAt : SplitTree γ α → List ℕ → Option (SplitTree γ α)
  | tree, [] => some tree
  | leaf _, _ :: _ => none
  | node _ children, i :: path =>
    match children[i]? with
    | some child => getAt child path
    | none => none

/-- The tree with the subtree at a path rewritten. -/
def replaceAt (f : SplitTree γ α → SplitTree γ α) : SplitTree γ α → List ℕ → SplitTree γ α
  | tree, [] => f tree
  | leaf a, _ :: _ => leaf a
  | node g children, i :: path => node g (children.modify i fun child => replaceAt f child path)

/-- A node after an edit of its children: with one child left it is that child. -/
def collapse (g : γ) : List (SplitTree γ α) → SplitTree γ α
  | [child] => child
  | children => node g children

/-- The tree without the subtree at a path, which is not the root. -/
def removeAt (tree : SplitTree γ α) (path : List ℕ) : SplitTree γ α :=
  replaceAt (fun parent =>
    match parent, path.getLast? with
    | node g children, some i => collapse g (children.eraseIdx i)
    | other, _ => other) tree path.dropLast

/-- The leaves to the left of a path. -/
def before : SplitTree γ α → List ℕ → List α
  | _, [] => []
  | leaf _, _ :: _ => []
  | node _ children, i :: path =>
    leavesAll (children.take i) ++
      match children[i]? with
      | some child => before child path
      | none => []

/-- The leaves to the right of a path. -/
def after : SplitTree γ α → List ℕ → List α
  | _, [] => []
  | leaf _, _ :: _ => []
  | node _ children, i :: path =>
    (match children[i]? with
      | some child => after child path
      | none => []) ++ leavesAll (children.drop (i + 1))

/-! ## Leaves -/

@[simp] theorem leaves_leaf (a : α) : (leaf a : SplitTree γ α).leaves = [a] := by
  simp [leaves]

@[simp] theorem leaves_node (g : γ) (children : List (SplitTree γ α)) :
    (node g children).leaves = leavesAll children := by
  simp [leaves]

@[simp] theorem leavesAll_nil : leavesAll ([] : List (SplitTree γ α)) = [] := by
  simp [leavesAll]

@[simp] theorem leavesAll_cons (child : SplitTree γ α) (children : List (SplitTree γ α)) :
    leavesAll (child :: children) = child.leaves ++ leavesAll children := by
  simp [leavesAll]

@[simp] theorem leavesAll_append (xs ys : List (SplitTree γ α)) :
    leavesAll (xs ++ ys) = leavesAll xs ++ leavesAll ys := by
  induction xs with
  | nil => simp
  | cons x xs ih => simp [ih]

theorem mem_leavesAll {children : List (SplitTree γ α)} {a : α} :
    a ∈ leavesAll children ↔ ∃ child ∈ children, a ∈ child.leaves := by
  induction children with
  | nil => simp
  | cons child children ih => simp [ih]

@[simp] theorem leaves_collapse (g : γ) (children : List (SplitTree γ α)) :
    (collapse g children).leaves = leavesAll children := by
  unfold collapse
  split <;> simp

variable {i : ℕ} {path : List ℕ}

theorem leavesAll_drop {children : List (SplitTree γ α)} {child : SplitTree γ α}
    (h : children[i]? = some child) :
    leavesAll (children.drop i) = child.leaves ++ leavesAll (children.drop (i + 1)) := by
  obtain ⟨hi, rfl⟩ := List.getElem?_eq_some_iff.mp h
  rw [drop_eq_getElem_cons hi, leavesAll_cons]

theorem leavesAll_take (children : List (SplitTree γ α)) (i : ℕ) :
    leavesAll children = leavesAll (children.take i) ++ leavesAll (children.drop i) := by
  rw [← leavesAll_append, take_append_drop]

theorem leavesAll_take_succ {children : List (SplitTree γ α)} {child : SplitTree γ α}
    (h : children[i]? = some child) :
    leavesAll (children.take (i + 1)) = leavesAll (children.take i) ++ child.leaves := by
  rw [take_add_one, h, leavesAll_append]
  simp

/-- The children around an index. -/
theorem leavesAll_around {children : List (SplitTree γ α)} {child : SplitTree γ α}
    (h : children[i]? = some child) :
    leavesAll children =
      leavesAll (children.take i) ++ child.leaves ++ leavesAll (children.drop (i + 1)) := by
  rw [leavesAll_take children i, leavesAll_drop h, append_assoc]

theorem leavesAll_modify {children : List (SplitTree γ α)} {child : SplitTree γ α}
    (h : children[i]? = some child) (f : SplitTree γ α → SplitTree γ α) :
    leavesAll (children.modify i f) =
      leavesAll (children.take i) ++ (f child).leaves ++ leavesAll (children.drop (i + 1)) := by
  obtain ⟨hi, rfl⟩ := List.getElem?_eq_some_iff.mp h
  rw [modify_eq_take_cons_drop hi]
  simp

theorem leavesAll_eraseIdx (children : List (SplitTree γ α)) (i : ℕ) :
    leavesAll (children.eraseIdx i) =
      leavesAll (children.take i) ++ leavesAll (children.drop (i + 1)) := by
  rw [eraseIdx_eq_take_drop_succ, leavesAll_append]

theorem leavesAll_insertIdx {children : List (SplitTree γ α)} (hi : i ≤ children.length)
    (child : SplitTree γ α) :
    leavesAll (children.insertIdx i child) =
      leavesAll (children.take i) ++ child.leaves ++ leavesAll (children.drop i) := by
  induction i generalizing children with
  | zero => simp
  | succ i ih =>
    cases children with
    | nil => simp at hi
    | cons first rest => simp [ih (show i ≤ rest.length by simpa using hi)]

@[simp] theorem mapLeavesAll_eq (f : α → α) (children : List (SplitTree γ α)) :
    mapLeavesAll f children = children.map (mapLeaves f) := by
  induction children with
  | nil => simp [mapLeavesAll]
  | cons child children ih => simp [mapLeavesAll, ih]

/-- A map that changes no leaf changes nothing. -/
theorem mapLeaves_of_fixed {f : α → α} {tree : SplitTree γ α} (h : ∀ a ∈ tree.leaves, f a = a) :
    tree.mapLeaves f = tree := by
  induction tree with
  | leaf a => simpa [mapLeaves] using h
  | node g children ih =>
    have hall : children.map (mapLeaves f) = children.map id := by
      apply map_congr_left
      intro child hchild
      apply ih child hchild
      intro a ha
      exact h a (by rw [leaves_node, mem_leavesAll]; exact ⟨child, hchild, ha⟩)
    rw [mapLeaves, mapLeavesAll_eq, hall, List.map_id]

/-! ## Paths -/

theorem leaves_getAt {tree n : SplitTree γ α} (h : tree.getAt path = some n) :
    tree.leaves = tree.before path ++ n.leaves ++ tree.after path := by
  induction path generalizing tree with
  | nil => simp_all [getAt, before, after]
  | cons i path ih =>
    cases tree with
    | leaf a => simp [getAt] at h
    | node g children =>
      cases hc : children[i]? with
      | none => simp [getAt, hc] at h
      | some child =>
        have hn : child.getAt path = some n := by simpa [getAt, hc] using h
        rw [leaves_node, leavesAll_around hc, ih hn]
        simp [before, after, hc]

theorem leaves_replaceAt {tree n : SplitTree γ α} (h : tree.getAt path = some n)
    (f : SplitTree γ α → SplitTree γ α) :
    (tree.replaceAt f path).leaves = tree.before path ++ (f n).leaves ++ tree.after path := by
  induction path generalizing tree with
  | nil => simp_all [getAt, replaceAt, before, after]
  | cons i path ih =>
    cases tree with
    | leaf a => simp [getAt] at h
    | node g children =>
      cases hc : children[i]? with
      | none => simp [getAt, hc] at h
      | some child =>
        have hn : child.getAt path = some n := by simpa [getAt, hc] using h
        rw [replaceAt, leaves_node, leavesAll_modify hc, ih hn]
        simp [before, after, hc]

section

variable (tree : SplitTree γ α)

/-- Two edits at one path are one. -/
theorem replaceAt_replaceAt (path : List ℕ) (f f' : SplitTree γ α → SplitTree γ α) :
    (tree.replaceAt f path).replaceAt f' path = tree.replaceAt (f' ∘ f) path := by
  induction path generalizing tree with
  | nil => simp [replaceAt]
  | cons i path ih =>
    cases tree with
    | leaf a => simp [replaceAt]
    | node g children =>
      simp only [replaceAt, modify_modify_eq]
      congr 2
      funext child
      exact ih child

theorem replaceAt_concat (path : List ℕ) (i : ℕ) (f : SplitTree γ α → SplitTree γ α) :
    tree.replaceAt f (path ++ [i]) = tree.replaceAt (replaceAt f · [i]) path := by
  induction path generalizing tree with
  | nil => simp [replaceAt]
  | cons k path ih =>
    cases tree with
    | leaf a => simp [replaceAt]
    | node g children =>
      simp only [cons_append, replaceAt]
      congr 2
      funext child
      exact ih child

/-- What is removed need not be rewritten first. -/
theorem removeAt_replaceAt (path : List ℕ) (i : ℕ) (f : SplitTree γ α → SplitTree γ α) :
    (tree.replaceAt f (path ++ [i])).removeAt (path ++ [i]) = tree.removeAt (path ++ [i]) := by
  simp only [removeAt, dropLast_concat, getLast?_concat]
  rw [replaceAt_concat, replaceAt_replaceAt]
  congr 1
  funext parent
  cases parent with
  | leaf a => rfl
  | node g children => simp only [Function.comp, replaceAt, eraseIdx_modify_of_eq]

end

/-- What stands one step further down a path. -/
theorem getAt_concat {tree n : SplitTree γ α} :
    tree.getAt (path ++ [i]) = some n ↔
      ∃ g children, tree.getAt path = some (node g children) ∧ children[i]? = some n := by
  induction path generalizing tree with
  | nil =>
    cases tree with
    | leaf a => simp [getAt]
    | node g children =>
      cases hc : children[i]? <;> simp [getAt, hc]
  | cons k path ih =>
    cases tree with
    | leaf a => simp [getAt]
    | node g children =>
      cases hc : children[k]? with
      | none => simp [getAt, hc]
      | some child => simpa [getAt, hc] using ih

theorem before_concat {tree : SplitTree γ α} {g : γ} {children : List (SplitTree γ α)}
    (h : tree.getAt path = some (node g children)) (i : ℕ) :
    tree.before (path ++ [i]) = tree.before path ++ leavesAll (children.take i) := by
  induction path generalizing tree with
  | nil =>
    obtain rfl : tree = node g children := by simpa [getAt] using h
    cases hc : children[i]? <;> simp [before, hc]
  | cons k path ih =>
    cases tree with
    | leaf a => simp [getAt] at h
    | node g' children' =>
      cases hc : children'[k]? with
      | none => simp [getAt, hc] at h
      | some child =>
        have hn : child.getAt path = some (node g children) := by simpa [getAt, hc] using h
        simp [before, hc, ih hn]

theorem after_concat {tree : SplitTree γ α} {g : γ} {children : List (SplitTree γ α)}
    (h : tree.getAt path = some (node g children)) (i : ℕ) :
    tree.after (path ++ [i]) = leavesAll (children.drop (i + 1)) ++ tree.after path := by
  induction path generalizing tree with
  | nil =>
    obtain rfl : tree = node g children := by simpa [getAt] using h
    cases hc : children[i]? <;> simp [after, hc]
  | cons k path ih =>
    cases tree with
    | leaf a => simp [getAt] at h
    | node g' children' =>
      cases hc : children'[k]? with
      | none => simp [getAt, hc] at h
      | some child =>
        have hn : child.getAt path = some (node g children) := by simpa [getAt, hc] using h
        simp [after, hc, ih hn]

/-- Removing a subtree below the root removes its leaves and nothing else. -/
theorem leaves_removeAt {tree n : SplitTree γ α} (h : tree.getAt (path ++ [i]) = some n) :
    (tree.removeAt (path ++ [i])).leaves =
      tree.before (path ++ [i]) ++ tree.after (path ++ [i]) := by
  obtain ⟨g, children, hp, hi⟩ := getAt_concat.mp h
  rw [removeAt, dropLast_concat, leaves_replaceAt hp, before_concat hp, after_concat hp]
  simp [leavesAll_eraseIdx]

/-- Inserting a child beside the one at the end of a path. -/
theorem leaves_insertAt {tree n : SplitTree γ α} {g : γ} {children : List (SplitTree γ α)}
    (hp : tree.getAt path = some (node g children)) (hi : children[i]? = some n) (later : Bool)
    (child : SplitTree γ α) :
    (tree.replaceAt (fun _ => node g (children.insertIdx (if later then i + 1 else i) child))
        path).leaves =
      tree.before (path ++ [i]) ++
        (if later then n.leaves ++ child.leaves else child.leaves ++ n.leaves) ++
        tree.after (path ++ [i]) := by
  have hlt : i < children.length := (List.getElem?_eq_some_iff.mp hi).1
  rw [leaves_replaceAt hp, before_concat hp, after_concat hp, leaves_node]
  cases later with
  | false =>
    simp only [Bool.false_eq_true, if_false]
    rw [leavesAll_insertIdx (by omega), leavesAll_drop hi]
    simp only [append_assoc]
  | true =>
    simp only [if_true]
    rw [leavesAll_insertIdx (by omega), leavesAll_take_succ hi]
    simp only [append_assoc]

/-! ## Search -/

theorem findPathIn_some {p : α → Bool} {children : List (SplitTree γ α)}
    (h : findPathIn p i children = some path) :
    ∃ k child rest, path = (i + k) :: rest ∧ children[k]? = some child ∧
      child.findPath p = some rest ∧ ∀ other ∈ children.take k, other.findPath p = none := by
  induction children generalizing i with
  | nil => simp [findPathIn] at h
  | cons child children ih =>
    rw [findPathIn] at h
    cases hc : child.findPath p with
    | some rest =>
      rw [hc] at h
      exact ⟨0, child, rest, by simpa using h.symm, rfl, hc, by simp⟩
    | none =>
      rw [hc] at h
      obtain ⟨k, found, rest, hpath, hk, hrest, hprev⟩ := ih h
      refine ⟨k + 1, found, rest, by rw [hpath]; congr 1; omega, by simpa using hk, hrest, ?_⟩
      intro other hother
      rw [take_succ_cons, mem_cons] at hother
      rcases hother with rfl | hother
      · exact hc
      · exact hprev other hother

theorem findPathIn_none {p : α → Bool} {children : List (SplitTree γ α)} :
    findPathIn p i children = none ↔ ∀ child ∈ children, child.findPath p = none := by
  induction children generalizing i with
  | nil => simp [findPathIn]
  | cons child children ih =>
    rw [findPathIn]
    cases hc : child.findPath p <;> simp [hc, ih]

theorem findPath_none {p : α → Bool} {tree : SplitTree γ α} :
    tree.findPath p = none ↔ ∀ a ∈ tree.leaves, p a = false := by
  induction tree with
  | leaf a => simp [findPath]
  | node g children ih =>
    rw [findPath, findPathIn_none, leaves_node]
    simp only [mem_leavesAll]
    constructor
    · rintro h a ⟨child, hchild, ha⟩
      exact (ih child hchild).mp (h child hchild) a ha
    · intro h child hchild
      exact (ih child hchild).mpr fun a ha => h a ⟨child, hchild, ha⟩

/-- The search finds the first leaf with the property. -/
theorem findPath_some {p : α → Bool} {tree : SplitTree γ α} (h : tree.findPath p = some path) :
    ∃ a, tree.getAt path = some (leaf a) ∧ p a = true ∧ ∀ b ∈ tree.before path, p b = false := by
  induction tree generalizing path with
  | leaf a =>
    by_cases ha : p a
    · obtain rfl : path = [] := by simpa [findPath, ha, eq_comm] using h
      exact ⟨a, rfl, ha, by simp [before]⟩
    · simp [findPath, ha] at h
  | node g children ih =>
    rw [findPath] at h
    obtain ⟨k, child, rest, rfl, hk, hrest, hprev⟩ := findPathIn_some h
    have hmem : child ∈ children := mem_of_getElem? hk
    obtain ⟨a, hget, ha, hbefore⟩ := ih child hmem hrest
    refine ⟨a, by simp [getAt, hk, hget], ha, ?_⟩
    intro b hb
    simp only [Nat.zero_add, before, hk, mem_append, mem_leavesAll] at hb
    rcases hb with ⟨other, hother, hb⟩ | hb
    · exact findPath_none.mp (hprev other hother) b hb
    · exact hbefore b hb

/-- The search agrees with the search in the list of leaves. -/
theorem find?_leaves {p : α → Bool} {tree : SplitTree γ α} {a : α} (hp : tree.findPath p = some path)
    (ha : tree.getAt path = some (leaf a)) :
    tree.leaves.find? p = some a := by
  obtain ⟨b, hb, hpb, hbefore⟩ := findPath_some hp
  obtain rfl : a = b := by simpa [ha] using hb
  rw [leaves_getAt ha, append_assoc, find?_append]
  have hnone : (tree.before path).find? p = none := by
    simpa using hbefore
  simp [hnone, hpb]

/-! ## Trees without thin nodes -/

/-- Every inner node has a label with the property and at least two children. -/
inductive Full (P : γ → Prop) : SplitTree γ α → Prop
  | leaf (a : α) : Full P (leaf a)
  | node {g : γ} {children : List (SplitTree γ α)} (label : P g) (wide : 2 ≤ children.length)
      (all : ∀ child ∈ children, Full P child) : Full P (node g children)

variable {P : γ → Prop}

theorem Full.leaves_ne_nil {tree : SplitTree γ α} (h : Full P tree) : tree.leaves ≠ [] := by
  induction tree with
  | leaf a => simp
  | node g children ih =>
    cases h with
    | node _ wide all =>
      cases children with
      | nil => simp at wide
      | cons child children => simp [ih child (by simp) (all child (by simp))]

theorem Full.getAt {tree n : SplitTree γ α} (h : Full P tree) (hn : tree.getAt path = some n) :
    Full P n := by
  induction path generalizing tree with
  | nil =>
    obtain rfl : tree = n := by simpa [SplitTree.getAt] using hn
    exact h
  | cons i path ih =>
    cases h with
    | leaf a => simp [SplitTree.getAt] at hn
    | @node g children _ _ all =>
      cases hc : children[i]? with
      | none => simp [SplitTree.getAt, hc] at hn
      | some child =>
        have hn' : child.getAt path = some n := by simpa [SplitTree.getAt, hc] using hn
        exact ih (all child (mem_of_getElem? hc)) hn'

theorem Full.replaceAt {tree n : SplitTree γ α} (h : Full P tree) (hn : tree.getAt path = some n)
    {f : SplitTree γ α → SplitTree γ α} (hf : Full P (f n)) :
    Full P (tree.replaceAt f path) := by
  induction path generalizing tree with
  | nil =>
    obtain rfl : tree = n := by simpa [SplitTree.getAt] using hn
    exact hf
  | cons i path ih =>
    cases h with
    | leaf a => simp [SplitTree.getAt] at hn
    | @node g children label wide all =>
      cases hc : children[i]? with
      | none => simp [SplitTree.getAt, hc] at hn
      | some child =>
        have hn' : child.getAt path = some n := by simpa [SplitTree.getAt, hc] using hn
        apply Full.node label (by simpa using wide)
        intro other hother
        obtain ⟨k, hk, rfl⟩ := mem_iff_getElem.mp hother
        rw [getElem_modify]
        split
        · rename_i heq
          subst heq
          obtain ⟨_, rfl⟩ := List.getElem?_eq_some_iff.mp hc
          exact ih (all _ (getElem_mem _)) hn'
        · exact all _ (getElem_mem _)

theorem Full.collapse {g : γ} {children : List (SplitTree γ α)} (label : P g)
    (nonempty : children ≠ []) (all : ∀ child ∈ children, Full P child) :
    Full P (collapse g children) := by
  match children, nonempty, all with
  | [child], _, all => exact all child (by simp)
  | a :: b :: rest, _, all => exact Full.node label (by simp) all

theorem Full.removeAt {tree n : SplitTree γ α} (h : Full P tree) (hn : tree.getAt (path ++ [i]) = some n) :
    Full P (tree.removeAt (path ++ [i])) := by
  obtain ⟨g, children, hp, hi⟩ := getAt_concat.mp hn
  rw [SplitTree.removeAt, dropLast_concat]
  apply h.replaceAt hp
  cases h.getAt hp with
  | node label wide all =>
    obtain ⟨hlt, _⟩ := List.getElem?_eq_some_iff.mp hi
    simp only [getLast?_concat]
    apply Full.collapse label
    · intro hnil
      have := congrArg List.length hnil
      rw [length_eraseIdx_of_lt hlt] at this
      simp at this
      omega
    · intro child hchild
      exact all child (mem_of_mem_eraseIdx hchild)

theorem Full.insertAt {tree child : SplitTree γ α} {g : γ} {children : List (SplitTree γ α)}
    (h : Full P tree) (hp : tree.getAt path = some (SplitTree.node g children)) (i : ℕ)
    (hchild : Full P child) :
    Full P (tree.replaceAt (fun _ => SplitTree.node g (children.insertIdx i child)) path) := by
  apply h.replaceAt hp
  cases h.getAt hp with
  | node label wide all =>
    apply Full.node label
    · exact wide.trans (length_le_length_insertIdx)
    · intro other hother
      rcases eq_or_mem_of_mem_insertIdx hother with rfl | hother
      · exact hchild
      · exact all other hother

end SplitTree

end Orqara
