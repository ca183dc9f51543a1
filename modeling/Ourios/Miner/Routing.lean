/-
# Reads and writes take the same route

A write (`descend_mut`) decides edge by edge whether a token gets a branch of its own or
shares the wildcard branch of a full node; a read (`descend`) has to come to the same
decision later, when the tree has grown. Branches are only added, and none is added to a
full node but the wildcard, so the decision never changes.

Nodes are compared by their place, the length bucket and the edges that lead to them: two
nodes with the same leaves are still two nodes.
-/

import Ourios.Miner.Tree

namespace Ourios.Miner

open Ourios.Foundation

namespace PrefixNode

/-- The children a token of its own leads to. -/
def ownKeys (node : PrefixNode) : List Text := node.children.keys.filter (· ≠ wildcardText)

/-- The edges a read follows. -/
def readRoute (maxNodeChildren : Nat) : PrefixNode → List Text → Option (List Text)
  | _, [] => some []
  | node, head :: tail =>
    match node.children.find? head with
    | some child => (readRoute maxNodeChildren child tail).map (head :: ·)
    | none =>
      if maxNodeChildren ≤ node.keyedChildren then
        match node.children.find? wildcardText with
        | some child => (readRoute maxNodeChildren child tail).map (wildcardText :: ·)
        | none => none
      else none

section Edges

variable (maxNodeChildren : Nat)

variable {node : PrefixNode} {head : Text}

theorem edgeFor_of_mem (h : head ∈ node.children.keys) :
    edgeFor maxNodeChildren node head = head := if_pos h

theorem edgeFor_of_full (h : head ∉ node.children.keys)
    (hfull : maxNodeChildren ≤ node.keyedChildren) :
    edgeFor maxNodeChildren node head = wildcardText := by
  rw [edgeFor, if_neg h, if_pos hfull]

theorem edgeFor_of_room (h : head ∉ node.children.keys)
    (hroom : ¬ maxNodeChildren ≤ node.keyedChildren) :
    edgeFor maxNodeChildren node head = head := by
  rw [edgeFor, if_neg h, if_neg hroom]

/-- A read follows the edge a write takes, if there is a child. -/
theorem readRoute_cons (node : PrefixNode) (head : Text) (tail : List Text) :
    readRoute maxNodeChildren node (head :: tail) =
      (node.children.find? (edgeFor maxNodeChildren node head)).bind fun child =>
        (readRoute maxNodeChildren child tail).map (edgeFor maxNodeChildren node head :: ·) := by
  rw [readRoute]
  cases hfind : node.children.find? head with
  | some child =>
    have hmem : head ∈ node.children.keys :=
      (Forest.find?_isSome_iff head node.children).mp (by rw [hfind]; rfl)
    rw [edgeFor_of_mem maxNodeChildren hmem, hfind]
    rfl
  | none =>
    have hmem := (Forest.find?_eq_none_iff head node.children).mp hfind
    by_cases hfull : maxNodeChildren ≤ node.keyedChildren
    · rw [edgeFor_of_full maxNodeChildren hmem hfull]
      rw [if_pos hfull]
      cases node.children.find? wildcardText with
      | some child => rfl
      | none => rfl
    · rw [edgeFor_of_room maxNodeChildren hmem hfull, hfind]
      rw [if_neg hfull]
      rfl

/-- A read returns the node its route leads to. -/
theorem descendImmutable_eq_readRoute (node : PrefixNode) (path : List Text) :
    descendImmutable maxNodeChildren node path =
      (readRoute maxNodeChildren node path).bind node.nodeAt? := by
  rw [descendImmutable_eq_nodeAt?]
  induction path generalizing node with
  | nil => rfl
  | cons head tail ih =>
    rw [readRoute_cons, route, BucketTrie.nodeAt?_cons]
    cases hfind : node.children.find? (edgeFor maxNodeChildren node head) with
    | none => rfl
    | some child =>
      rw [Option.bind_some, Option.bind_some, BucketTrie.childOrEmpty, hfind, Option.getD_some,
        ih child]
      cases readRoute maxNodeChildren child tail with
      | none => rfl
      | some edges =>
        rw [Option.bind_some, Option.map_some, Option.bind_some, BucketTrie.nodeAt?_cons,
          hfind, Option.bind_some]

/-- A write adds its edge, and no other. -/
theorem keys_setChild (node : PrefixNode) (key : Text) (child : PrefixNode) :
    (node.setChild key child).children.keys =
      if key ∈ node.children.keys then node.children.keys else node.children.keys ++ [key] := by
  rw [BucketTrie.children_setChild, Forest.keys_set]
  congr

theorem mem_keys_setChild {key other : Text} {child : PrefixNode} :
    other ∈ (node.setChild key child).children.keys ↔ other ∈ node.children.keys ∨ other = key := by
  rw [keys_setChild]
  split
  · rename_i hmem
    refine ⟨.inl, ?_⟩
    rintro (hother | rfl)
    · exact hother
    · exact hmem
  · rw [List.mem_append, List.mem_singleton]

theorem keyedChildren_congr {other : PrefixNode} (h : node.children.keys = other.children.keys) :
    node.keyedChildren = other.keyedChildren := by
  rw [keyedChildren, keyedChildren, h]

/-- The wildcard branch is not counted. -/
theorem keyedChildren_setChild_wildcard (node child : PrefixNode) :
    PrefixNode.keyedChildren (node.setChild wildcardText child) = node.keyedChildren := by
  rw [keyedChildren, keyedChildren, keys_setChild]
  by_cases hmem : wildcardText ∈ node.children.keys
  · rw [if_pos hmem, if_pos hmem]
  · have hnew : wildcardText ∈ node.children.keys ++ [wildcardText] := by simp
    rw [if_neg hmem, if_pos hnew, if_neg hmem, List.length_append]
    rfl

variable {maxNodeChildren}

/-- After a write of its own line, an edge is the one the write took. -/
theorem edgeFor_setChild_self (node : PrefixNode) (head : Text) (child : PrefixNode) :
    edgeFor maxNodeChildren (node.setChild (edgeFor maxNodeChildren node head) child) head =
      edgeFor maxNodeChildren node head := by
  by_cases hmem : head ∈ node.children.keys
  · rw [edgeFor_of_mem _ hmem]
    exact edgeFor_of_mem _ (mem_keys_setChild.mpr (.inl hmem))
  · by_cases hfull : maxNodeChildren ≤ node.keyedChildren
    · rw [edgeFor_of_full _ hmem hfull]
      by_cases hwild : head = wildcardText
      · rw [← hwild]
        exact edgeFor_of_mem _ (mem_keys_setChild.mpr (.inr rfl))
      · apply edgeFor_of_full
        · intro hstored
          rcases mem_keys_setChild.mp hstored with hold | hnew
          · exact hmem hold
          · exact hwild hnew
        · rwa [keyedChildren_setChild_wildcard]
    · rw [edgeFor_of_room _ hmem hfull]
      exact edgeFor_of_mem _ (mem_keys_setChild.mpr (.inr rfl))

/-- Where a line's edge exists, a write of any line leaves it the line's edge. -/
theorem edgeFor_setChild (hstored : edgeFor maxNodeChildren node head ∈ node.children.keys)
    (other : Text) (child : PrefixNode) :
    edgeFor maxNodeChildren (node.setChild (edgeFor maxNodeChildren node other) child) head =
      edgeFor maxNodeChildren node head := by
  by_cases hmem : head ∈ node.children.keys
  · rw [edgeFor_of_mem _ hmem]
    exact edgeFor_of_mem _ (mem_keys_setChild.mpr (.inl hmem))
  · by_cases hfull : maxNodeChildren ≤ node.keyedChildren
    · -- a full node with a wildcard branch takes no new branch
      rw [edgeFor_of_full _ hmem hfull] at hstored ⊢
      have hother : edgeFor maxNodeChildren node other ∈ node.children.keys := by
        by_cases hknown : other ∈ node.children.keys
        · rwa [edgeFor_of_mem _ hknown]
        · rwa [edgeFor_of_full _ hknown hfull]
      have hkeys : (node.setChild (edgeFor maxNodeChildren node other) child).children.keys =
          node.children.keys := by
        rw [keys_setChild, if_pos hother]
      apply edgeFor_of_full
      · rwa [hkeys]
      · rwa [keyedChildren_congr hkeys]
    · rw [edgeFor_of_room _ hmem hfull] at hstored
      exact absurd hstored hmem

end Edges

/-! ## Routes -/

section Routes

variable {maxNodeChildren : Nat}

variable {node : PrefixNode} {edges path : List Text}

/-- What a read of a line follows. -/
theorem readRoute_cons_eq_some {head : Text} {tail : List Text} :
    readRoute maxNodeChildren node (head :: tail) = some edges ↔
      ∃ child rest, node.children.find? (edgeFor maxNodeChildren node head) = some child ∧
        readRoute maxNodeChildren child tail = some rest ∧
        edges = edgeFor maxNodeChildren node head :: rest := by
  rw [readRoute_cons, Option.bind_eq_some_iff]
  simp only [Option.map_eq_some_iff]
  constructor
  · rintro ⟨child, hchild, rest, hrest, rfl⟩
    exact ⟨child, rest, hchild, hrest, rfl⟩
  · rintro ⟨child, rest, hchild, hrest, rfl⟩
    exact ⟨child, hchild, rest, hrest, rfl⟩

section

variable (h : readRoute maxNodeChildren node path = some edges)
include h

/-- A read takes the route of a write. -/
theorem route_of_readRoute : route maxNodeChildren node path = edges := by
  induction path generalizing node edges with
  | nil => exact Option.some.inj h
  | cons head tail ih =>
    obtain ⟨child, rest, hchild, hrest, rfl⟩ := readRoute_cons_eq_some.mp h
    rw [route, BucketTrie.childOrEmpty, hchild, Option.getD_some, ih hrest]

/-- Every node of a read's route exists. -/
theorem exists_nodeAt_of_readRoute : ∃ inner, node.nodeAt? edges = some inner := by
  induction path generalizing node edges with
  | nil =>
    cases h
    exact ⟨node, rfl⟩
  | cons head tail ih =>
    obtain ⟨child, rest, hchild, hrest, rfl⟩ := readRoute_cons_eq_some.mp h
    obtain ⟨inner, hinner⟩ := ih hrest
    refine ⟨inner, ?_⟩
    rw [BucketTrie.nodeAt?_cons, hchild, Option.bind_some, hinner]

/-- Descending to a line that can be read changes nothing. -/
theorem descendRecursively_id : descendRecursively maxNodeChildren id node path = node := by
  induction path generalizing node edges with
  | nil => exact BucketTrie.node_children_bucket node
  | cons head tail ih =>
    obtain ⟨child, rest, hchild, hrest, rfl⟩ := readRoute_cons_eq_some.mp h
    rw [descendRecursively, BucketTrie.childOrEmpty, hchild, Option.getD_some, ih hrest,
      BucketTrie.setChild, Forest.set_eq_self hchild]
    exact BucketTrie.node_children_bucket node

end

/-- After a write, a read follows its route. -/
theorem readRoute_descendRecursively_self (f : List Leaf → List Leaf) (node : PrefixNode)
    (path : List Text) :
    readRoute maxNodeChildren (descendRecursively maxNodeChildren f node path) path =
      some (route maxNodeChildren node path) := by
  induction path generalizing node with
  | nil => rfl
  | cons head tail ih =>
    apply readRoute_cons_eq_some.mpr
    rw [descendRecursively, edgeFor_setChild_self]
    refine ⟨_, _, ?_, ih (node.childOrEmpty (edgeFor maxNodeChildren node head)), rfl⟩
    exact Forest.find?_set_self _ _ _

/-- A read keeps its route whatever is written. -/
theorem readRoute_descendRecursively (h : readRoute maxNodeChildren node path = some edges)
    (f : List Leaf → List Leaf) (other : List Text) :
    readRoute maxNodeChildren (descendRecursively maxNodeChildren f node other) path =
      some edges := by
  induction path generalizing node edges other with
  | nil => exact h
  | cons head tail ih =>
    cases other with
    | nil =>
      -- only the leaves of this node changed
      obtain ⟨child, rest, hchild, hrest, rfl⟩ := readRoute_cons_eq_some.mp h
      exact readRoute_cons_eq_some.mpr ⟨child, rest, hchild, hrest, rfl⟩
    | cons first others =>
      obtain ⟨child, rest, hchild, hrest, rfl⟩ := readRoute_cons_eq_some.mp h
      have hstored : edgeFor maxNodeChildren node head ∈ node.children.keys :=
        (Forest.find?_isSome_iff _ _).mp (by rw [hchild]; rfl)
      apply readRoute_cons_eq_some.mpr
      rw [descendRecursively, edgeFor_setChild hstored, BucketTrie.children_setChild]
      by_cases hsame : edgeFor maxNodeChildren node head = edgeFor maxNodeChildren node first
      · rw [← hsame, Forest.find?_set_self, BucketTrie.childOrEmpty, hchild, Option.getD_some]
        exact ⟨_, rest, rfl, ih hrest others, rfl⟩
      · rw [Forest.find?_set_of_ne hsame]
        exact ⟨child, rest, hchild, hrest, rfl⟩

end Routes

/-! ## The cap -/

section Cap

variable {maxNodeChildren : Nat}

/-- The node itself keeps the cap. -/
structure CappedHere (maxNodeChildren : Nat) (node : PrefixNode) : Prop where
  nodup : node.children.keys.Nodup
  own : node.ownKeys.length ≤ maxNodeChildren

/-- Every node below keeps the cap. -/
def Capped (maxNodeChildren : Nat) (node : PrefixNode) : Prop :=
  ∀ path inner, node.nodeAt? path = some inner → CappedHere maxNodeChildren inner

variable {node : PrefixNode}

theorem ownKeys_length (h : node.children.keys.Nodup) :
    node.ownKeys.length = node.keyedChildren := by
  have hcount : node.children.keys.count wildcardText =
      if wildcardText ∈ node.children.keys then 1 else 0 := h.count
  have hsplit := List.length_eq_length_filter_add (l := node.children.keys)
    (fun key => decide (key ≠ wildcardText))
  rw [keyedChildren, ownKeys, ← hcount, hsplit, List.count_eq_length_filter]
  have hsame : (node.children.keys.filter fun key => !decide (key ≠ wildcardText)) =
      node.children.keys.filter (· == wildcardText) := by
    apply List.filter_congr
    intro key _
    by_cases hkey : key = wildcardText
    · simp [hkey]
    · simp [hkey]
  rw [hsame]
  omega

theorem capped_iff : Capped maxNodeChildren node ↔
    CappedHere maxNodeChildren node ∧
      ∀ key child, node.children.find? key = some child → Capped maxNodeChildren child := by
  constructor
  · intro h
    refine ⟨h [] node rfl, ?_⟩
    intro key child hchild path inner hinner
    apply h (key :: path) inner
    rw [BucketTrie.nodeAt?_cons, hchild]
    exact hinner
  · rintro ⟨hhere, hchildren⟩ path inner hinner
    cases path with
    | nil => exact Option.some.inj hinner ▸ hhere
    | cons key path =>
      obtain ⟨child, hchild, hrest⟩ := Option.bind_eq_some_iff.mp hinner
      exact hchildren key child hchild path inner hrest

theorem cappedHere_empty : CappedHere maxNodeChildren (BucketTrie.empty : PrefixNode) :=
  ⟨List.nodup_nil, Nat.zero_le _⟩

theorem capped_empty : Capped maxNodeChildren (BucketTrie.empty : PrefixNode) := by
  refine capped_iff.mpr ⟨cappedHere_empty, ?_⟩
  intro key child hchild
  cases hchild

theorem Capped.childOrEmpty (h : Capped maxNodeChildren node) (key : Text) :
    Capped maxNodeChildren (node.childOrEmpty key) := by
  rw [BucketTrie.childOrEmpty]
  cases hchild : node.children.find? key with
  | none => exact capped_empty
  | some child => exact (capped_iff.mp h).2 key child hchild

/-- A write adds a branch of its own only where there is room. -/
theorem CappedHere.setChild (h : CappedHere maxNodeChildren node) (head : Text)
    (child : PrefixNode) :
    CappedHere maxNodeChildren (node.setChild (edgeFor maxNodeChildren node head) child) := by
  have hnodup : (node.setChild (edgeFor maxNodeChildren node head) child).children.keys.Nodup :=
    Forest.nodup_keys_set h.nodup
  refine ⟨hnodup, ?_⟩
  by_cases hmem : edgeFor maxNodeChildren node head ∈ node.children.keys
  · rw [ownKeys, keys_setChild, if_pos hmem]
    exact h.own
  · by_cases hfull : maxNodeChildren ≤ node.keyedChildren
    · have hnew : head ∉ node.children.keys := by
        intro hhead
        rw [edgeFor_of_mem _ hhead] at hmem
        exact hmem hhead
      rw [edgeFor_of_full _ hnew hfull] at hnodup ⊢
      rw [ownKeys_length hnodup, keyedChildren_setChild_wildcard, ← ownKeys_length h.nodup]
      exact h.own
    · rw [ownKeys, keys_setChild, if_neg hmem, List.filter_append, List.length_append]
      have hone : ([edgeFor maxNodeChildren node head].filter (· ≠ wildcardText)).length ≤ 1 :=
        List.length_filter_le _ _
      have hown : (node.children.keys.filter (· ≠ wildcardText)).length = node.keyedChildren :=
        ownKeys_length h.nodup
      omega

theorem Capped.descendRecursively (h : Capped maxNodeChildren node) (f : List Leaf → List Leaf)
    (path : List Text) :
    Capped maxNodeChildren (descendRecursively maxNodeChildren f node path) := by
  induction path generalizing node with
  | nil => exact capped_iff.mpr ⟨⟨(capped_iff.mp h).1.nodup, (capped_iff.mp h).1.own⟩,
      (capped_iff.mp h).2⟩
  | cons head tail ih =>
    obtain ⟨hhere, hchildren⟩ := capped_iff.mp h
    refine capped_iff.mpr ⟨hhere.setChild head _, ?_⟩
    intro key child hchild
    rw [PrefixNode.descendRecursively, BucketTrie.children_setChild] at hchild
    by_cases hkey : key = edgeFor maxNodeChildren node head
    · rw [hkey, Forest.find?_set_self] at hchild
      cases hchild
      exact ih (h.childOrEmpty _)
    · rw [Forest.find?_set_of_ne hkey] at hchild
      exact hchildren key child hchild

end Cap

end PrefixNode

/-! ## Trees -/

namespace Tree

/-- A write: the line, and what the caller does to the leaves of the node it gets. -/
abbrev Write := List Text × (List Leaf → List Leaf)

/-- A tree after some writes. -/
def written (tree : Tree) (prefixDepth maxNodeChildren : Nat) (writes : List Write) : Tree :=
  writes.foldl (fun tree write => tree.descendMut write.1 prefixDepth maxNodeChildren write.2) tree

def nodeAt? (tree : Tree) (place : Nat × List Text) : Option PrefixNode :=
  (tree.byLength.lookup place.1).bind fun root => root.nodeAt? place.2

def readPlace (tree : Tree) (masked : List Text) (prefixDepth maxNodeChildren : Nat) :
    Option (Nat × List Text) :=
  (tree.byLength.lookup masked.length).bind fun root =>
    (PrefixNode.readRoute maxNodeChildren root (walkPath masked prefixDepth)).map
      (masked.length, ·)

section Reads

variable {prefixDepth maxNodeChildren : Nat} {tree : Tree} {masked : List Text}

/-- A read returns the node at its place. -/
theorem descend_eq_nodeAt? (tree : Tree) (masked : List Text) :
    tree.descend masked prefixDepth maxNodeChildren =
      (tree.readPlace masked prefixDepth maxNodeChildren).bind tree.nodeAt? := by
  rw [descend, readPlace]
  cases hroot : tree.byLength.lookup masked.length with
  | none => rfl
  | some root =>
    rw [Option.bind_some, Option.bind_some, PrefixNode.descendImmutable_eq_readRoute]
    cases PrefixNode.readRoute maxNodeChildren root (walkPath masked prefixDepth) with
    | none => rfl
    | some edges =>
      rw [Option.bind_some, Option.map_some, Option.bind_some, nodeAt?, hroot, Option.bind_some]

variable {place : Nat × List Text}

theorem readPlace_eq_some :
    tree.readPlace masked prefixDepth maxNodeChildren = some place ↔
      ∃ root edges, tree.byLength.lookup masked.length = some root ∧
        PrefixNode.readRoute maxNodeChildren root (walkPath masked prefixDepth) = some edges ∧
        place = (masked.length, edges) := by
  rw [readPlace, Option.bind_eq_some_iff]
  simp only [Option.map_eq_some_iff]
  constructor
  · rintro ⟨root, hroot, edges, hedges, rfl⟩
    exact ⟨root, edges, hroot, hedges, rfl⟩
  · rintro ⟨root, edges, hroot, hedges, rfl⟩
    exact ⟨root, hroot, edges, hedges, rfl⟩

section

variable (h : tree.readPlace masked prefixDepth maxNodeChildren = some place)
include h

theorem exists_nodeAt_of_readPlace : ∃ node, tree.nodeAt? place = some node := by
  obtain ⟨root, edges, hroot, hedges, rfl⟩ := readPlace_eq_some.mp h
  obtain ⟨node, hnode⟩ := PrefixNode.exists_nodeAt_of_readRoute hedges
  refine ⟨node, ?_⟩
  rw [nodeAt?, hroot, Option.bind_some, hnode]

/-- A read goes where a write goes. -/
theorem placeOf_of_readPlace : tree.placeOf masked prefixDepth maxNodeChildren = place := by
  obtain ⟨root, edges, hroot, hedges, rfl⟩ := readPlace_eq_some.mp h
  rw [placeOf, rootAt, hroot, Option.getD_some, PrefixNode.route_of_readRoute hedges]

/-- Descending to a line that can be read leaves every bucket as it was. -/
theorem lookup_descendMut_id (length : Nat) :
    (tree.descendMut masked prefixDepth maxNodeChildren id).byLength.lookup length =
      tree.byLength.lookup length := by
  obtain ⟨root, edges, hroot, hedges, -⟩ := readPlace_eq_some.mp h
  rw [descendMut, rootAt, hroot, Option.getD_some, PrefixNode.descendRecursively_id hedges]
  by_cases hlength : length = masked.length
  · rw [hlength, AList.lookup_insert, hroot]
  · rw [AList.lookup_insert_ne hlength]

end

theorem readPlace_descendMut_self (tree : Tree) (masked : List Text) (f : List Leaf → List Leaf) :
    (tree.descendMut masked prefixDepth maxNodeChildren f).readPlace masked prefixDepth
      maxNodeChildren = some (tree.placeOf masked prefixDepth maxNodeChildren) := by
  apply readPlace_eq_some.mpr
  refine ⟨_, _, AList.lookup_insert _, ?_, rfl⟩
  exact PrefixNode.readRoute_descendRecursively_self f _ _

/-- A read keeps its place whatever is written. -/
theorem readPlace_descendMut (h : tree.readPlace masked prefixDepth maxNodeChildren = some place)
    (write : Write) :
    (tree.descendMut write.1 prefixDepth maxNodeChildren write.2).readPlace masked prefixDepth
      maxNodeChildren = some place := by
  obtain ⟨root, edges, hroot, hedges, rfl⟩ := readPlace_eq_some.mp h
  apply readPlace_eq_some.mpr
  by_cases hlength : masked.length = write.1.length
  · refine ⟨PrefixNode.descendRecursively maxNodeChildren write.2 root
      (walkPath write.1 prefixDepth), edges, ?_, ?_, rfl⟩
    · rw [descendMut, ← hlength, AList.lookup_insert, rootAt, hroot, Option.getD_some]
    · exact PrefixNode.readRoute_descendRecursively hedges write.2 _
  · refine ⟨root, edges, ?_, hedges, rfl⟩
    rw [descendMut, AList.lookup_insert_ne hlength, hroot]

theorem readPlace_written (h : tree.readPlace masked prefixDepth maxNodeChildren = some place)
    (writes : List Write) :
    (tree.written prefixDepth maxNodeChildren writes).readPlace masked prefixDepth maxNodeChildren =
      some place := by
  induction writes generalizing tree with
  | nil => exact h
  | cons write writes ih => exact ih (readPlace_descendMut h write)

/-- Every node of a tree keeps the cap. -/
def Capped (maxNodeChildren : Nat) (tree : Tree) : Prop :=
  ∀ length, PrefixNode.Capped maxNodeChildren (tree.rootAt length)

theorem capped_empty : Tree.empty.Capped maxNodeChildren := fun _ => PrefixNode.capped_empty

variable (h : tree.Capped maxNodeChildren)
include h

theorem Capped.descendMut (write : Write) :
    (tree.descendMut write.1 prefixDepth maxNodeChildren write.2).Capped maxNodeChildren := by
  intro length
  rw [rootAt, Tree.descendMut]
  by_cases hlength : length = write.1.length
  · rw [hlength, AList.lookup_insert, Option.getD_some]
    exact (h _).descendRecursively write.2 _
  · rw [AList.lookup_insert_ne hlength]
    exact h length

theorem Capped.written (writes : List Write) :
    (tree.written prefixDepth maxNodeChildren writes).Capped maxNodeChildren := by
  induction writes generalizing tree with
  | nil => exact h
  | cons write writes ih => exact ih (h.descendMut write)

theorem Capped.nodeAt {node : PrefixNode} (hnode : tree.nodeAt? place = some node) :
    node.ownKeys.length ≤ maxNodeChildren := by
  obtain ⟨root, hroot, hinner⟩ := Option.bind_eq_some_iff.mp hnode
  have hcapped := h place.1
  rw [rootAt, hroot, Option.getD_some] at hcapped
  exact (hcapped place.2 node hinner).own

end Reads

/-- For every tree built by writes: no node has more branches of its own than the cap; a
line that can be read is read at the place a write goes to, and descending to it changes
nothing; a write makes its change to the leaves of its place and to no others; and after a
write its line is read at the place it went to, in every later tree. -/
theorem descents_agree (prefixDepth maxNodeChildren : Nat) (writes : List Write) :
    let tree := empty.written prefixDepth maxNodeChildren writes
    (∀ place node, tree.nodeAt? place = some node → node.ownKeys.length ≤ maxNodeChildren) ∧
    (∀ masked node, tree.descend masked prefixDepth maxNodeChildren = some node →
      tree.readPlace masked prefixDepth maxNodeChildren =
        some (tree.placeOf masked prefixDepth maxNodeChildren) ∧
      tree.nodeAt? (tree.placeOf masked prefixDepth maxNodeChildren) = some node ∧
      ∀ length, (tree.descendMut masked prefixDepth maxNodeChildren id).byLength.lookup length =
        tree.byLength.lookup length) ∧
    ∀ masked,
      let place := tree.placeOf masked prefixDepth maxNodeChildren
      (∃ others,
        tree.placedLeaves.Perm ((tree.leavesAt place).map (fun leaf => (place, leaf)) ++ others) ∧
        ∀ f, (tree.descendMut masked prefixDepth maxNodeChildren f).placedLeaves.Perm
          ((f (tree.leavesAt place)).map (fun leaf => (place, leaf)) ++ others)) ∧
      ∀ f later,
        let after := empty.written prefixDepth maxNodeChildren (writes ++ (masked, f) :: later)
        after.readPlace masked prefixDepth maxNodeChildren = some place ∧
        ∃ node, after.descend masked prefixDepth maxNodeChildren = some node ∧
          after.nodeAt? place = some node := by
  intro tree
  refine ⟨?_, ?_, ?_⟩
  · intro place node hnode
    exact (capped_empty.written writes).nodeAt hnode
  · intro masked node hread
    rw [descend_eq_nodeAt?] at hread
    obtain ⟨place, hplace, hnode⟩ := Option.bind_eq_some_iff.mp hread
    rw [placeOf_of_readPlace hplace]
    exact ⟨hplace, hnode, lookup_descendMut_id hplace⟩
  · intro masked
    refine ⟨tree.placedLeaves_descendMut masked prefixDepth maxNodeChildren, ?_⟩
    intro f later after
    have hafter : after = (tree.descendMut masked prefixDepth maxNodeChildren f).written prefixDepth
        maxNodeChildren later := List.foldl_append
    have hplace := readPlace_written
      (@readPlace_descendMut_self prefixDepth maxNodeChildren tree masked f) later
    obtain ⟨node, hnode⟩ := exists_nodeAt_of_readPlace hplace
    rw [hafter]
    refine ⟨hplace, node, ?_, hnode⟩
    rw [descend_eq_nodeAt?, hplace, Option.bind_some, hnode]

end Tree

end Ourios.Miner
