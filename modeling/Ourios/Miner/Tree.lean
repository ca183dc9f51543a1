/-
# The prefix tree

Leaves live under a length bucket and a short path of masked tokens. A node
that already has `maxNodeChildren` keyed children routes unseen tokens through
one shared wildcard child. `descendMut` walks that path creating what is
missing; `descend` walks it without writing.

Both walks follow the same path of keys, `route`, so a write is a single bucket
rewrite of the underlying trie and a read is a lookup in it.
-/

import Ourios.Foundation.AssocMap
import Ourios.Foundation.BucketTrie
import Ourios.Miner.Template

namespace Ourios.Miner

open Ourios.Foundation

/-- The upstream template strings seen with one template, capped in number. -/
structure UpstreamAssociations where
  strings : Finset Text
  overflow : Nat
  deriving DecidableEq

namespace UpstreamAssociations

/-- No string seen yet. -/
def empty : UpstreamAssociations := ⟨∅, 0⟩

/-- Record a string, or count it when the cap is reached. -/
def observe (associations : UpstreamAssociations) (template : Text) (bound : Nat) :
    UpstreamAssociations :=
  if template ∈ associations.strings then associations
  else if bound ≤ associations.strings.card then
    { associations with overflow := associations.overflow + 1 }
  else { associations with strings := insert template associations.strings }

end UpstreamAssociations

/-- One mined template. -/
structure Leaf where
  template : List OwnedToken
  templateId : Nat
  templateVersion : Nat
  severityNumber : Nat
  scopeName : Option Text
  slotTypes : List SlotTypes
  provenance : ProvenanceSet
  upstreamAssociations : UpstreamAssociations
  deriving DecidableEq

def Leaf.associateUpstream (leaf : Leaf) (observed : Option Text) (bound : Nat) : Leaf :=
  match observed with
  | some s => { leaf with upstreamAssociations := leaf.upstreamAssociations.observe s bound }
  | none => leaf

section AssociateUpstream

variable (leaf : Leaf) (observed : Option Text) (bound : Nat)

@[simp] theorem Leaf.template_associateUpstream :
    (leaf.associateUpstream observed bound).template = leaf.template := by
  cases observed <;> rfl

@[simp] theorem Leaf.templateId_associateUpstream :
    (leaf.associateUpstream observed bound).templateId = leaf.templateId := by
  cases observed <;> rfl

@[simp] theorem Leaf.templateVersion_associateUpstream :
    (leaf.associateUpstream observed bound).templateVersion = leaf.templateVersion := by
  cases observed <;> rfl

@[simp] theorem Leaf.severityNumber_associateUpstream :
    (leaf.associateUpstream observed bound).severityNumber = leaf.severityNumber := by
  cases observed <;> rfl

@[simp] theorem Leaf.scopeName_associateUpstream :
    (leaf.associateUpstream observed bound).scopeName = leaf.scopeName := by
  cases observed <;> rfl

@[simp] theorem Leaf.slotTypes_associateUpstream :
    (leaf.associateUpstream observed bound).slotTypes = leaf.slotTypes := by
  cases observed <;> rfl

@[simp] theorem Leaf.provenance_associateUpstream :
    (leaf.associateUpstream observed bound).provenance = leaf.provenance := by
  cases observed <;> rfl

end AssociateUpstream

abbrev PrefixNode := BucketTrie Text Leaf

/-- The whole tree of one tenant, one root per line length. -/
structure Tree where
  byLength : AList fun _ : Nat => PrefixNode

namespace PrefixNode

/-- Children reached by a token of their own. -/
def keyedChildren (node : PrefixNode) : Nat :=
  node.children.keys.length - if wildcardText ∈ node.children.keys then 1 else 0

/-- The edge a write takes for a token: its own, or the shared wildcard edge when
the token is unseen and the node is full. -/
def edgeFor (maxNodeChildren : Nat) (node : PrefixNode) (head : Text) : Text :=
  if head ∈ node.children.keys then head
  else if maxNodeChildren ≤ node.keyedChildren then wildcardText
  else head

/-- The edges a write takes for a path of tokens. -/
def route (maxNodeChildren : Nat) : PrefixNode → List Text → List Text
  | _, [] => []
  | node, head :: tail =>
    let key := edgeFor maxNodeChildren node head
    key :: route maxNodeChildren (node.childOrEmpty key) tail

/-- Walk a path, creating missing nodes, and rewrite the leaves at its end. -/
def descendRecursively (maxNodeChildren : Nat) (f : List Leaf → List Leaf) :
    PrefixNode → List Text → PrefixNode
  | node, [] => .node node.children (f node.bucket)
  | node, head :: tail =>
    let key := edgeFor maxNodeChildren node head
    node.setChild key (descendRecursively maxNodeChildren f (node.childOrEmpty key) tail)

/-- Walk a path without writing. An unseen token at a full node is looked up
where a write would have put it. -/
def descendImmutable (maxNodeChildren : Nat) : PrefixNode → List Text → Option PrefixNode
  | node, [] => some node
  | node, head :: tail =>
    match node.children.find? head with
    | some child => descendImmutable maxNodeChildren child tail
    | none =>
      if maxNodeChildren ≤ node.keyedChildren then
        match node.children.find? wildcardText with
        | some child => descendImmutable maxNodeChildren child tail
        | none => none
      else none

variable (maxNodeChildren : Nat)

/-- A write is one bucket rewrite at the routed path. -/
theorem descendRecursively_eq_modifyAt (f : List Leaf → List Leaf) (node : PrefixNode)
    (path : List Text) :
    descendRecursively maxNodeChildren f node path =
      node.modifyAt f (route maxNodeChildren node path) := by
  induction path generalizing node with
  | nil => rfl
  | cons head tail ih => simp only [descendRecursively, route, BucketTrie.modifyAt, ih]

/-- A read is a lookup at the path a write would take. -/
theorem descendImmutable_eq_nodeAt? (node : PrefixNode) (path : List Text) :
    descendImmutable maxNodeChildren node path =
      node.nodeAt? (route maxNodeChildren node path) := by
  induction path generalizing node with
  | nil => rfl
  | cons head tail ih =>
    cases hfind : node.children.find? head with
    | some child =>
      have hmem : head ∈ node.children.keys :=
        (Forest.find?_isSome_iff head node.children).mp (by simp [hfind])
      simp [descendImmutable, route, edgeFor, hfind, hmem, BucketTrie.childOrEmpty, ih]
    | none =>
      have hmem : head ∉ node.children.keys :=
        (Forest.find?_eq_none_iff head node.children).mp hfind
      by_cases hfull : maxNodeChildren ≤ node.keyedChildren
      · cases hwild : node.children.find? wildcardText with
        | none => simp [descendImmutable, route, edgeFor, hfind, hmem, hfull, hwild]
        | some child =>
          simp [descendImmutable, route, edgeFor, hfind, hmem, hfull, hwild,
            BucketTrie.childOrEmpty, ih]
      · simp [descendImmutable, route, edgeFor, hfind, hmem, hfull]

end PrefixNode

/-- The tokens a line is routed by: at most `prefixDepth` of them. -/
def walkPath (masked : List Text) (prefixDepth : Nat) : List Text :=
  masked.take (min prefixDepth masked.length)

/-- The positions of a path that follow the wildcard edge. -/
def wildcardRoutes (path : List Text) : List Nat :=
  (path.zipIdx.filter fun entry => entry.1 == wildcardText).map Prod.snd

variable (tree : Tree)

namespace Tree

/-- The tree of a tenant that has mined nothing. -/
def empty : Tree := ⟨∅⟩

/-- The root of a length bucket, empty where the bucket is missing. -/
def rootAt (length : Nat) : PrefixNode :=
  (tree.byLength.lookup length).getD BucketTrie.empty

/-- Walk to a line's node, creating it, and rewrite its leaves. -/
def descendMut (masked : List Text) (prefixDepth maxNodeChildren : Nat)
    (f : List Leaf → List Leaf) : Tree :=
  ⟨tree.byLength.insert masked.length
    (PrefixNode.descendRecursively maxNodeChildren f (tree.rootAt masked.length)
      (walkPath masked prefixDepth))⟩

/-- Walk to a line's node. -/
def descend (masked : List Text) (prefixDepth maxNodeChildren : Nat) : Option PrefixNode :=
  (tree.byLength.lookup masked.length).bind fun root =>
    PrefixNode.descendImmutable maxNodeChildren root (walkPath masked prefixDepth)

/-- The leaves of one length bucket, each with the bucket and its path of keys. -/
def bucketLeaves (length : Nat) (root : PrefixNode) : List ((Nat × List Text) × Leaf) :=
  root.items.map fun entry => ((length, entry.1), entry.2)

/-- Every leaf with its length bucket and its path of keys. -/
def placedLeaves : List ((Nat × List Text) × Leaf) :=
  tree.byLength.entries.flatMap fun bucket => bucketLeaves bucket.1 bucket.2

def collectLeaves : List Leaf := tree.placedLeaves.map Prod.snd

/-- Every leaf with the prefix positions it reaches through a wildcard edge. -/
def collectRoutedLeaves : List (Leaf × List Nat) :=
  tree.placedLeaves.map fun entry => (entry.2, wildcardRoutes entry.1.2)

/-- The number of leaves, counted by walking the tree. -/
def leafCount : Nat := tree.collectLeaves.length

/-- Whether a leaf has exactly this shape, severity and scope. -/
def isExact (template : List OwnedToken) (severityNumber : Nat) (scopeName : Option Text)
    (leaf : Leaf) : Bool :=
  leaf.template == template && leaf.severityNumber == severityNumber && leaf.scopeName == scopeName

/-- The exact leaf of lowest id in the template's length bucket. -/
def findExact (template : List OwnedToken) (severityNumber : Nat)
    (scopeName : Option Text) : Option Leaf :=
  (((tree.rootAt template.length).items.map Prod.snd).filter
    (isExact template severityNumber scopeName)).argmin Leaf.templateId

/-- Rewrite the leaf `findExact` returned. The source holds a reference to it; the
leaf is named here by its bucket and its id. -/
def updateLeaf (length templateId : Nat) (f : Leaf → Leaf) : Tree :=
  match tree.byLength.lookup length with
  | some root =>
    ⟨tree.byLength.insert length
      (root.mapItems fun leaf => if leaf.templateId = templateId then f leaf else leaf)⟩
  | none => tree

end Tree

namespace Tree

/-- The place of a line: its length bucket and the path a write takes. -/
def placeOf (masked : List Text) (prefixDepth maxNodeChildren : Nat) : Nat × List Text :=
  (masked.length, PrefixNode.route maxNodeChildren (tree.rootAt masked.length)
    (walkPath masked prefixDepth))

def leavesAt (place : Nat × List Text) : List Leaf :=
  (tree.rootAt place.1).bucketAt place.2

@[simp] theorem placedLeaves_empty : empty.placedLeaves = [] := rfl

private theorem placedLeaves_perm (length : Nat) :
    tree.placedLeaves.Perm (bucketLeaves length (tree.rootAt length) ++
      (tree.byLength.erase length).entries.flatMap fun bucket =>
        bucketLeaves bucket.1 bucket.2) := by
  have hroot : (tree.byLength.lookup length).elim [] (bucketLeaves length) =
      bucketLeaves length (tree.rootAt length) := by
    unfold rootAt
    cases tree.byLength.lookup length with
    | none => simp [bucketLeaves, BucketTrie.empty, BucketTrie.items, BucketTrie.childItems]
    | some root => rfl
  rw [← hroot]
  exact flatMap_entries_perm bucketLeaves length tree.byLength

/-- A write changes the leaves of one place and no others. -/
theorem placedLeaves_descendMut (masked : List Text) (prefixDepth maxNodeChildren : Nat) : ∃ rest,
      tree.placedLeaves.Perm
        ((tree.leavesAt (tree.placeOf masked prefixDepth maxNodeChildren)).map
          (fun leaf => (tree.placeOf masked prefixDepth maxNodeChildren, leaf)) ++ rest) ∧
      ∀ f, (tree.descendMut masked prefixDepth maxNodeChildren f).placedLeaves.Perm
        ((f (tree.leavesAt (tree.placeOf masked prefixDepth maxNodeChildren))).map
          (fun leaf => (tree.placeOf masked prefixDepth maxNodeChildren, leaf)) ++ rest) := by
  obtain ⟨before, after, hitems, hmodify⟩ := BucketTrie.items_modifyAt (tree.rootAt masked.length)
    (tree.placeOf masked prefixDepth maxNodeChildren).2
  refine ⟨(before ++ after).map (fun entry => ((masked.length, entry.1), entry.2)) ++
    (tree.byLength.erase masked.length).entries.flatMap (fun bucket =>
      bucketLeaves bucket.1 bucket.2), ?_, fun f => ?_⟩
  · refine (tree.placedLeaves_perm masked.length).trans ?_
    rw [bucketLeaves, hitems, ← List.append_assoc]
    refine List.Perm.append_right _ ?_
    simpa [Function.comp_def, leavesAt, placeOf] using
      List.perm_append_comm_assoc _ _ _
  · simp only [placedLeaves, descendMut, entries_insert_eq, List.flatMap_cons,
      PrefixNode.descendRecursively_eq_modifyAt]
    have hwrite := hmodify f
    simp only [placeOf] at hwrite
    rw [bucketLeaves, hwrite, ← List.append_assoc]
    refine List.Perm.append_right _ ?_
    simpa [Function.comp_def, leavesAt, placeOf] using
      List.perm_append_comm_assoc _ _ _

variable {tree : Tree}

/-- What a read returns are the leaves at the line's place. -/
theorem bucket_of_descend {masked : List Text} {prefixDepth maxNodeChildren : Nat}
    {node : PrefixNode} (h : tree.descend masked prefixDepth maxNodeChildren = some node) :
    node.bucket = tree.leavesAt (tree.placeOf masked prefixDepth maxNodeChildren) := by
  obtain ⟨root, hroot, hwalk⟩ := Option.bind_eq_some_iff.mp h
  rw [PrefixNode.descendImmutable_eq_nodeAt?] at hwalk
  have hrootAt : tree.rootAt masked.length = root := by simp [rootAt, hroot]
  simp [leavesAt, placeOf, BucketTrie.bucketAt, hrootAt, hwalk]

/-- Where a read finds no node there are no leaves. -/
theorem leavesAt_of_descend_none {masked : List Text} {prefixDepth maxNodeChildren : Nat}
    (h : tree.descend masked prefixDepth maxNodeChildren = none) :
    tree.leavesAt (tree.placeOf masked prefixDepth maxNodeChildren) = [] := by
  unfold descend at h
  unfold leavesAt placeOf rootAt
  cases hroot : tree.byLength.lookup masked.length with
  | none => simp
  | some root =>
    rw [hroot, Option.bind_some, PrefixNode.descendImmutable_eq_nodeAt?] at h
    simp [BucketTrie.bucketAt, h]

theorem place_of_mem_bucketLeaves {length : Nat} {root : PrefixNode}
    {entry : (Nat × List Text) × Leaf} (h : entry ∈ bucketLeaves length root) :
    entry.1.1 = length := by
  obtain ⟨item, -, rfl⟩ := List.mem_map.mp h
  rfl

/-- A leaf is placed at a path of a length bucket exactly when the bucket's root
holds it there. -/
theorem mem_placedLeaves_iff {length : Nat} {path : List Text} {leaf : Leaf} :
    ((length, path), leaf) ∈ tree.placedLeaves ↔ (path, leaf) ∈ (tree.rootAt length).items := by
  rw [placedLeaves, List.mem_flatMap]
  constructor
  · rintro ⟨⟨bucketLength, root⟩, hbucket, hentry⟩
    obtain rfl : length = bucketLength := place_of_mem_bucketLeaves hentry
    have hroot : tree.byLength.lookup length = some root := AList.mem_lookup_iff.mpr hbucket
    obtain ⟨item, hitem, heq⟩ := List.mem_map.mp hentry
    cases heq
    simpa [rootAt, hroot] using hitem
  · intro hitem
    cases hlookup : tree.byLength.lookup length with
    | none =>
      simp [rootAt, hlookup, BucketTrie.empty, BucketTrie.items, BucketTrie.childItems] at hitem
    | some root =>
      rw [rootAt, hlookup, Option.getD_some] at hitem
      exact ⟨⟨length, root⟩, AList.mem_lookup_iff.mp hlookup,
        List.mem_map.mpr ⟨(path, leaf), hitem, rfl⟩⟩

/-- Rewriting a leaf in place moves no leaf. -/
theorem placedLeaves_updateLeaf (tree : Tree) (length templateId : Nat) (f : Leaf → Leaf) :
    (tree.updateLeaf length templateId f).placedLeaves.Perm
      (tree.placedLeaves.map fun entry => (entry.1,
        if entry.1.1 = length ∧ entry.2.templateId = templateId then f entry.2 else entry.2)) := by
  have hrest : ∀ entry ∈ (tree.byLength.erase length).entries.flatMap (fun bucket =>
        bucketLeaves bucket.1 bucket.2),
      (entry.1, if entry.1.1 = length ∧ entry.2.templateId = templateId then f entry.2
        else entry.2) = id entry := by
    intro entry hmem
    obtain ⟨⟨bucketLength, other⟩, hbucket, hentry⟩ := List.mem_flatMap.mp hmem
    have hne : entry.1.1 ≠ length := by
      rw [place_of_mem_bucketLeaves hentry]
      rintro rfl
      have hother : other ∈ (tree.byLength.erase bucketLength).lookup bucketLength :=
        AList.mem_lookup_iff.mpr hbucket
      rw [AList.lookup_erase] at hother
      cases hother
    simp [hne]
  refine List.Perm.trans ?_ ((tree.placedLeaves_perm length).map _).symm
  rw [List.map_append, List.map_congr_left hrest, List.map_id]
  cases hlookup : tree.byLength.lookup length with
  | none =>
    have hempty : bucketLeaves length (tree.rootAt length) = [] := by
      simp [rootAt, hlookup, bucketLeaves, BucketTrie.empty, BucketTrie.items,
        BucketTrie.childItems]
    simp [updateLeaf, hlookup, hempty, placedLeaves, entries_erase_of_lookup_none hlookup]
  | some root =>
    have hrootAt : tree.rootAt length = root := by simp [rootAt, hlookup]
    simp only [updateLeaf, hlookup, placedLeaves, entries_insert_eq, List.flatMap_cons,
      bucketLeaves, BucketTrie.items_mapItems, hrootAt, List.map_map]
    simp [Function.comp_def]

end Tree

/-- Whether a template position agrees with the line's token. A fixed token never
agrees with a masked position, even when the mask text is spelled like it. -/
def positionMatches (wildcardPositions : List Nat) (i : Nat) (token : Text) :
    OwnedToken → Bool
  | .wildcard => true
  | .fixed text => !wildcardPositions.contains i && token == text

/-- The number of agreeing positions from `i` on. -/
def countMatches (wildcardPositions : List Nat) (i : Nat) : List Text → List OwnedToken → Nat
  | token :: line, slot :: template =>
    (if positionMatches wildcardPositions i token slot then 1 else 0) +
      countMatches wildcardPositions (i + 1) line template
  | _, _ => 0

/-- Similarity of a line to a template: the share of agreeing positions, in `f32`. -/
def simSeqOwned (line : List Text) (template : List OwnedToken) (wildcardPositions : List Nat) :
    ℚ :=
  roundF32 ((countMatches wildcardPositions 0 line template : ℚ) / (line.length : ℚ))

end Ourios.Miner
