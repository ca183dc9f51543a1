/-
# Where leaves stand

A tree that ingests have built is tight, and no node of it has more keyed children
than the limit. Two such trees with the same placed leaves route every line the
same way, whatever the order in which they were built; and a leaf that is put back
along its own path, into a tree that holds some of the other leaves, arrives where
it was.
-/

import Ourios.Miner.Bookkeeping

namespace Ourios.Miner

open Ourios.Foundation

namespace PrefixNode

variable {maxNodeChildren : Nat} {node : PrefixNode}

/-- No node below has more keyed children than the limit. -/
def Bounded (maxNodeChildren : Nat) (node : PrefixNode) : Prop :=
  ∀ path below, node.nodeAt? path = some below → keyedChildren below ≤ maxNodeChildren

theorem bounded_iff : Bounded maxNodeChildren node ↔ node.keyedChildren ≤ maxNodeChildren ∧
    ∀ key child, node.children.find? key = some child → Bounded maxNodeChildren child := by
  constructor
  · intro h
    refine ⟨h [] node rfl, fun key child hchild path below hbelow => ?_⟩
    exact h (key :: path) below (by simp [hchild, hbelow])
  · rintro ⟨hroot, hchildren⟩ path below hbelow
    cases path with
    | nil =>
      cases hbelow
      exact hroot
    | cons key path =>
      obtain ⟨child, hchild, hrest⟩ := Option.bind_eq_some_iff.mp hbelow
      exact hchildren key child hchild path below hrest

theorem bounded_empty : Bounded maxNodeChildren BucketTrie.empty := by
  rw [bounded_iff]
  exact ⟨Nat.zero_le _, fun key child hchild => by cases hchild⟩

theorem Bounded.childOrEmpty (h : Bounded maxNodeChildren node) (key : Text) :
    Bounded maxNodeChildren (node.childOrEmpty key) := by
  unfold BucketTrie.childOrEmpty
  cases hchild : node.children.find? key with
  | none => exact bounded_empty
  | some child => exact (bounded_iff.mp h).2 key child hchild

/-- The keyed children are those behind any edge but the wildcard. -/
theorem keyedChildren_eq (h : node.children.keys.Nodup) :
    node.keyedChildren = (node.children.keys.filter (· ≠ wildcardText)).length := by
  unfold keyedChildren
  split
  · rename_i hmem
    rw [← List.length_erase_of_mem hmem, h.erase_eq_filter]
    congr 1
    apply List.filter_congr
    intro key _
    by_cases heq : key = wildcardText <;> simp [heq]
  · rename_i hmem
    rw [List.filter_eq_self.mpr]
    · rfl
    · intro key hkey
      apply decide_eq_true
      intro heq
      exact hmem (heq ▸ hkey)

variable {other : PrefixNode}

theorem edgeFor_congr (h : node.children.keys.Perm other.children.keys) (head : Text) :
    edgeFor maxNodeChildren node head = edgeFor maxNodeChildren other head := by
  unfold edgeFor keyedChildren
  simp only [h.mem_iff, h.length_eq]

/-- Tight tries with the same items have the same edges. -/
theorem keys_perm (hnode : node.Tight) (hother : other.Tight)
    (hitems : ∀ entry, entry ∈ node.items ↔ entry ∈ other.items) :
    node.children.keys.Perm other.children.keys := by
  refine (List.perm_ext_iff_of_nodup (BucketTrie.tight_iff.mp hnode).1
    (BucketTrie.tight_iff.mp hother).1).mpr fun key => ?_
  rw [hnode.mem_keys_iff, hother.mem_keys_iff]
  simp only [hitems]

/-- Tight tries with the same items route every line the same way. -/
theorem route_congr (hnode : node.Tight) (hother : other.Tight)
    (hitems : ∀ entry, entry ∈ node.items ↔ entry ∈ other.items) (path : List Text) :
    route maxNodeChildren node path = route maxNodeChildren other path := by
  induction path generalizing node other with
  | nil => rfl
  | cons head tail ih =>
    have hedge : edgeFor maxNodeChildren node head = edgeFor maxNodeChildren other head :=
      edgeFor_congr (keys_perm hnode hother hitems) head
    simp only [route, hedge]
    rw [ih (hnode.childOrEmpty _) (hother.childOrEmpty _)]
    rintro ⟨rest, leaf⟩
    rw [← hnode.mem_items_cons, ← hother.mem_items_cons]
    exact hitems _

/-- A path of a bounded trie is its own route in every tight part of the trie. -/
theorem route_of_part {whole : PrefixNode} (hnode : node.Tight) (hwhole : whole.Tight)
    (hbounded : Bounded maxNodeChildren whole)
    (hitems : ∀ entry, entry ∈ node.items → entry ∈ whole.items) {path : List Text} {leaf : Leaf}
    (hmem : (path, leaf) ∈ whole.items) : route maxNodeChildren node path = path := by
  induction path generalizing node whole with
  | nil => rfl
  | cons head tail ih =>
    have hedge : edgeFor maxNodeChildren node head = head := by
      unfold edgeFor
      split
      · rfl
      · rename_i hunseen
        split
        · rename_i hfull
          by_contra hne
          -- The part's keyed edges and this one are among the whole's, which are too few.
          have hnodup := (BucketTrie.tight_iff.mp hnode).1
          have hwholeNodup := (BucketTrie.tight_iff.mp hwhole).1
          have hsubset : (head :: node.children.keys.filter (· ≠ wildcardText)) ⊆
              whole.children.keys.filter (· ≠ wildcardText) := by
            intro key hkey
            rw [List.mem_filter]
            rcases List.mem_cons.mp hkey with rfl | hold
            · exact ⟨hwhole.mem_keys_iff.mpr ⟨tail, leaf, hmem⟩, by simpa using Ne.symm hne⟩
            · obtain ⟨hin, hkeyed⟩ := List.mem_filter.mp hold
              obtain ⟨path, item, hitem⟩ := hnode.mem_keys_iff.mp hin
              exact ⟨hwhole.mem_keys_iff.mpr ⟨path, item, hitems _ hitem⟩, hkeyed⟩
          have hcons : (head :: node.children.keys.filter (· ≠ wildcardText)).Nodup :=
            List.nodup_cons.mpr ⟨fun hin => hunseen (List.mem_filter.mp hin).1, hnodup.filter _⟩
          have hlength := (hcons.subperm hsubset).length_le
          have hroot := (bounded_iff.mp hbounded).1
          rw [keyedChildren_eq hnodup] at hfull
          rw [keyedChildren_eq hwholeNodup] at hroot
          simp only [List.length_cons] at hlength
          omega
        · rfl
    simp only [route, hedge]
    rw [ih (hnode.childOrEmpty head) (hwhole.childOrEmpty head) (hbounded.childOrEmpty head)]
    · rintro ⟨rest, item⟩ hitem
      exact hwhole.mem_items_cons.mp (hitems _ (hnode.mem_items_cons.mpr hitem))
    · exact hwhole.mem_items_cons.mp hmem

theorem keyedChildren_setChild_le (head : Text) (child : PrefixNode)
    (h : node.keyedChildren ≤ maxNodeChildren) :
    keyedChildren (node.setChild (edgeFor maxNodeChildren node head) child) ≤ maxNodeChildren := by
  by_cases hold : edgeFor maxNodeChildren node head ∈ node.children.keys
  · unfold keyedChildren at h ⊢
    rw [BucketTrie.children_setChild, Forest.keys_set, if_pos hold]
    exact h
  · have hseen : head ∉ node.children.keys := by
      intro hin
      rw [edgeFor, if_pos hin] at hold
      exact hold hin
    have hkeys : (node.setChild (edgeFor maxNodeChildren node head) child).children.keys =
        node.children.keys ++ [edgeFor maxNodeChildren node head] := by
      rw [BucketTrie.children_setChild, Forest.keys_set, if_neg hold]
    rw [keyedChildren, hkeys, List.length_append, List.length_singleton]
    by_cases hfull : maxNodeChildren ≤ node.keyedChildren
    · have hedge : edgeFor maxNodeChildren node head = wildcardText := by
        rw [edgeFor, if_neg hseen, if_pos hfull]
      rw [hedge] at hold ⊢
      rw [keyedChildren, if_neg hold] at h
      rw [if_pos (by simp)]
      omega
    · have hgrown : node.children.keys.length + 1 -
          (if wildcardText ∈ node.children.keys ++ [edgeFor maxNodeChildren node head]
            then 1 else 0) ≤ node.keyedChildren + 1 := by
        unfold keyedChildren
        split
        · split <;> omega
        · rename_i hnone
          rw [if_neg (fun hin => hnone (List.mem_append_left _ hin))]
          omega
      omega

/-- A routed write keeps every node within the limit. -/
theorem Bounded.descend (h : Bounded maxNodeChildren node) (f : List Leaf → List Leaf)
    (path : List Text) :
    Bounded maxNodeChildren (descendRecursively maxNodeChildren f node path) := by
  induction path generalizing node with
  | nil =>
    have hroot := bounded_iff.mp h
    rw [descendRecursively, bounded_iff]
    exact hroot
  | cons head tail ih =>
    obtain ⟨hroot, hchildren⟩ := bounded_iff.mp h
    rw [descendRecursively, bounded_iff]
    refine ⟨keyedChildren_setChild_le head _ hroot, ?_⟩
    intro key child hchild
    rw [BucketTrie.children_setChild] at hchild
    by_cases hkey : key = edgeFor maxNodeChildren node head
    · subst hkey
      rw [Forest.find?_set_self] at hchild
      cases hchild
      exact ih (h.childOrEmpty _)
    · rw [Forest.find?_set_of_ne hkey] at hchild
      exact hchildren key child hchild

theorem Bounded.mapItems (h : Bounded maxNodeChildren node) (f : Leaf → Leaf) :
    Bounded maxNodeChildren (BucketTrie.mapItems f node) := by
  intro path below hbelow
  rw [BucketTrie.nodeAt?_mapItems] at hbelow
  obtain ⟨old, hold, rfl⟩ := Option.map_eq_some_iff.mp hbelow
  have hle := h path old hold
  unfold keyedChildren at hle ⊢
  rw [BucketTrie.children_mapItems, BucketTrie.keys_mapChildItems]
  exact hle

end PrefixNode

/-! ### The whole tree -/

namespace Tree

variable {tree : Tree} {maxNodeChildren : Nat}

/-- Every root is tight and within the limit. -/
structure Sound (maxNodeChildren : Nat) (tree : Tree) : Prop where
  tight : ∀ length, (tree.rootAt length).Tight
  bounded : ∀ length, PrefixNode.Bounded maxNodeChildren (tree.rootAt length)

theorem sound_empty : empty.Sound maxNodeChildren where
  tight _ := BucketTrie.tight_empty
  bounded _ := PrefixNode.bounded_empty

/-- A node holds the leaves placed at it. -/
theorem Sound.mem_leavesAt_iff (h : tree.Sound maxNodeChildren) {place : Nat × List Text}
    {leaf : Leaf} : leaf ∈ tree.leavesAt place ↔ (place, leaf) ∈ tree.placedLeaves := by
  obtain ⟨length, path⟩ := place
  rw [mem_placedLeaves_iff]
  exact (h.tight length).mem_bucketAt_iff

theorem rootAt_descendMut (tree : Tree) (masked : List Text) (prefixDepth maxNodeChildren : Nat)
    (f : List Leaf → List Leaf) (length : Nat) :
    (tree.descendMut masked prefixDepth maxNodeChildren f).rootAt length =
      if length = masked.length then
        PrefixNode.descendRecursively maxNodeChildren f (tree.rootAt masked.length)
          (walkPath masked prefixDepth)
      else tree.rootAt length := by
  unfold descendMut rootAt
  rw [lookup_insert_ite]
  split <;> rfl

/-- A write that leaves its node occupied keeps the tree sound. -/
theorem Sound.descendMut (h : tree.Sound maxNodeChildren) {masked : List Text}
    {prefixDepth : Nat} {f : List Leaf → List Leaf}
    (hf : f (tree.leavesAt (tree.placeOf masked prefixDepth maxNodeChildren)) ≠ []) :
    (tree.descendMut masked prefixDepth maxNodeChildren f).Sound maxNodeChildren := by
  constructor
  · intro length
    rw [rootAt_descendMut]
    split
    · rw [PrefixNode.descendRecursively_eq_modifyAt]
      exact (h.tight masked.length).modifyAt hf
    · exact h.tight length
  · intro length
    rw [rootAt_descendMut]
    split
    · exact (h.bounded masked.length).descend f _
    · exact h.bounded length

theorem rootAt_updateLeaf (tree : Tree) (length templateId : Nat) (f : Leaf → Leaf)
    (other : Nat) : (tree.updateLeaf length templateId f).rootAt other =
      if other = length then (tree.rootAt length).mapItems fun leaf =>
        if leaf.templateId = templateId then f leaf else leaf
      else tree.rootAt other := by
  unfold updateLeaf
  cases hlookup : tree.byLength.lookup length with
  | none =>
    dsimp only
    split
    · rename_i hsame
      rw [hsame, rootAt, hlookup]
      rfl
    · rfl
  | some root =>
    unfold rootAt
    rw [lookup_insert_ite, hlookup]
    split <;> rfl

variable (h : tree.Sound maxNodeChildren)
include h

theorem Sound.updateLeaf (length templateId : Nat)
    (f : Leaf → Leaf) : (tree.updateLeaf length templateId f).Sound maxNodeChildren := by
  constructor
  · intro other
    rw [rootAt_updateLeaf]
    split
    · exact (h.tight length).mapItems _
    · exact h.tight other
  · intro other
    rw [rootAt_updateLeaf]
    split
    · exact (h.bounded length).mapItems _
    · exact h.bounded other

/-- Sound trees with the same placed leaves route every line to the same place. -/
theorem Sound.placeOf_eq {other : Tree} (hother : other.Sound maxNodeChildren)
    (hplaced : ∀ entry, entry ∈ tree.placedLeaves ↔ entry ∈ other.placedLeaves)
    (masked : List Text) (prefixDepth : Nat) :
    tree.placeOf masked prefixDepth maxNodeChildren =
      other.placeOf masked prefixDepth maxNodeChildren := by
  unfold placeOf
  rw [PrefixNode.route_congr (h.tight _) (hother.tight _)]
  rintro ⟨path, leaf⟩
  rw [← mem_placedLeaves_iff, ← mem_placedLeaves_iff]
  exact hplaced _

/-- A walk along a leaf's own path, in a sound part of a sound tree, ends where the
leaf is placed. -/
theorem Sound.placeOf_of_part {whole : Tree} (hwhole : whole.Sound maxNodeChildren)
    (hpart : ∀ entry ∈ tree.placedLeaves, entry ∈ whole.placedLeaves) {masked : List Text}
    {prefixDepth : Nat} {leaf : Leaf}
    (hleaf : ((masked.length, walkPath masked prefixDepth), leaf) ∈ whole.placedLeaves) :
    tree.placeOf masked prefixDepth maxNodeChildren =
      (masked.length, walkPath masked prefixDepth) := by
  unfold placeOf
  rw [PrefixNode.route_of_part (h.tight _) (hwhole.tight _) (hwhole.bounded _) ?_
    (mem_placedLeaves_iff.mp hleaf)]
  rintro ⟨path, item⟩ hitem
  exact mem_placedLeaves_iff.mp (hpart _ (mem_placedLeaves_iff.mpr hitem))

end Tree

/-- Every move keeps the tree sound. -/
theorem TenantMove.sound {record : OtlpLogRecord} {tokens : List Text} {fresh : Option Nat}
    {before after : TenantState} {changes : List (Nat × TemplateChange)}
    (h : TenantMove record tokens fresh before changes after)
    (hbefore : before.tree.Sound before.config.maxNodeChildren) :
    after.tree.Sound after.config.maxNodeChildren := by
  rw [h.config_eq]
  cases h with
  | opened | observeOwned | intern | structured => exact hbefore
  | mint | converge => exact hbefore.descendMut (by simp)
  | attach steps observed htokens hleaf hseverity hscope hevolves =>
    rw [TenantState.attachLeaf, TenantState.tree_moveCanonical]
    refine hbefore.descendMut ?_
    rw [Ne, List.set_eq_nil_iff]
    exact List.ne_nil_of_mem (List.mem_of_getElem? hleaf)
  | reject wouldBeTemplate wouldBePositions hleaf =>
    refine hbefore.descendMut ?_
    rw [Ne, List.set_eq_nil_iff]
    exact List.ne_nil_of_mem (List.mem_of_getElem? hleaf)
  | adoptLeaf template hadopted hexact hmode => exact hbefore.updateLeaf _ _ _

end Ourios.Miner
