/-
# Tries with a bucket of items at every node

A trie over an arbitrary key type whose edges carry keys and whose nodes carry
a list of items. A path of keys names a node; writing at a path creates the
missing nodes and rewrites one bucket. Everything a client needs about a write
is one frame statement: the flattened items before and after the write differ
only in the rewritten bucket.
-/

import Mathlib.Data.List.Nodup

namespace Ourios.Foundation

universe u v

mutual

/-- A node: the child edges and the items stored at the node itself. -/
inductive BucketTrie (κ : Type u) (ι : Type v)
  | node (children : Forest κ ι) (bucket : List ι)

/-- The child edges of one node, in insertion order. -/
inductive Forest (κ : Type u) (ι : Type v)
  | nil
  | cons (key : κ) (child : BucketTrie κ ι) (rest : Forest κ ι)

end

variable {κ : Type u} {ι : Type v}

namespace Forest

def keys : Forest κ ι → List κ
  | nil => []
  | cons key _ rest => key :: rest.keys

variable [DecidableEq κ]

def find? (key : κ) : Forest κ ι → Option (BucketTrie κ ι)
  | nil => none
  | cons k child rest => if k = key then some child else rest.find? key

/-- Replace the child at `key`, or add the edge after the existing ones. -/
def set (key : κ) (child : BucketTrie κ ι) : Forest κ ι → Forest κ ι
  | nil => cons key child nil
  | cons k old rest => if k = key then cons k child rest else cons k old (rest.set key child)

@[simp]
theorem find?_set_self (key : κ) (child : BucketTrie κ ι) (forest : Forest κ ι) :
    (forest.set key child).find? key = some child := by
  match forest with
  | nil => simp [set, find?]
  | cons k old rest =>
    by_cases hk : k = key
    · simp [set, find?, hk]
    · simpa [set, find?, hk] using find?_set_self key child rest

@[simp]
theorem find?_set_of_ne {key other : κ} (hne : other ≠ key) (child : BucketTrie κ ι)
    (forest : Forest κ ι) : (forest.set key child).find? other = forest.find? other := by
  match forest with
  | nil => simp [set, find?, hne.symm]
  | cons k old rest =>
    by_cases hk : k = key
    · subst hk
      simp [set, find?, hne.symm]
    · by_cases ho : k = other
      · subst ho
        simp [set, find?, hne]
      · simpa [set, find?, hk, ho] using find?_set_of_ne hne child rest

theorem find?_isSome_iff (key : κ) (forest : Forest κ ι) :
    (forest.find? key).isSome ↔ key ∈ forest.keys := by
  match forest with
  | nil => simp [find?, keys]
  | cons k child rest =>
    by_cases hk : k = key
    · simp [find?, keys, hk]
    · simpa [find?, keys, hk, Ne.symm hk] using find?_isSome_iff key rest

theorem find?_eq_none_iff (key : κ) (forest : Forest κ ι) :
    forest.find? key = none ↔ key ∉ forest.keys := by
  rw [← find?_isSome_iff, Bool.not_eq_true, Option.isSome_eq_false_iff, Option.isNone_iff_eq_none]

/-- Writing at a key leaves the key list alone, or appends the new key. -/
theorem keys_set (key : κ) (child : BucketTrie κ ι) (forest : Forest κ ι) :
    (forest.set key child).keys =
      if key ∈ forest.keys then forest.keys else forest.keys ++ [key] := by
  match forest with
  | nil => simp [set, keys]
  | cons k old rest =>
    by_cases hk : k = key
    · simp [set, keys, hk]
    · have ih := keys_set key child rest
      by_cases hmem : key ∈ rest.keys
      · simp [set, keys, hk, Ne.symm hk, ih, hmem]
      · simp [set, keys, hk, Ne.symm hk, ih, hmem]

/-- Writing back what is there changes nothing. -/
theorem set_eq_self {key : κ} {child : BucketTrie κ ι} {forest : Forest κ ι}
    (h : forest.find? key = some child) : forest.set key child = forest := by
  match forest with
  | nil => cases h
  | cons k old rest =>
    by_cases hk : k = key
    · simp only [find?, hk, if_true, Option.some.injEq] at h
      simp [set, hk, h]
    · simp only [find?, hk, if_false] at h
      simp [set, hk, set_eq_self h]

theorem nodup_keys_set {key : κ} {child : BucketTrie κ ι} {forest : Forest κ ι}
    (hnodup : forest.keys.Nodup) : (forest.set key child).keys.Nodup := by
  rw [keys_set]
  split
  · exact hnodup
  · rename_i hmem
    rw [List.nodup_append]
    refine ⟨hnodup, List.nodup_singleton key, ?_⟩
    intro a ha b hb hab
    rw [List.mem_singleton] at hb
    exact hmem (hb ▸ hab ▸ ha)

end Forest

namespace BucketTrie

/-- The trie with no edges and an empty bucket. -/
def empty : BucketTrie κ ι := node .nil []

instance : Inhabited (BucketTrie κ ι) := ⟨empty⟩

def children : BucketTrie κ ι → Forest κ ι
  | node children _ => children

/-- The items stored at the root. -/
def bucket : BucketTrie κ ι → List ι
  | node _ bucket => bucket

@[simp] theorem children_node (c : Forest κ ι) (b : List ι) : (node c b).children = c := rfl

@[simp] theorem bucket_node (c : Forest κ ι) (b : List ι) : (node c b).bucket = b := rfl

@[simp] theorem node_children_bucket (trie : BucketTrie κ ι) :
    node trie.children trie.bucket = trie := by
  cases trie
  rfl

mutual

/-- Every item of the trie with the path of the node that holds it. -/
def items : BucketTrie κ ι → List (List κ × ι)
  | node children bucket => bucket.map (fun item => ([], item)) ++ childItems children

def childItems : Forest κ ι → List (List κ × ι)
  | .nil => []
  | .cons key child rest =>
    (items child).map (fun entry => (key :: entry.1, entry.2)) ++ childItems rest

end

mutual

/-- Rewrite every item in place. -/
def mapItems (f : ι → ι) : BucketTrie κ ι → BucketTrie κ ι
  | node children bucket => node (mapChildItems f children) (bucket.map f)

/-- Rewrite every item below a list of child edges. -/
def mapChildItems (f : ι → ι) : Forest κ ι → Forest κ ι
  | .nil => .nil
  | .cons key child rest => .cons key (mapItems f child) (mapChildItems f rest)

end

mutual

/-- Rewriting items in place rewrites the flattened items and moves none. -/
theorem items_mapItems (f : ι → ι) (trie : BucketTrie κ ι) :
    (mapItems f trie).items = trie.items.map (fun entry => (entry.1, f entry.2)) := by
  match trie with
  | node children bucket =>
    simp [mapItems, items, childItems_mapChildItems f children, Function.comp_def]

theorem childItems_mapChildItems (f : ι → ι) (forest : Forest κ ι) :
    childItems (mapChildItems f forest) =
      (childItems forest).map (fun entry => (entry.1, f entry.2)) := by
  match forest with
  | .nil => simp [mapChildItems, childItems]
  | .cons key child rest =>
    simp [mapChildItems, childItems, items_mapItems f child,
      childItems_mapChildItems f rest, Function.comp_def]

end

variable [DecidableEq κ]

/-- The child reached by `key`, or the empty trie where the edge is missing. -/
def childOrEmpty (trie : BucketTrie κ ι) (key : κ) : BucketTrie κ ι :=
  (trie.children.find? key).getD empty

def setChild (trie : BucketTrie κ ι) (key : κ) (child : BucketTrie κ ι) : BucketTrie κ ι :=
  node (trie.children.set key child) trie.bucket

@[simp] theorem children_setChild (trie : BucketTrie κ ι) (key : κ) (child : BucketTrie κ ι) :
    (trie.setChild key child).children = trie.children.set key child := rfl

/-- The node a path names, where every edge of it exists. -/
def nodeAt? (trie : BucketTrie κ ι) : List κ → Option (BucketTrie κ ι)
  | [] => some trie
  | key :: path => (trie.children.find? key).bind fun child => child.nodeAt? path

/-- The bucket at a path; a path that leaves the trie holds nothing. -/
def bucketAt (trie : BucketTrie κ ι) (path : List κ) : List ι :=
  ((trie.nodeAt? path).map bucket).getD []

/-- Rewrite the bucket at a path, creating the nodes that are missing. -/
def modifyAt (f : List ι → List ι) (trie : BucketTrie κ ι) : List κ → BucketTrie κ ι
  | [] => node trie.children (f trie.bucket)
  | key :: path => trie.setChild key (modifyAt f (trie.childOrEmpty key) path)

@[simp] theorem nodeAt?_nil (trie : BucketTrie κ ι) : trie.nodeAt? [] = some trie := rfl

@[simp] theorem nodeAt?_cons (trie : BucketTrie κ ι) (key : κ) (path : List κ) :
    trie.nodeAt? (key :: path) =
      (trie.children.find? key).bind fun child => child.nodeAt? path := rfl

@[simp] theorem bucketAt_nil (trie : BucketTrie κ ι) : trie.bucketAt [] = trie.bucket := rfl

@[simp] theorem bucketAt_empty (path : List κ) :
    (empty : BucketTrie κ ι).bucketAt path = [] := by
  cases path <;> rfl

theorem bucketAt_cons (trie : BucketTrie κ ι) (key : κ) (path : List κ) :
    trie.bucketAt (key :: path) = (trie.childOrEmpty key).bucketAt path := by
  unfold childOrEmpty
  cases hfind : trie.children.find? key with
  | none => rw [Option.getD_none, bucketAt_empty]; simp [bucketAt, hfind]
  | some child => simp [bucketAt, hfind]

theorem childItems_set (key : κ) (old : BucketTrie κ ι) (forest : Forest κ ι)
    (hold : (forest.find? key).getD empty = old) :
    ∃ before after, childItems forest =
        before ++ (old.items).map (fun entry => (key :: entry.1, entry.2)) ++ after ∧
      ∀ child, childItems (forest.set key child) =
        before ++ (child.items).map (fun entry => (key :: entry.1, entry.2)) ++ after := by
  match forest with
  | .nil =>
    refine ⟨[], [], ?_, fun child => ?_⟩
    · have : old = empty := by simpa [Forest.find?] using hold.symm
      simp [childItems, this, empty, items]
    · simp [Forest.set, childItems]
  | .cons k child rest =>
    by_cases hk : k = key
    · subst hk
      have : child = old := by simpa [Forest.find?] using hold
      subst this
      exact ⟨[], childItems rest, by simp [childItems], fun new => by
        simp [Forest.set, childItems]⟩
    · have hrest : (rest.find? key).getD empty = old := by simpa [Forest.find?, hk] using hold
      obtain ⟨before, after, hitems, hset⟩ := childItems_set key old rest hrest
      refine ⟨(items child).map (fun entry => (k :: entry.1, entry.2)) ++ before, after, ?_,
        fun new => ?_⟩
      · simp [childItems, hitems]
      · simp [Forest.set, hk, childItems, hset new]

/-- A write at one path is invisible everywhere else: the flattened items split
around the rewritten bucket, and only that bucket changes. -/
theorem items_modifyAt (trie : BucketTrie κ ι) (path : List κ) :
    ∃ before after,
      trie.items = before ++ (trie.bucketAt path).map (fun item => (path, item)) ++ after ∧
      ∀ f, (modifyAt f trie path).items =
        before ++ (f (trie.bucketAt path)).map (fun item => (path, item)) ++ after := by
  induction path generalizing trie with
  | nil =>
    cases trie with
    | node children bucket =>
      exact ⟨[], childItems children, by simp [items], fun f => by simp [modifyAt, items]⟩
  | cons key path ih =>
    obtain ⟨before, after, hitems, hmodify⟩ := ih (trie.childOrEmpty key)
    obtain ⟨left, right, hforest, hset⟩ :=
      childItems_set key (trie.childOrEmpty key) trie.children rfl
    refine ⟨trie.bucket.map (fun item => ([], item)) ++ left ++
        before.map (fun entry => (key :: entry.1, entry.2)),
      after.map (fun entry => (key :: entry.1, entry.2)) ++ right, ?_, fun f => ?_⟩
    · have : trie.items = trie.bucket.map (fun item => ([], item)) ++
          childItems trie.children := by
        cases trie
        rfl
      rw [this, hforest, hitems, bucketAt_cons]
      simp [Function.comp_def]
    · rw [bucketAt_cons]
      simp only [modifyAt, setChild, items, hset, hmodify]
      simp [Function.comp_def]

/-! ### Tight tries

A trie that was built by writes alone has no edge that leads nowhere, and no two
edges of one node share a key. Such a trie is known by its items. -/

/-- No node has two edges with one key, and every edge leads to an item. -/
def Tight (trie : BucketTrie κ ι) : Prop :=
  ∀ path node, trie.nodeAt? path = some node → node.children.keys.Nodup ∧
    ∀ key child, node.children.find? key = some child → child.items ≠ []

variable {trie : BucketTrie κ ι} {key : κ} {path : List κ} {item : ι}

/-- A trie is tight when its root is and its children are. -/
theorem tight_iff : trie.Tight ↔ trie.children.keys.Nodup ∧
    ∀ key child, trie.children.find? key = some child → child.items ≠ [] ∧ child.Tight := by
  constructor
  · intro h
    refine ⟨(h [] trie rfl).1, fun key child hchild => ⟨(h [] trie rfl).2 key child hchild, ?_⟩⟩
    intro path node hnode
    exact h (key :: path) node (by simp [hchild, hnode])
  · rintro ⟨hnodup, hchildren⟩ path node hnode
    cases path with
    | nil =>
      cases hnode
      exact ⟨hnodup, fun key child hchild => (hchildren key child hchild).1⟩
    | cons key path =>
      obtain ⟨child, hchild, hrest⟩ := Option.bind_eq_some_iff.mp hnode
      exact (hchildren key child hchild).2 path node hrest

theorem tight_empty : (empty : BucketTrie κ ι).Tight := by
  rw [tight_iff]
  exact ⟨List.nodup_nil, fun key child hchild => by cases hchild⟩

theorem Tight.childOrEmpty (h : trie.Tight) (key : κ) :
    (trie.childOrEmpty key).Tight := by
  unfold BucketTrie.childOrEmpty
  cases hchild : trie.children.find? key with
  | none => exact tight_empty
  | some child => exact ((tight_iff.mp h).2 key child hchild).2

omit [DecidableEq κ] in
@[simp] theorem items_empty : (empty : BucketTrie κ ι).items = [] := by
  simp [empty, items, childItems]

omit [DecidableEq κ] in
theorem path_ne_nil_of_mem_childItems {forest : Forest κ ι} {entry : List κ × ι}
    (h : entry ∈ childItems forest) : entry.1 ≠ [] := by
  match forest with
  | .nil => simp [childItems] at h
  | .cons key child rest =>
    rcases List.mem_append.mp (by simpa only [childItems] using h) with hhere | hlater
    · obtain ⟨inner, -, rfl⟩ := List.mem_map.mp hhere
      simp
    · exact path_ne_nil_of_mem_childItems hlater

omit [DecidableEq κ] in
theorem mem_keys_of_mem_childItems {forest : Forest κ ι}
    (h : (key :: path, item) ∈ childItems forest) : key ∈ forest.keys := by
  match forest with
  | .nil => simp [childItems] at h
  | .cons k child rest =>
    rcases List.mem_append.mp (by simpa only [childItems] using h) with hhere | hlater
    · obtain ⟨inner, -, heq⟩ := List.mem_map.mp hhere
      simp only [Prod.mk.injEq, List.cons.injEq] at heq
      simp [Forest.keys, heq.1.1]
    · exact List.mem_cons_of_mem _ (mem_keys_of_mem_childItems hlater)

/-- The items below an edge are those of the child it leads to. -/
theorem mem_childItems_iff {forest : Forest κ ι} (hnodup : forest.keys.Nodup) :
    (key :: path, item) ∈ childItems forest ↔
      (path, item) ∈ ((forest.find? key).getD empty).items := by
  match forest with
  | .nil => simp [childItems, Forest.find?]
  | .cons k child rest =>
    obtain ⟨hk, hrest⟩ := List.nodup_cons.mp hnodup
    rw [childItems, List.mem_append]
    by_cases heq : k = key
    · subst heq
      have hlater : (k :: path, item) ∉ childItems rest := fun hmem =>
        hk (mem_keys_of_mem_childItems hmem)
      simp [Forest.find?, hlater]
    · rw [mem_childItems_iff hrest]
      simp [Forest.find?, heq]

omit [DecidableEq κ] in
theorem mem_items_nil :
    ([], item) ∈ trie.items ↔ item ∈ trie.bucket := by
  cases trie with
  | node children bucket =>
    have hnot : ([], item) ∉ childItems children := fun hmem =>
      path_ne_nil_of_mem_childItems hmem rfl
    simp [items, hnot]

theorem Tight.mem_items_cons (h : trie.Tight) : (key :: path, item) ∈ trie.items ↔
      (path, item) ∈ (trie.childOrEmpty key).items := by
  have hnodup := (tight_iff.mp h).1
  cases trie with
  | node children bucket =>
    rw [items, List.mem_append, BucketTrie.childOrEmpty, ← mem_childItems_iff hnodup]
    simp

/-- An edge is there exactly when some item lies behind it. -/
theorem Tight.mem_keys_iff (h : trie.Tight) :
    key ∈ trie.children.keys ↔ ∃ path item, (key :: path, item) ∈ trie.items := by
  constructor
  · intro hkey
    obtain ⟨child, hchild⟩ :=
      Option.isSome_iff_exists.mp ((Forest.find?_isSome_iff key trie.children).mpr hkey)
    obtain ⟨⟨path, item⟩, hitem⟩ :=
      List.exists_mem_of_ne_nil _ ((tight_iff.mp h).2 key child hchild).1
    refine ⟨path, item, h.mem_items_cons.mpr ?_⟩
    simpa [BucketTrie.childOrEmpty, hchild] using hitem
  · rintro ⟨path, item, hitem⟩
    cases trie with
    | node children bucket =>
      rcases List.mem_append.mp (by simpa only [items] using hitem) with hhere | hlater
      · obtain ⟨_, -, heq⟩ := List.mem_map.mp hhere
        cases heq
      · exact mem_keys_of_mem_childItems hlater

/-- A bucket holds the items of its path. -/
theorem Tight.mem_bucketAt_iff (h : trie.Tight) :
    item ∈ trie.bucketAt path ↔ (path, item) ∈ trie.items := by
  induction path generalizing trie with
  | nil => rw [bucketAt_nil, mem_items_nil]
  | cons key path ih => rw [bucketAt_cons, ih (h.childOrEmpty key), h.mem_items_cons]

theorem items_modifyAt_ne_nil {f : List ι → List ι} (hf : f (trie.bucketAt path) ≠ []) :
    (modifyAt f trie path).items ≠ [] := by
  obtain ⟨before, after, -, hitems⟩ := items_modifyAt trie path
  rw [hitems f]
  simp [hf]

/-- A write that leaves its bucket occupied keeps the trie tight. -/
theorem Tight.modifyAt {f : List ι → List ι} (h : trie.Tight) (hf : f (trie.bucketAt path) ≠ []) :
    (modifyAt f trie path).Tight := by
  induction path generalizing trie with
  | nil =>
    have hroot := tight_iff.mp h
    rw [BucketTrie.modifyAt, tight_iff]
    exact hroot
  | cons key path ih =>
    rw [bucketAt_cons] at hf
    obtain ⟨hnodup, hchildren⟩ := tight_iff.mp h
    rw [BucketTrie.modifyAt, tight_iff, children_setChild]
    refine ⟨Forest.nodup_keys_set hnodup, ?_⟩
    intro other child hchild
    by_cases hother : other = key
    · subst hother
      rw [Forest.find?_set_self] at hchild
      cases hchild
      exact ⟨items_modifyAt_ne_nil hf, ih (h.childOrEmpty other) hf⟩
    · rw [Forest.find?_set_of_ne hother] at hchild
      exact hchildren other child hchild

theorem find?_mapChildItems (f : ι → ι) (forest : Forest κ ι) (key : κ) :
    (mapChildItems f forest).find? key = (forest.find? key).map (mapItems f) := by
  match forest with
  | .nil => rfl
  | .cons k child rest =>
    rw [mapChildItems, Forest.find?, Forest.find?]
    split
    · rfl
    · exact find?_mapChildItems f rest key

omit [DecidableEq κ] in
theorem keys_mapChildItems (f : ι → ι) (forest : Forest κ ι) :
    (mapChildItems f forest).keys = forest.keys := by
  match forest with
  | .nil => rfl
  | .cons k child rest => simp [mapChildItems, Forest.keys, keys_mapChildItems f rest]

omit [DecidableEq κ] in
@[simp] theorem children_mapItems (f : ι → ι) (trie : BucketTrie κ ι) :
    (mapItems f trie).children = mapChildItems f trie.children := by
  cases trie
  rfl

theorem nodeAt?_mapItems (f : ι → ι) (trie : BucketTrie κ ι) (path : List κ) :
    (mapItems f trie).nodeAt? path = (trie.nodeAt? path).map (mapItems f) := by
  induction path generalizing trie with
  | nil => rfl
  | cons key path ih =>
    rw [nodeAt?_cons, nodeAt?_cons, children_mapItems, find?_mapChildItems]
    cases trie.children.find? key with
    | none => rfl
    | some child => exact ih child

/-- Rewriting items in place keeps a trie tight. -/
theorem Tight.mapItems (h : trie.Tight) (f : ι → ι) :
    (mapItems f trie).Tight := by
  intro path node hnode
  rw [nodeAt?_mapItems] at hnode
  obtain ⟨old, hold, rfl⟩ := Option.map_eq_some_iff.mp hnode
  obtain ⟨hnodup, hchildren⟩ := h path old hold
  rw [children_mapItems, keys_mapChildItems]
  refine ⟨hnodup, fun key child hchild => ?_⟩
  rw [find?_mapChildItems] at hchild
  obtain ⟨oldChild, holdChild, rfl⟩ := Option.map_eq_some_iff.mp hchild
  rw [items_mapItems]
  simpa using hchildren key oldChild holdChild

end BucketTrie

end Ourios.Foundation
