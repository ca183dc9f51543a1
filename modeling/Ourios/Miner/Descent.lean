/-
# Finding a leaf's place again

A snapshot does not record where a leaf stands. `Follows` says when the place can
be told from the leaf itself: every key on its path is the wildcard edge, or the
leaf's own token at that position, or the tag of the one type the slot there has
seen. Minting and attaching keep it so, as long as no line spells a mask tag in
the tokens it is routed by; and a path that is followed is the one `descentPath`
rebuilds.
-/

import Ourios.Miner.Placement
import Ourios.Miner.RestoreSpec

namespace Ourios.Miner

open Ourios.Foundation

/-- The text is spelled like a mask tag. -/
def spellsTag (text : Text) : Bool :=
  [MaskTag.uuid, .ip, .ts, .num].any fun tag => tag.asStr == text

theorem spellsTag_asStr (tag : MaskTag) : spellsTag tag.asStr = true := by
  cases tag <;> decide

theorem asStr_injective {tag other : MaskTag} (h : tag.asStr = other.asStr) : tag = other := by
  revert h
  cases tag <;> cases other <;> decide

theorem asStr_ne_wildcardText (tag : MaskTag) : tag.asStr ≠ wildcardText := by
  cases tag <;> decide

/-- A path of keys told by a template and its slots. -/
inductive Follows : List Text → List OwnedToken → List SlotTypes → Prop
  | done (template : List OwnedToken) (slots : List SlotTypes) : Follows [] template slots
  | routedFixed {path : List Text} {template : List OwnedToken} {slots : List SlotTypes}
      (text : Text) (later : Follows path template slots) :
      Follows (wildcardText :: path) (.fixed text :: template) slots
  | routedWildcard {path : List Text} {template : List OwnedToken} {slots : List SlotTypes}
      (slot : SlotTypes) (later : Follows path template slots) :
      Follows (wildcardText :: path) (.wildcard :: template) (slot :: slots)
  | literal {path : List Text} {template : List OwnedToken} {slots : List SlotTypes} {text : Text}
      (htag : spellsTag text = false) (later : Follows path template slots) :
      Follows (text :: path) (.fixed text :: template) slots
  | tagged {path : List Text} {template : List OwnedToken} {slots : List SlotTypes}
      (tag : MaskTag) (later : Follows path template slots) :
      Follows (tag.asStr :: path) (.wildcard :: template)
        (SlotTypes.singleton tag.paramType :: slots)

/-- The keys a line is routed by: its masked tokens, or the wildcard edge. -/
def RoutedBy (path masked : List Text) : Prop :=
  List.Forall₂ (fun key token => key = token ∨ key = wildcardText) path masked

theorem PrefixNode.routedBy_route (maxNodeChildren : Nat) (node : PrefixNode) (path : List Text) :
    RoutedBy (route maxNodeChildren node path) path := by
  induction path generalizing node with
  | nil => exact .nil
  | cons head tail ih =>
    refine .cons ?_ (ih _)
    unfold edgeFor
    split
    · exact .inl rfl
    · split
      · exact .inr rfl
      · exact .inl rfl

variable {path tokens : List Text} {depth prefixDepth walkDepth position slot : Nat}
  {template : List OwnedToken} {slots : List SlotTypes} {record : LeafRecord}

/-- A routed path that is not empty has a token and a rest. -/
theorem RoutedBy.cons_inv {key : Text}
    (h : RoutedBy (key :: path) ((tokens.map maskedText).take depth)) :
    ∃ token rest depth', tokens = token :: rest ∧ depth = depth' + 1 ∧
      (key = maskedText token ∨ key = wildcardText) ∧
      RoutedBy path ((rest.map maskedText).take depth') := by
  cases tokens with
  | nil =>
    simp only [List.map_nil, List.take_nil] at h
    cases h
  | cons token rest =>
    cases depth with
    | zero =>
      cases h
    | succ depth =>
      cases h with
      | cons hkey hrest => exact ⟨token, rest, depth, rfl, rfl, hkey, hrest⟩

/-- The tokens a line is routed by spell no mask tag. -/
def TagFree (prefixDepth : Nat) (tokens : List Text) : Prop :=
  ∀ token ∈ tokens.take prefixDepth, spellsTag token = false

instance (prefixDepth : Nat) (tokens : List Text) : Decidable (TagFree prefixDepth tokens) :=
  inferInstanceAs (Decidable (∀ token ∈ tokens.take prefixDepth, spellsTag token = false))

theorem TagFree.tail {token : Text} (h : TagFree (depth + 1) (token :: tokens)) :
    TagFree depth tokens :=
  fun other hother => h other (List.mem_cons_of_mem _ hother)

/-- A fresh leaf can be found by the path its line was routed along. -/
theorem follows_fresh (i : Nat) (hpath : RoutedBy path ((tokens.map maskedText).take depth))
    (htags : TagFree depth tokens) :
    Follows path (tokens.map freshSlot)
      ((maskFrom i tokens).typedParams.map fun p => SlotTypes.singleton p.typeTag) := by
  induction path generalizing i tokens depth with
  | nil => exact .done _ _
  | cons key path ih =>
    obtain ⟨token, rest, depth, rfl, rfl, hkey, hrest⟩ := hpath.cons_inv
    have hlater := ih (i + 1) hrest htags.tail
    cases hclass : classify token with
    | some tag =>
      simp only [maskedText, hclass] at hkey
      simp only [List.map_cons, freshSlot, hclass, Option.isSome_some, if_true, maskFrom]
      rcases hkey with rfl | rfl
      · exact .tagged tag hlater
      · exact .routedWildcard _ hlater
    | none =>
      simp only [maskedText, hclass] at hkey
      simp only [List.map_cons, freshSlot, hclass, Option.isSome_none, maskFrom]
      rcases hkey with rfl | rfl
      · exact .literal (htags _ List.mem_cons_self) hlater
      · exact .routedFixed token hlater

theorem attachSlots_wildcard (token : Text) (tokens : List Text) (template : List OwnedToken)
    (slot : SlotTypes) (slots : List SlotTypes) :
    attachSlots (token :: tokens) (.wildcard :: template) (slot :: slots) =
      slot.insert (maskedType token) :: attachSlots tokens template slots := rfl

theorem attachSlots_accepted {token text : Text} (h : slotAccepts token (.fixed text) = true)
    (tokens : List Text) (template : List OwnedToken) (slots : List SlotTypes) :
    attachSlots (token :: tokens) (.fixed text :: template) slots =
      attachSlots tokens template slots := by
  simp [attachSlots, widenSlots, expandSlots, h]

theorem attachSlots_refused {token text : Text} (h : slotAccepts token (.fixed text) = false)
    (tokens : List Text) (template : List OwnedToken) (slots : List SlotTypes) :
    attachSlots (token :: tokens) (.fixed text :: template) slots =
      (SlotTypes.singleton .str).insert (maskedType token) ::
        attachSlots tokens template slots := by
  simp [attachSlots, widenSlots, expandSlots, h]

/-- Behind the wildcard edge a slot may do as it likes. -/
theorem Follows.attachRouted (token text : Text)
    (later : Follows path (widenTemplate tokens template) (attachSlots tokens template slots)) :
    Follows (wildcardText :: path) (widenTemplate (token :: tokens) (.fixed text :: template))
      (attachSlots (token :: tokens) (.fixed text :: template) slots) := by
  rw [widenTemplate_cons, widenSlot]
  cases haccept : slotAccepts token (.fixed text) with
  | true =>
    rw [if_pos rfl, attachSlots_accepted haccept]
    exact .routedFixed text later
  | false =>
    rw [if_neg Bool.false_ne_true, attachSlots_refused haccept]
    exact .routedWildcard _ later

/-- A leaf keeps the path it is found by when a line routed along it attaches. -/
theorem Follows.attach (h : Follows path template slots)
    (hpath : RoutedBy path ((tokens.map maskedText).take depth))
    (htags : TagFree depth tokens) :
    Follows path (widenTemplate tokens template) (attachSlots tokens template slots) := by
  induction h generalizing tokens depth with
  | done template slots => exact .done _ _
  | @routedFixed path template slots text later ih =>
    obtain ⟨token, rest, depth, rfl, rfl, -, hrest⟩ := hpath.cons_inv
    exact Follows.attachRouted token text (ih hrest htags.tail)
  | @routedWildcard path template slots slot later ih =>
    obtain ⟨token, rest, depth, rfl, rfl, -, hrest⟩ := hpath.cons_inv
    exact .routedWildcard _ (ih hrest htags.tail)
  | @literal path template slots text htag later ih =>
    obtain ⟨token, rest, depth, rfl, rfl, hkey, hrest⟩ := hpath.cons_inv
    have hlater := ih hrest htags.tail
    rcases hkey with hkey | rfl
    · -- The token was masked to a text that is no tag, so it was not masked at all.
      have hclass : classify token = none := by
        cases hclass : classify token with
        | none => rfl
        | some tag =>
          rw [maskedText, hclass] at hkey
          rw [hkey, spellsTag_asStr] at htag
          cases htag
      have htext : text = token := by rw [hkey, maskedText, hclass]
      have haccept : slotAccepts token (.fixed text) = true := by
        simp [slotAccepts, hclass, htext]
      rw [widenTemplate_cons, widenSlot, if_pos haccept, attachSlots_accepted haccept]
      exact .literal htag hlater
    · exact Follows.attachRouted token _ hlater
  | @tagged path template slots tag later ih =>
    obtain ⟨token, rest, depth, rfl, rfl, hkey, hrest⟩ := hpath.cons_inv
    have hlater := ih hrest htags.tail
    rw [widenTemplate_cons, attachSlots_wildcard]
    rcases hkey with hkey | hkey
    · -- The token was masked to the tag; it is not the tag spelled out, so it has the type.
      have htype : maskedType token = tag.paramType := by
        cases hclass : classify token with
        | some other =>
          rw [maskedText, hclass] at hkey
          rw [maskedType, hclass, asStr_injective hkey]
        | none =>
          have htext : tag.asStr = token := by rw [hkey, maskedText, hclass]
          have hspelled := htags token List.mem_cons_self
          rw [← htext, spellsTag_asStr] at hspelled
          cases hspelled
      rw [htype, SlotTypes.insert_singleton_self]
      exact .tagged tag hlater
    · exact absurd hkey (asStr_ne_wildcardText tag)

/-! ### Every leaf of a tenant -/

/-- No slot is empty. -/
def SlotsSeen (slots : List SlotTypes) : Prop := ∀ slot ∈ slots, slot.isEmpty = false

theorem SlotsSeen.widen (h : SlotsSeen slots) : SlotsSeen (widenSlots tokens template slots) := by
  fun_induction widenSlots tokens template slots with
  | case1 _ tokens template slot slots ih =>
    have := ih (List.forall_mem_cons.mp h).2
    exact List.forall_mem_cons.mpr ⟨(List.forall_mem_cons.mp h).1, this⟩
  | case2 token tokens text template slots haccept ih => exact ih h
  | case3 token tokens text template slots haccept ih =>
    exact List.forall_mem_cons.mpr ⟨SlotTypes.isEmpty_insert rfl, ih h⟩
  | case4 => exact nofun

theorem SlotsSeen.expand (h : SlotsSeen slots) : SlotsSeen (expandSlots tokens template slots) := by
  fun_induction expandSlots tokens template slots with
  | case1 token tokens template slot slots ih =>
    obtain ⟨hfirst, hlater⟩ := List.forall_mem_cons.mp h
    exact List.forall_mem_cons.mpr ⟨SlotTypes.isEmpty_insert hfirst, ih hlater⟩
  | case2 token tokens text template slots haccept ih => exact ih h
  | case3 token tokens text template slot slots haccept ih =>
    obtain ⟨hfirst, hlater⟩ := List.forall_mem_cons.mp h
    exact List.forall_mem_cons.mpr ⟨hfirst, ih hlater⟩
  | _ => exact nofun

theorem SlotsSeen.attach (h : SlotsSeen slots) : SlotsSeen (attachSlots tokens template slots) :=
  h.widen.expand

theorem slotsSeen_fresh (i : Nat) (tokens : List Text) :
    SlotsSeen ((maskFrom i tokens).typedParams.map fun p => SlotTypes.singleton p.typeTag) := by
  induction tokens generalizing i with
  | nil => simp [SlotsSeen, maskFrom]
  | cons token rest ih =>
    cases hclass : classify token with
    | none =>
      simp only [maskFrom, hclass]
      exact ih (i + 1)
    | some tag =>
      simp only [maskFrom, hclass, List.map_cons]
      intro slot hslot
      rcases List.mem_cons.mp hslot with rfl | hlater
      · cases tag <;> rfl
      · exact ih (i + 1) slot hlater

/-- A placed leaf whose record leads back to its place. -/
structure Retraceable (prefixDepth : Nat) (place : Nat × List Text) (leaf : Leaf) : Prop where
  length : leaf.template.length = place.1
  depth : place.2.length = min prefixDepth place.1
  follows : Follows place.2 leaf.template leaf.slotTypes
  nonempty : leaf.template ≠ []
  aligned : leaf.SlotsAligned
  seen : SlotsSeen leaf.slotTypes
  vouched : leaf.provenance.Nonempty

theorem TenantState.routedBy_placeFor (state : TenantState) (tokens : List Text) :
    RoutedBy (state.placeFor (mask tokens)).2
      ((tokens.map maskedText).take (min state.config.prefixDepth tokens.length)) := by
  have h := PrefixNode.routedBy_route state.config.maxNodeChildren
    (state.tree.rootAt (mask tokens).tokens.length)
    (walkPath (mask tokens).tokens state.config.prefixDepth)
  simpa [TenantState.placeFor, Tree.placeOf, walkPath, tokens_mask] using h

theorem TagFree.min (h : TagFree prefixDepth tokens) :
    TagFree (min prefixDepth tokens.length) tokens := by
  intro token htoken
  apply h token
  exact List.take_subset_take_left tokens (Nat.min_le_left _ _) htoken

/-- A move of a line that spells no tag keeps every leaf retraceable. -/
theorem TenantMove.retraceable {record : OtlpLogRecord} {fresh : Option Nat}
    {before after : TenantState} {changes : List (Nat × TemplateChange)}
    (h : TenantMove record tokens fresh before changes after)
    (htags : TagFree before.config.prefixDepth tokens)
    (hbefore : ∀ entry ∈ before.tree.placedLeaves,
      Retraceable before.config.prefixDepth entry.1 entry.2) :
    ∀ entry ∈ after.tree.placedLeaves, Retraceable after.config.prefixDepth entry.1 entry.2 := by
  rw [h.config_eq]
  have hplace : (before.placeFor (mask tokens)).1 = tokens.length := by
    simp [TenantState.placeFor, Tree.placeOf]
  have hrouted := before.routedBy_placeFor tokens
  have hdepth : (before.placeFor (mask tokens)).2.length =
      min before.config.prefixDepth (before.placeFor (mask tokens)).1 := by
    rw [hrouted.length_eq, hplace]
    simp
  have haligned := h.aligned fun entry hentry =>
    ⟨(hbefore entry hentry).length, (hbefore entry hentry).aligned⟩
  have hrest := h.forall_placed (fun place leaf => place.1 ≠ 0 ∧
    place.2.length = min before.config.prefixDepth place.1 ∧
    Follows place.2 leaf.template leaf.slotTypes ∧ SlotsSeen leaf.slotTypes ∧
    leaf.provenance.Nonempty) ?_ ?_ ?_ ?_
  · intro entry hentry
    obtain ⟨hlength, hslots⟩ := haligned entry hentry
    obtain ⟨hpos, hdepth, hfollows, hseen, hvouched⟩ := hrest entry hentry
    refine ⟨hlength, hdepth, hfollows, fun hnil => hpos ?_, hslots, hseen, hvouched⟩
    rw [← hlength, hnil, List.length_nil]
  · intro templateId provenance associations observed bound htokens hmined hcreated
    rw [Leaf.template_associateUpstream, Leaf.slotTypes_associateUpstream,
      Leaf.provenance_associateUpstream]
    refine ⟨?_, hdepth, ?_, slotsSeen_fresh 0 tokens, .mined, hmined⟩
    · rw [hplace]
      exact List.length_pos_of_ne_nil htokens.nonempty |>.ne'
    · rw [Leaf.fresh, leafTemplate_mask]
      exact follows_fresh 0 hrouted htags.min
  · rintro leaf steps observed bound - - ⟨hpos, -, hfollows, hseen, hvouched⟩
    rw [Leaf.template_associateUpstream, Leaf.slotTypes_associateUpstream,
      Leaf.provenance_associateUpstream]
    exact ⟨hpos, hdepth, hfollows.attach hrouted htags.min, hseen.attach, hvouched⟩
  · rintro place leaf ⟨hpos, hdepth, hfollows, hseen, -⟩
    exact ⟨hpos, hdepth, hfollows, hseen, Finset.insert_nonempty _ _⟩
  · intro entry hentry
    have hleaf := hbefore entry hentry
    refine ⟨?_, hleaf.depth, hleaf.follows, hleaf.seen, hleaf.vouched⟩
    rw [← hleaf.length]
    exact List.length_pos_of_ne_nil hleaf.nonempty |>.ne'

/-! ### Restoring a record -/

theorem mem_wildcardRoutes {i : Nat} :
    i ∈ wildcardRoutes path ↔ path[i]? = some wildcardText := by
  unfold wildcardRoutes
  simp only [List.mem_map, List.mem_filter, beq_iff_eq, Prod.exists, List.mem_zipIdx_iff_getElem?]
  constructor
  · rintro ⟨token, position, ⟨hat, rfl⟩, rfl⟩
    exact hat
  · intro hat
    exact ⟨wildcardText, i, ⟨hat, rfl⟩, rfl⟩

theorem isChain_wildcardRoutes (path : List Text) : (wildcardRoutes path).IsChain (· < ·) := by
  have hpositions : (path.zipIdx.map Prod.snd).Pairwise (· < ·) := by
    rw [List.zipIdx_map_snd]
    exact List.pairwise_lt_range' 1
  apply List.Pairwise.isChain
  exact hpositions.sublist (List.filter_sublist.map Prod.snd)

/-- A literal wildcard on the walk stands behind the wildcard edge. -/
theorem Follows.routed_of_literal (h : Follows path template slots) {i : Nat} (hi : i < path.length)
    (hliteral : template[i]? = some (.fixed wildcardText)) : path[i]? = some wildcardText := by
  induction h generalizing i with
  | done template slots => simp at hi
  | routedFixed text later ih | routedWildcard slot later ih =>
    cases i with
    | zero => rfl
    | succ i => exact ih (by simpa using hi) (by simpa using hliteral)
  | literal htag later ih =>
    cases i with
    | zero => simpa using hliteral
    | succ i => exact ih (by simpa using hi) (by simpa using hliteral)
  | tagged tag later ih =>
    cases i with
    | zero => simp at hliteral
    | succ i => exact ih (by simpa using hi) (by simpa using hliteral)

theorem checkRoutes_of_follows (h : Follows path template slots)
    (hroutes : record.wildcardRouted = wildcardRoutes path) :
    checkRoutes record template path.length = .ok () := by
  have hlast : (wildcardRoutes path).getLast?.any (path.length ≤ ·) = false := by
    rw [Option.any_eq_false]
    intro last hlast
    have hat := mem_wildcardRoutes.mp (List.mem_of_getLast? hlast)
    have hlt : last < path.length := (List.getElem?_eq_some_iff.mp hat).1
    simpa using hlt
  have hfind : ((template.take path.length).zipIdx.find? fun entry =>
      entry.1 == .fixed wildcardText && !(wildcardRoutes path).contains entry.2) = none := by
    rw [List.find?_eq_none]
    rintro ⟨token, i⟩ hentry
    rw [List.mem_zipIdx_iff_getElem?, List.getElem?_take] at hentry
    split at hentry
    · rename_i hi
      simp only [Bool.and_eq_true, beq_iff_eq, Bool.not_eq_true', not_and, Bool.not_eq_false]
      rintro rfl
      rw [List.contains_iff_mem]
      exact mem_wildcardRoutes.mpr (h.routed_of_literal hi hentry)
    · cases hentry
  unfold checkRoutes
  dsimp only
  rw [hroutes, hfind, if_neg]
  rw [hlast]
  simp [isChain_wildcardRoutes path]

theorem descentPathFrom_cons {token : OwnedToken} {component : Text} {later : List Text}
    (hcomponent : pathComponent record walkDepth position slot token = .ok component)
    (hlater : descentPathFrom record walkDepth (position + 1)
      (slot + if token = .wildcard then 1 else 0) template = .ok later) :
    descentPathFrom record walkDepth position slot (token :: template) =
      .ok (component :: later) := by
  rw [descentPathFrom, bind_eq_ok_iff]
  refine ⟨component, hcomponent, ?_⟩
  rw [bind_eq_ok_iff]
  exact ⟨later, hlater, rfl⟩

/-- Below the walk every component is free. -/
theorem descentPathFrom_below (hroutes : ∀ i, walkDepth ≤ i → i ∉ record.wildcardRouted)
    (hbelow : walkDepth ≤ position) (slot : Nat) (template : List OwnedToken) :
    ∃ later, descentPathFrom record walkDepth position slot template = .ok later := by
  induction template generalizing position slot with
  | nil => exact ⟨[], rfl⟩
  | cons token template ih =>
    obtain ⟨later, hlater⟩ := ih (Nat.le_succ_of_le hbelow)
      (slot + if token = .wildcard then 1 else 0)
    have hcomponent : ∃ component,
        pathComponent record walkDepth position slot token = .ok component := by
      unfold pathComponent
      rw [if_neg (by simpa using hroutes position hbelow)]
      cases token with
      | fixed text => exact ⟨text, rfl⟩
      | wildcard => exact ⟨wildcardText, if_neg (Nat.not_lt.mpr hbelow)⟩
    obtain ⟨component, hcomponent⟩ := hcomponent
    exact ⟨component :: later, descentPathFrom_cons hcomponent hlater⟩

theorem pathTag_tagged {tag : MaskTag}
    (hslot : record.slotTypes[slot]? = some (SlotTypes.singleton tag.paramType).iter)
    (position : Nat) : pathTag record slot position = .ok tag.asStr := by
  unfold pathTag
  rw [hslot]
  cases tag <;> rfl

/-- One more component in front of a rebuilt rest. -/
theorem exists_descentPathFrom_cons {token : OwnedToken} {key : Text}
    (hcomponent : pathComponent record walkDepth position slot token = .ok key)
    (hrest : ∃ later, descentPathFrom record walkDepth (position + 1)
        (slot + if token = .wildcard then 1 else 0) template = .ok later ∧
      later.take path.length = path) :
    ∃ later, descentPathFrom record walkDepth position slot (token :: template) = .ok later ∧
      later.take (key :: path).length = key :: path := by
  obtain ⟨later, hlater, htake⟩ := hrest
  refine ⟨key :: later, descentPathFrom_cons hcomponent hlater, ?_⟩
  simp [htake]

/-- A followed path is rebuilt from the record. -/
theorem descentPathFrom_follows {whole : List Text}
    (hroutes : record.wildcardRouted = wildcardRoutes whole) (h : Follows path template slots)
    (hpath : whole.drop position = path)
    (hslots : record.slotTypes.drop slot = slots.map SlotTypes.iter) :
    ∃ later, descentPathFrom record whole.length position slot template = .ok later ∧
      later.take path.length = path := by
  have hmem : ∀ i, i ∈ record.wildcardRouted ↔ whole[i]? = some wildcardText := by
    intro i
    rw [hroutes, mem_wildcardRoutes]
  induction h generalizing position slot with
  | done template slots =>
    have hbelow : whole.length ≤ position := List.drop_eq_nil_iff.mp hpath
    have hfree : ∀ i, whole.length ≤ i → i ∉ record.wildcardRouted := by
      intro i hi hin
      have hlt := (List.getElem?_eq_some_iff.mp ((hmem i).mp hin)).1
      omega
    obtain ⟨later, hlater⟩ := descentPathFrom_below hfree hbelow slot template
    exact ⟨later, hlater, rfl⟩
  | routedFixed text later ih =>
    have hat := (hmem position).mpr (getElem?_of_drop_eq_cons hpath)
    apply exists_descentPathFrom_cons
    · simp [pathComponent, hat]
    · exact ih (drop_succ_of_drop_eq_cons hpath) hslots
  | routedWildcard set later ih =>
    have hat := (hmem position).mpr (getElem?_of_drop_eq_cons hpath)
    apply exists_descentPathFrom_cons
    · simp [pathComponent, hat]
    · exact ih (drop_succ_of_drop_eq_cons hpath) (drop_succ_of_drop_eq_cons hslots)
  | @literal path template slots text htag later ih =>
    apply exists_descentPathFrom_cons
    · unfold pathComponent
      split
      · rename_i hrouted
        have hat := (hmem position).mp (List.contains_iff_mem.mp hrouted)
        rw [getElem?_of_drop_eq_cons hpath, Option.some_inj] at hat
        rw [hat]
      · rfl
    · exact ih (drop_succ_of_drop_eq_cons hpath) hslots
  | tagged tag later ih =>
    have hkey := getElem?_of_drop_eq_cons hpath
    have hfree : position ∉ record.wildcardRouted := by
      intro hin
      rw [hmem, hkey, Option.some_inj] at hin
      exact asStr_ne_wildcardText tag hin
    apply exists_descentPathFrom_cons
    · unfold pathComponent
      rw [if_neg (by simpa using hfree)]
      rw [if_pos (List.getElem?_eq_some_iff.mp hkey).1]
      exact pathTag_tagged (getElem?_of_drop_eq_cons hslots) position
    · exact ih (drop_succ_of_drop_eq_cons hpath) (drop_succ_of_drop_eq_cons hslots)

/-- The descent path of a retraceable leaf's record leads to the leaf's place. -/
theorem Retraceable.descentPath_ok {place : Nat × List Text} {leaf : Leaf}
    (h : Retraceable prefixDepth place leaf) :
    ∃ masked, descentPath (leafRecord leaf (wildcardRoutes place.2)) leaf.template
        (min prefixDepth leaf.template.length) = .ok masked ∧
      (masked.length, walkPath masked prefixDepth) = place := by
  have hdepth : min prefixDepth leaf.template.length = place.2.length := by
    rw [h.length, h.depth]
  obtain ⟨masked, hmasked, htake⟩ := descentPathFrom_follows
    (show (leafRecord leaf (wildcardRoutes place.2)).wildcardRouted = _ from rfl) h.follows
    (List.drop_zero : place.2.drop 0 = _) (List.drop_zero : List.drop 0 _ = _)
  have hlength : masked.length = leaf.template.length := descentPathFrom_ok hmasked
  refine ⟨masked, ?_, ?_⟩
  · rw [hdepth, descentPath, bind_eq_ok_iff]
    exact ⟨(), checkRoutes_of_follows h.follows rfl, hmasked⟩
  · rw [walkPath, hlength, hdepth, htake, h.length]

theorem restoreSlotsFrom_iter (h : SlotsSeen slots) (templateId slot : Nat) :
    restoreSlotsFrom templateId slot (slots.map SlotTypes.iter) = .ok slots := by
  induction slots generalizing slot with
  | nil => rfl
  | cons set slots ih =>
    have hlater := ih (fun other hin => h other (List.mem_cons_of_mem _ hin)) (slot + 1)
    have hknown : set.iter.find? isUnknownType = none := by
      rw [List.find?_eq_none]
      intro t ht
      have hall : t ∈ SlotTypes.all := List.mem_of_mem_filter ht
      revert hall
      cases t <;> simp [isUnknownType, SlotTypes.all]
    have hne := SlotTypes.iter_ne_nil (h set List.mem_cons_self)
    have hback := SlotTypes.ofList_iter set
    rw [List.map_cons]
    cases hiter : set.iter with
    | nil => exact absurd hiter hne
    | cons first types =>
      rw [hiter] at hknown hback
      simp only [restoreSlotsFrom, hknown]
      rw [bind_eq_ok_iff]
      refine ⟨slots, hlater, ?_⟩
      rw [← hback, SlotTypes.ofList, List.foldl_cons, SlotTypes.insert_new]

/-- The record of a retraceable leaf is restored as the leaf, at its place. -/
theorem Retraceable.restoreLeafInto_ok {place : Nat × List Text} {leaf : Leaf}
    (h : Retraceable prefixDepth place leaf) (tenant : TenantState) (maxNodeChildren : Nat) :
    ∃ masked, (masked.length, walkPath masked prefixDepth) = place ∧
      restoreLeafInto tenant (leafRecord leaf (wildcardRoutes place.2)) prefixDepth
        maxNodeChildren = .ok { tenant with
          minedCanonicals := tenant.minedCanonicals.insert leaf.key
          tree := tenant.tree.descendMut masked prefixDepth maxNodeChildren (· ++ [leaf]) } := by
  obtain ⟨masked, hmasked, hplace⟩ := h.descentPath_ok
  refine ⟨masked, hplace, ?_⟩
  have hslots : restoreSlotTypes (leafRecord leaf (wildcardRoutes place.2))
      (wildcardCount leaf.template) = .ok leaf.slotTypes := by
    unfold restoreSlotTypes
    rw [if_neg]
    · exact restoreSlotsFrom_iter h.seen _ 0
    · rw [not_not, leafRecord, List.length_map]
      exact h.aligned
  have hleaf : (leafRecord leaf (wildcardRoutes place.2)).toLeaf leaf.slotTypes = leaf := by
    simp [leafRecord, LeafRecord.toLeaf, recordToProvenanceSet,
      provenanceSetOr_toRecord h.vouched]
  unfold restoreLeafInto
  rw [if_neg, bind_eq_ok_iff]
  · refine ⟨leaf.slotTypes, hslots, ?_⟩
    rw [bind_eq_ok_iff]
    refine ⟨masked, hmasked, ?_⟩
    rw [hleaf]
    rfl
  · simpa [leafRecord] using h.nonempty

end Ourios.Miner
