/-
# Rows render as the lines they came from

The reader knows a template only through the audit stream. `Registered` says what
the events emitted so far tell about a tenant: every version is bound to one text
only, every leaf is bound at its current version and at none above it, and every
adopted shape is bound to its own text. Every move keeps this. A row is then
rendered against the text of the tokens it was bound to, and what is left is that
the text parses back to those tokens.
-/

import Ourios.Miner.Run
import Ourios.Querier.Registry

namespace Ourios.Querier

open Ourios.Foundation Ourios.Miner

/-- What a tenant's events say about its templates. -/
structure Registered (state : TenantState) (events : List AuditEvent) : Prop where
  functional : ∀ key text other, Binds events key text → Binds events key other → text = other
  held : ∀ event ∈ events, event.templateId ∈ state.holderIds
  leaf : ∀ leaf ∈ state.tree.collectLeaves,
    Binds events (leaf.templateId, leaf.templateVersion) (formatTemplate leaf.template)
  leafLatest : ∀ leaf ∈ state.tree.collectLeaves, ∀ version text,
    Binds events (leaf.templateId, version) text → version ≤ leaf.templateVersion
  entry : ∀ key entry, state.adoptedTemplates.lookup key = some entry →
    Binds events (entry.templateId, entry.templateVersion) key.1
  ownedLatest : ∀ key owned, state.adoptedTemplates.lookup key = some (.owned owned) →
    ∀ version text, Binds events (owned.templateId, version) text → version ≤ 1

/-! ### What changes bind -/

theorem binding_templateId {event : AuditEvent} {key : Nat × Nat} {text : Text}
    (h : binding event = some (key, text)) : event.templateId = key.1 := by
  obtain ⟨bound, -, heq⟩ := Option.map_eq_some_iff.mp h
  cases heq
  rfl

/-- Events bind what the changes they announce bind. -/
theorem binds_iff_of_announces {tenant : TenantId} {changes : List (Nat × TemplateChange)}
    {events : List AuditEvent} (h : Announces tenant changes events) (key : Nat × Nat)
    (text : Text) :
    Binds events key text ↔ ∃ change, (key.1, change) ∈ changes ∧
      keyedTemplate change = some (key.2, text) := by
  rw [← h.changes_eq]
  constructor
  · rintro ⟨event, hmem, hbinding⟩
    obtain ⟨bound, hkeyed, heq⟩ := Option.map_eq_some_iff.mp hbinding
    cases heq
    exact ⟨event.change, List.mem_map.mpr ⟨event, hmem, rfl⟩, hkeyed⟩
  · rintro ⟨change, hmem, hkeyed⟩
    obtain ⟨event, hevent, heq⟩ := List.mem_map.mp hmem
    obtain ⟨hid, rfl⟩ := Prod.mk.inj heq
    exact ⟨event, hevent, by simp [binding, hkeyed, hid]⟩

section Evolves

variable {version final : Nat} {template result : List OwnedToken} {steps : List TemplateChange}

/-- The first step of a history binds the next version to the shape the rest
starts from. -/
theorem keyedTemplate_head_of_evolves {change : TemplateChange}
    (h : Evolves version template (change :: steps) final result) :
    ∃ next, keyedTemplate change = some (version + 1, formatTemplate next) ∧
      Evolves (version + 1) next steps final result := by
  cases h with
  | widened positions hfixed later => exact ⟨_, rfl, later⟩
  | typeExpanded expansions later => exact ⟨_, rfl, later⟩

variable (h : Evolves version template steps final result)
include h

/-- Every step of a history binds a version of its own, above where it started. -/
theorem version_of_evolves {change : TemplateChange} (hmem : change ∈ steps)
    {bound : Nat} {text : Text}
    (hkeyed : keyedTemplate change = some (bound, text)) : version < bound ∧ bound ≤ final := by
  induction steps generalizing version template with
  | nil => cases hmem
  | cons first steps ih =>
    obtain ⟨next, hfirst, later⟩ := keyedTemplate_head_of_evolves h
    have hfinal := later.version_eq
    rcases List.mem_cons.mp hmem with rfl | hlater
    · rw [hfirst] at hkeyed
      cases hkeyed
      omega
    · have := ih later hlater
      omega

/-- No version is bound twice by one history. -/
theorem functional_of_evolves {first second : TemplateChange} (hfirst : first ∈ steps)
    (hsecond : second ∈ steps)
    {bound : Nat} {text other : Text} (hkeyed : keyedTemplate first = some (bound, text))
    (hkeyed' : keyedTemplate second = some (bound, other)) : text = other := by
  induction steps generalizing version template with
  | nil => cases hfirst
  | cons head steps ih =>
    obtain ⟨next, hhead, later⟩ := keyedTemplate_head_of_evolves h
    rcases List.mem_cons.mp hfirst with rfl | hlater <;>
      rcases List.mem_cons.mp hsecond with rfl | hlater'
    · rw [hkeyed] at hkeyed'
      cases hkeyed'
      rfl
    · -- The later steps bind versions above the first one's.
      have := (version_of_evolves later hlater' hkeyed').1
      rw [hhead] at hkeyed
      cases hkeyed
      omega
    · have := (version_of_evolves later hlater hkeyed).1
      rw [hhead] at hkeyed'
      cases hkeyed'
      omega
    · exact ih later hlater hlater'

/-- A history ends by binding where it ended, or it is empty. -/
theorem final_of_evolves : (final = version ∧ result = template) ∨
      ∃ change ∈ steps, keyedTemplate change = some (final, formatTemplate result) := by
  induction steps generalizing version template with
  | nil =>
    cases h
    exact .inl ⟨rfl, rfl⟩
  | cons first steps ih =>
    obtain ⟨next, hfirst, later⟩ := keyedTemplate_head_of_evolves h
    rcases ih later with ⟨rfl, rfl⟩ | ⟨change, hmem, hkeyed⟩
    · exact .inr ⟨first, List.mem_cons_self, hfirst⟩
    · exact .inr ⟨change, List.mem_cons_of_mem _ hmem, hkeyed⟩

end Evolves

/-! ### Keeping the events and the tenant together -/

section Extend

variable {before after : TenantState} {events new : List AuditEvent} {id : Nat}

theorem Registered.not_binds (h : Registered before events) (hid : id ∉ before.holderIds)
    {version : Nat} {text : Text} : ¬ Binds events (id, version) text := by
  rintro ⟨event, hmem, hbinding⟩
  apply hid
  have hevent := h.held event hmem
  rwa [binding_templateId hbinding] at hevent

theorem not_binds_of_templateId_ne (hnew : ∀ event ∈ new, event.templateId = id)
    {key : Nat × Nat} {text : Text} (hne : key.1 ≠ id) : ¬ Binds new key text := by
  rintro ⟨event, hmem, hbinding⟩
  exact hne ((binding_templateId hbinding).symm.trans (hnew event hmem))

/-- New events: what must be shown about the ids they bind anew, and what the templates of
the `kept` ids keep. -/
theorem Registered.extend (h : Registered before events) (kept : Nat → Prop)
    (hkept : ∀ {key : Nat × Nat} {text}, kept key.1 → Binds new key text → Binds events key text)
    (hids : ∀ held ∈ before.holderIds, held ∈ after.holderIds)
    (hnew : ∀ event ∈ new, event.templateId ∈ after.holderIds)
    (hfunctional : ∀ key text other, ¬ kept key.1 → Binds (events ++ new) key text →
      Binds (events ++ new) key other → text = other)
    (hleaf : ∀ leaf ∈ after.tree.collectLeaves,
      (kept leaf.templateId ∧ ∃ old ∈ before.tree.collectLeaves,
        old.templateId = leaf.templateId ∧ old.templateVersion = leaf.templateVersion ∧
          old.template = leaf.template) ∨
      (Binds (events ++ new) (leaf.templateId, leaf.templateVersion)
          (formatTemplate leaf.template) ∧
        ∀ version text, Binds (events ++ new) (leaf.templateId, version) text →
          version ≤ leaf.templateVersion))
    (hentry : ∀ key entry, after.adoptedTemplates.lookup key = some entry →
      before.adoptedTemplates.lookup key = some entry ∨
        Binds (events ++ new) (entry.templateId, entry.templateVersion) key.1)
    (howned : ∀ key owned, after.adoptedTemplates.lookup key = some (.owned owned) →
      (kept owned.templateId ∧ before.adoptedTemplates.lookup key = some (.owned owned)) ∨
        ∀ version text, Binds (events ++ new) (owned.templateId, version) text → version ≤ 1) :
    Registered after (events ++ new) := by
  -- A key of a kept id is bound by the old events.
  have hold : ∀ {key : Nat × Nat} {text : Text}, kept key.1 → Binds (events ++ new) key text →
      Binds events key text := by
    intro key text hkey hbinds
    rcases binds_append_iff.mp hbinds with hbefore | hafter
    · exact hbefore
    · exact hkept hkey hafter
  refine ⟨?_, ?_, ?_, ?_, ?_, ?_⟩
  · intro key text other htext hother
    by_cases hkey : kept key.1
    · exact h.functional _ _ _ (hold hkey htext) (hold hkey hother)
    · exact hfunctional key text other hkey htext hother
  · intro event hmem
    rcases List.mem_append.mp hmem with hbefore | hafter
    · exact hids _ (h.held event hbefore)
    · exact hnew event hafter
  · intro leaf hmem
    rcases hleaf leaf hmem with ⟨-, old, hin, hid', hversion, htemplate⟩ | ⟨hbinds, -⟩
    · rw [← hid', ← hversion, ← htemplate]
      exact (h.leaf old hin).append_left _
    · exact hbinds
  · intro leaf hmem version text hbinds
    rcases hleaf leaf hmem with ⟨hkey, old, hin, hid', hversion, -⟩ | ⟨-, hlatest⟩
    · rw [← hversion]
      exact h.leafLatest old hin version text (hid' ▸ hold hkey hbinds)
    · exact hlatest version text hbinds
  · intro key entry hlookup
    rcases hentry key entry hlookup with hkept | hbinds
    · exact (h.entry key entry hkept).append_left _
    · exact hbinds
  · intro key owned hlookup version text hbinds
    rcases howned key owned hlookup with ⟨hkey, hheld⟩ | hlatest
    · exact h.ownedLatest key owned hheld version text (hold hkey hbinds)
    · exact hlatest version text hbinds

end Extend

theorem registered_new (config : MinerConfig) : Registered (TenantState.new config) [] := by
  refine ⟨?_, ?_, ?_, ?_, ?_, ?_⟩
  · rintro key text other ⟨event, hmem, -⟩
    cases hmem
  · intro event hmem
    cases hmem
  · intro leaf hmem
    cases hmem
  · intro leaf hmem
    cases hmem
  · intro key entry hlookup
    cases hlookup
  · intro key owned hlookup
    cases hlookup

section Move

variable {record : OtlpLogRecord} {tokens : List Text} {fresh : Option Nat}
  {before after : TenantState} {changes : List (Nat × TemplateChange)}
  {events new : List AuditEvent} {tenant : TenantId}

theorem binds_singleton_of_announces {id : Nat} {change : TemplateChange}
    (h : Announces tenant [(id, change)] new) {key : Nat × Nat} {text : Text} :
    Binds new key text ↔ key.1 = id ∧ keyedTemplate change = some (key.2, text) := by
  rw [binds_iff_of_announces h]
  simp only [List.mem_singleton, Prod.mk.injEq]
  constructor
  · rintro ⟨_, ⟨hid, rfl⟩, hkeyed⟩
    exact ⟨hid, hkeyed⟩
  · rintro ⟨hid, hkeyed⟩
    exact ⟨change, ⟨hid, rfl⟩, hkeyed⟩

variable (h : Registered before events)
include h

/-- An announced creation of an id nobody held. -/
theorem Registered.binds_created {id : Nat} {change : TemplateChange}
    {text : Text} (hid : id ∉ before.holderIds) (hkeyed : keyedTemplate change = some (1, text))
    (hnew : Announces tenant [(id, change)] new) {version : Nat} {bound : Text} :
    Binds (events ++ new) (id, version) bound ↔ version = 1 ∧ bound = text := by
  rw [binds_append_iff, binds_singleton_of_announces hnew, hkeyed]
  constructor
  · rintro (hold | ⟨-, hbound⟩)
    · exact absurd hold (h.not_binds hid)
    · cases hbound
      exact ⟨rfl, rfl⟩
  · rintro ⟨rfl, rfl⟩
    exact .inr ⟨rfl, rfl⟩

/-- A creation under a new id keeps the registry where all that is new carries that id. -/
theorem Registered.created {id : Nat} {change : TemplateChange} {text : Text}
    (hfresh : id ∉ before.holderIds) (hkeyed : keyedTemplate change = some (1, text))
    (hnew : Announces tenant [(id, change)] new)
    (hids : ∀ held ∈ before.holderIds, held ∈ after.holderIds) (hid : id ∈ after.holderIds)
    (hleaf : ∀ leaf ∈ after.tree.collectLeaves, leaf ∈ before.tree.collectLeaves ∨
      leaf.templateId = id ∧ leaf.templateVersion = 1 ∧ formatTemplate leaf.template = text)
    (hentry : ∀ key entry, after.adoptedTemplates.lookup key = some entry →
      before.adoptedTemplates.lookup key = some entry ∨
        entry.templateId = id ∧ entry.templateVersion = 1 ∧ key.1 = text) :
    Registered after (events ++ new) := by
  have hbinds : ∀ {version bound}, Binds (events ++ new) (id, version) bound ↔
      version = 1 ∧ bound = text := h.binds_created hfresh hkeyed hnew
  have hnewIds := hnew.templateId_eq id (by simp)
  apply h.extend (· ≠ id)
    (fun hne hbound => absurd hbound (not_binds_of_templateId_ne hnewIds hne)) hids
  · intro event hevent
    rwa [hnewIds event hevent]
  · rintro ⟨bound, version⟩ first second hbound hfirst hsecond
    obtain rfl := not_not.mp hbound
    rw [(hbinds.mp hfirst).2, (hbinds.mp hsecond).2]
  · intro leaf hmem
    rcases hleaf leaf hmem with hold | ⟨hleafId, hversion, htemplate⟩
    · refine .inl ⟨fun heq => hfresh ?_, leaf, hold, rfl, rfl, rfl⟩
      rw [← heq]
      exact TenantState.WellFormed.leaf_held hold
    · rw [hleafId, hversion, htemplate]
      exact .inr ⟨hbinds.mpr ⟨rfl, rfl⟩, fun version text hbound => (hbinds.mp hbound).1.le⟩
  · intro key entry hlookup
    rcases hentry key entry hlookup with hold | ⟨hentryId, hversion, hkey⟩
    · exact .inl hold
    · rw [hentryId, hversion, hkey]
      exact .inr (hbinds.mpr ⟨rfl, rfl⟩)
  · intro key owned hlookup
    rcases hentry key _ hlookup with hold | ⟨hentryId, -⟩
    · refine .inl ⟨fun heq => hfresh ?_, hold⟩
      rw [← heq]
      exact TenantState.WellFormed.owned_held hold
    · rw [show owned.templateId = id from hentryId]
      exact .inr fun version text hbound => (hbinds.mp hbound).1.le

/-- The leaf that takes over an adopted identity is announced at the version and
with the text the adoption was. -/
theorem Registered.converged {key : CanonicalKey} {owned : OwnedAdopted}
    (howned : before.adoptedTemplates.lookup key = some (.owned owned))
    (hnew : Announces tenant [(owned.templateId, .created key.1)] new)
    (hids : ∀ held ∈ before.holderIds, held ∈ after.holderIds)
    (hleaf : ∀ leaf ∈ after.tree.collectLeaves, leaf ∈ before.tree.collectLeaves ∨
      leaf.templateId = owned.templateId ∧ leaf.templateVersion = 1 ∧
        formatTemplate leaf.template = key.1)
    (hadopted : after.adoptedTemplates =
      before.adoptedTemplates.insert key (.treeBacked owned.templateId 1)) :
    Registered after (events ++ new) := by
  have hentry := h.entry _ _ howned
  have hsame : ∀ {key text}, Binds new key text → Binds events key text := by
    rintro ⟨id, version⟩ text hbound
    obtain ⟨rfl, hkeyed⟩ := (binds_singleton_of_announces hnew).mp hbound
    cases hkeyed
    exact hentry
  apply h.extend (fun _ => True) (fun _ => hsame) hids
  · intro event hevent
    rw [hnew.templateId_eq owned.templateId (by simp) event hevent]
    exact hids _ (TenantState.WellFormed.owned_held howned)
  · exact fun _ _ _ hnot => absurd trivial hnot
  · intro leaf hmem
    rcases hleaf leaf hmem with hold | ⟨hid, hversion, htemplate⟩
    · exact .inl ⟨trivial, leaf, hold, rfl, rfl, rfl⟩
    · rw [hid, hversion, htemplate]
      refine .inr ⟨hentry.append_left _, fun version text hbound => ?_⟩
      exact h.ownedLatest _ _ howned version text ((binds_append_iff.mp hbound).elim id hsame)
  · intro other entry hlookup
    rw [hadopted] at hlookup
    rcases lookup_insert_cases hlookup with ⟨rfl, rfl⟩ | ⟨-, hold⟩
    · exact .inr (hentry.append_left _)
    · exact .inl hold
  · intro other entry hlookup
    rw [hadopted] at hlookup
    rcases lookup_insert_cases hlookup with ⟨-, hother⟩ | ⟨-, hold⟩
    · cases hother
    · exact .inl ⟨trivial, hold⟩

/-- Attaching a line announces the leaf's new versions and leaves it at the last of
them. -/
theorem Registered.attach (hwf : before.WellFormed) {leaf : Leaf}
    {leafIdx : Nat} {steps : List TemplateChange} (observed : Option Text)
    (hleaf : (before.leavesFor (mask tokens))[leafIdx]? = some leaf)
    (hevolves : Evolves leaf.templateVersion leaf.template steps
      (leaf.attached tokens steps.length).templateVersion
      (leaf.attached tokens steps.length).template)
    (hnew : Announces tenant (steps.map fun change => (leaf.templateId, change)) new)
    (hids : ∀ held ∈ before.holderIds,
      held ∈ (before.attachLeaf record tokens leafIdx leaf steps observed).holderIds) :
    Registered (before.attachLeaf record tokens leafIdx leaf steps observed) (events ++ new) := by
  obtain ⟨rest, hsplit, hset⟩ := before.collectLeaves_set (mask tokens) hleaf
  have hmem : leaf ∈ before.tree.collectLeaves := hsplit.mem_iff.mpr List.mem_cons_self
  have hadopted : (before.attachLeaf record tokens leafIdx leaf steps observed).adoptedTemplates =
    before.adoptedTemplates := TenantState.adoptedTemplates_moveCanonical _ _ _
  have hnewIds := hnew.templateId_eq leaf.templateId (by simp)
  have hnewBinds : ∀ {key : Nat × Nat} {text}, Binds new key text ↔ key.1 = leaf.templateId ∧
      ∃ change ∈ steps, keyedTemplate change = some (key.2, text) := by
    intro key text
    rw [binds_iff_of_announces hnew]
    simp only [List.mem_map, Prod.mk.injEq]
    constructor
    · rintro ⟨change, ⟨step, hstep, hid, rfl⟩, hkeyed⟩
      exact ⟨hid.symm, step, hstep, hkeyed⟩
    · rintro ⟨hid, step, hstep, hkeyed⟩
      exact ⟨step, ⟨step, hstep, hid.symm, rfl⟩, hkeyed⟩
  have hversion := hevolves.version_eq
  apply h.extend (· ≠ leaf.templateId)
    (fun hne hbound => absurd hbound (not_binds_of_templateId_ne hnewIds hne)) hids
  · intro event hevent
    rw [hnewIds event hevent]
    exact hids _ (TenantState.WellFormed.leaf_held hmem)
  · -- The new versions lie above everything the old events bound.
    rintro ⟨id, version⟩ text other hid htext hother
    obtain rfl := not_not.mp hid
    rcases binds_append_iff.mp htext with hold | hafter <;>
      rcases binds_append_iff.mp hother with hold' | hafter'
    · exact h.functional _ _ _ hold hold'
    · obtain ⟨-, change, hchange, hkeyed⟩ := hnewBinds.mp hafter'
      have := (version_of_evolves hevolves hchange hkeyed).1
      have := h.leafLatest leaf hmem version text hold
      omega
    · obtain ⟨-, change, hchange, hkeyed⟩ := hnewBinds.mp hafter
      have := (version_of_evolves hevolves hchange hkeyed).1
      have := h.leafLatest leaf hmem version other hold'
      omega
    · obtain ⟨-, change, hchange, hkeyed⟩ := hnewBinds.mp hafter
      obtain ⟨-, change', hchange', hkeyed'⟩ := hnewBinds.mp hafter'
      exact functional_of_evolves hevolves hchange hchange' hkeyed hkeyed'
  · intro kept hkept
    rw [TenantState.attachLeaf, TenantState.tree_moveCanonical, (hset _).mem_iff,
      List.mem_cons] at hkept
    rcases hkept with rfl | hrest
    · right
      rw [Leaf.templateId_associateUpstream, Leaf.templateVersion_associateUpstream,
        Leaf.template_associateUpstream]
      refine ⟨?_, ?_⟩
      · rcases final_of_evolves hevolves with ⟨hsame, htemplate⟩ | ⟨change, hchange, hkeyed⟩
        · rw [hsame, htemplate]
          exact (h.leaf leaf hmem).append_left _
        · exact binds_append_iff.mpr (.inr (hnewBinds.mpr ⟨rfl, change, hchange, hkeyed⟩))
      · intro version text hbound
        rcases binds_append_iff.mp hbound with hold | hafter
        · have := h.leafLatest leaf hmem version text hold
          omega
        · obtain ⟨-, change, hchange, hkeyed⟩ := hnewBinds.mp hafter
          exact (version_of_evolves hevolves hchange hkeyed).2
    · exact .inl ⟨hwf.ne_of_split hsplit hrest, kept,
        hsplit.mem_iff.mpr (List.mem_cons_of_mem _ hrest), rfl, rfl, rfl⟩
  · exact fun key entry hlookup => .inl (hadopted ▸ hlookup)
  · intro key owned hlookup
    rw [hadopted] at hlookup
    exact .inl ⟨(hwf.leaf_ne_owned hmem hlookup).symm, hlookup⟩

/-- Adopting a mined leaf announces its version once more, with the text it has. -/
theorem Registered.adoptLeaf {leaf : Leaf} {template : List OwnedToken}
    (hexact : before.tree.findExact template record.severityNumber record.scopeName = some leaf)
    (hnew : Announces tenant (if Provenance.upstreamDerived ∈ leaf.provenance then []
      else [(leaf.templateId, .adopted leaf.templateVersion (formatTemplate template))]) new)
    (hids : ∀ held ∈ before.holderIds,
      held ∈ (before.adoptLeaf record template leaf).holderIds) :
    Registered (before.adoptLeaf record template leaf) (events ++ new) := by
  obtain ⟨path, hplaced, rfl, -, -⟩ := before.findExact_some hexact
  have hmem : leaf ∈ before.tree.collectLeaves := List.mem_map.mpr ⟨_, hplaced, rfl⟩
  have hchanges : ∀ change ∈ (if Provenance.upstreamDerived ∈ leaf.provenance then []
      else [(leaf.templateId, TemplateChange.adopted leaf.templateVersion
        (formatTemplate leaf.template))]),
      change = (leaf.templateId, .adopted leaf.templateVersion (formatTemplate leaf.template)) := by
    intro change hchange
    split at hchange
    · cases hchange
    · exact List.mem_singleton.mp hchange
  apply h.extend (fun _ => True) ?_ hids
  · intro event hevent
    rw [hnew.templateId_eq leaf.templateId
      (fun change hchange => by rw [hchanges change hchange]) event hevent]
    exact hids _ (TenantState.WellFormed.leaf_held hmem)
  · exact fun _ _ _ hnot => absurd trivial hnot
  · exact fun kept hkept => .inl ⟨trivial, before.mem_collectLeaves_adoptLeaf hkept⟩
  · intro key entry hlookup
    rcases lookup_insert_cases hlookup with ⟨rfl, rfl⟩ | ⟨-, hold⟩
    · exact .inr ((h.leaf leaf hmem).append_left _)
    · exact .inl hold
  · intro key owned hlookup
    rcases lookup_insert_cases hlookup with ⟨-, hother⟩ | ⟨-, hold⟩
    · cases hother
    · exact .inl ⟨trivial, hold⟩
  · rintro ⟨id, version⟩ text - hbound
    obtain ⟨change, hchange, hkeyed⟩ := (binds_iff_of_announces hnew _ _).mp hbound
    cases hchanges _ hchange
    cases hkeyed
    exact h.leaf leaf hmem

/-- Every move keeps what the events say. -/
theorem Registered.move (hwf : before.WellFormed)
    (hmove : TenantMove record tokens fresh before changes after)
    (hfresh : ∀ id, fresh = some id → id ∉ before.holderIds)
    (hnew : Announces tenant changes new) : Registered after (events ++ new) := by
  have hids := hmove.held_of_held
  have hown : ∀ id, fresh = some id → id ∈ after.holderIds := by
    rintro id rfl
    exact hmove.fresh_held
  have hheld : ∀ event ∈ events, event.templateId ∈ after.holderIds :=
    fun event hevent => hids _ (h.held event hevent)
  have hquiet : changes = [] → new = [] := by
    rintro rfl
    exact List.map_eq_nil_iff.mp hnew.changes_eq
  cases hmove with
  | opened => simpa [hquiet rfl] using h
  | mint templateId observed htokens hroom hadopted =>
    apply h.created (hfresh templateId rfl) rfl hnew hids (hown templateId rfl)
    · intro leaf hleaf
      rcases TenantState.mem_collectLeaves_pushLeaf _ _ hleaf with rfl | hold
      · exact .inr (by simp [Leaf.fresh])
      · exact .inl hold
    · exact fun key entry hlookup => .inl hlookup
  | converge owned observed htokens hroom howned =>
    apply h.converged howned hnew hids ?_ rfl
    intro leaf hleaf
    rcases TenantState.mem_collectLeaves_pushLeaf _ _ hleaf with rfl | hold
    · exact .inr (by simp [Leaf.fresh, canonicalKey])
    · exact .inl hold
  | attach steps observed htokens hleaf hseverity hscope hevolves =>
    exact h.attach hwf observed hleaf hevolves hnew hids
  | @reject _ leaf leafIdx wouldBeTemplate wouldBePositions hleaf =>
    obtain ⟨rest, hsplit, hset⟩ := before.collectLeaves_set (mask tokens) hleaf
    have hmem : leaf ∈ before.tree.collectLeaves := hsplit.mem_iff.mpr List.mem_cons_self
    have hleaves : ∀ kept ∈ _, kept ∈ before.tree.collectLeaves := fun kept hkept =>
      hsplit.mem_iff.mpr ((hset leaf).mem_iff.mp hkept)
    apply h.extend (fun _ => True) ?_ hids
    · intro event hevent
      rw [hnew.templateId_eq leaf.templateId (by simp) event hevent]
      exact hids _ (TenantState.WellFormed.leaf_held hmem)
    · exact fun _ _ _ hnot => absurd trivial hnot
    · exact fun kept hkept => .inl ⟨trivial, kept, hleaves kept hkept, rfl, rfl, rfl⟩
    · exact fun key entry hlookup => .inl hlookup
    · exact fun key owned hlookup => .inl ⟨trivial, hlookup⟩
    · intro key text _ hbound
      exact absurd ((binds_singleton_of_announces hnew).mp hbound).2 (by simp [keyedTemplate])
  | @observeOwned _ key owned upstream hadopted =>
    rw [hquiet rfl, List.append_nil]
    refine ⟨h.functional, hheld, h.leaf, h.leafLatest, ?_, ?_⟩
    · intro other entry hlookup
      rcases lookup_insert_cases hlookup with ⟨rfl, rfl⟩ | ⟨-, hold⟩
      · have hbound := h.entry _ _ hadopted
        exact hbound
      · exact h.entry other entry hold
    · intro other held hlookup
      rcases lookup_insert_cases hlookup with ⟨-, hother⟩ | ⟨-, hold⟩
      · cases hother
        have hlatest := h.ownedLatest _ _ hadopted
        exact hlatest
      · exact h.ownedLatest other held hold
  | adoptLeaf template hadopted hexact => exact h.adoptLeaf hexact hnew hids
  | intern templateId template upstream hadopted hroom hmode =>
    apply h.created (hfresh templateId rfl) rfl hnew hids (hown templateId rfl)
    · exact fun leaf hleaf => .inl hleaf
    · intro key entry hlookup
      rcases lookup_insert_cases hlookup with ⟨rfl, rfl⟩ | ⟨-, hold⟩
      · exact .inr ⟨rfl, rfl, rfl⟩
      · exact .inl hold
  | structured templateId hnone =>
    rw [hquiet rfl, List.append_nil]
    exact ⟨h.functional, hheld, h.leaf, h.leafLatest, h.entry, h.ownedLatest⟩

end Move

/-! ### Templates that read back -/

/-- The template has tokens, and its text parses back to them. -/
def Readable (template : List OwnedToken) : Prop :=
  template ≠ [] ∧ ∀ token ∈ template, token.Canonical

theorem readable_leafTemplate {tokens : List Text} (h : LineTokens tokens)
    (hwildcard : wildcardText ∉ tokens) : Readable (leafTemplate (mask tokens)) := by
  rw [leafTemplate_mask]
  refine ⟨by simpa using h.nonempty, ?_⟩
  intro slot hslot
  obtain ⟨token, htoken, rfl⟩ := List.mem_map.mp hslot
  obtain ⟨hne, hwords⟩ := h.words token htoken
  unfold freshSlot
  split
  · trivial
  · refine ⟨hne, fun hspace => ?_, fun heq => hwildcard (heq ▸ htoken)⟩
    have hword := hwords ' ' hspace
    rw [isWhitespace_space] at hword
    cases hword

/-- Widening only opens slots. -/
theorem readable_widenTemplate {tokens : List Text} {template : List OwnedToken}
    (hlen : template.length = tokens.length) (h : Readable template) :
    Readable (widenTemplate tokens template) := by
  refine ⟨fun hnil => h.1 ?_, ?_⟩
  · have := length_widenTemplate hlen
    rw [hnil] at this
    exact List.eq_nil_of_length_eq_zero this.symm
  · intro slot hslot
    obtain ⟨position, hposition, rfl⟩ := List.getElem_of_mem hslot
    simp only [widenTemplate, List.getElem_zipWith]
    unfold widenSlot
    split
    · exact h.2 _ (List.getElem_mem _)
    · trivial

/-- Every leaf's text parses back to its template. -/
def ReadableLeaves (state : TenantState) : Prop :=
  ∀ entry ∈ state.tree.placedLeaves, Readable entry.2.template

theorem readableLeaves_move {record : OtlpLogRecord} {fresh : Option Nat}
    {before after : TenantState} {changes : List (Nat × TemplateChange)}
    (h : ReadableLeaves before)
    (hmove : TenantMove record (lineTokens record) fresh before changes after)
    (hwf : before.WellFormed) (hspells : wildcardText ∉ lineTokens record) :
    ReadableLeaves after := by
  have hplace : (before.placeFor (mask (lineTokens record))).1 = (lineTokens record).length := by
    simp [TenantState.placeFor, Tree.placeOf]
  have hboth := hmove.forall_placed
    (fun place leaf => leaf.template.length = place.1 ∧ Readable leaf.template) ?_ ?_ ?_
    (fun entry hentry => ⟨(hwf.leaf entry hentry).1, h entry hentry⟩)
  · exact fun entry hentry => (hboth entry hentry).2
  · intro templateId provenance associations observed bound htokens _ _
    rw [Leaf.template_associateUpstream, Leaf.fresh, hplace]
    exact ⟨by rw [leafTemplate_mask, List.length_map], readable_leafTemplate htokens hspells⟩
  · rintro leaf steps observed bound - - ⟨hlen, hleaf⟩
    rw [hplace] at hlen ⊢
    rw [Leaf.template_associateUpstream]
    exact ⟨(length_widenTemplate hlen).trans hlen, readable_widenTemplate hlen hleaf⟩
  · intro place leaf hleaf
    exact hleaf

/-! ### The reader sees the lines -/

/-- A row bound to a text renders against the registry as against the text's
template. -/
theorem render_of_binds {events : List AuditEvent} {row : MinedRecord} {raw : Text}
    {template : List OwnedToken}
    (hfunctional : ∀ key text other, Binds events key text → Binds events key other → text = other)
    (hbinds : Binds events (row.templateId, row.templateVersion) (formatTemplate template))
    (hreadable : Readable template) (hbound : BoundRow raw template row)
    (hkind : row.bodyKind = .string) (hoverflow : row.anyOverflow = false) :
    ∃ tokens, deriveTemplateRegistry events (row.templateId, row.templateVersion) = some tokens ∧
      render row tokens = (raw, .faithful) := by
  refine ⟨template, ?_, (hbound.captures hoverflow).render_eq hkind hbound.lossyFlag hoverflow⟩
  rw [deriveTemplateRegistry_eq hbinds fun other hother => hfunctional _ _ _ hother hbinds,
    parseTemplate_formatTemplate hreadable.1 hreadable.2]

/-- In a run of lines without a token spelled like the wildcard, every clean string row
renders to its line against the registry of the tenant's events. -/
theorem clean_row_renders_faithfully (env : Environment) (config : MinerConfig)
    (tenantOverrides : AList fun _ : TenantId => MinerConfig) (ids : IdRange)
    (earlier later : List OtlpLogRecord) (record : OtlpLogRecord) (row : MinedRecord)
    (hspells : ∀ line ∈ earlier ++ record :: later, wildcardText ∉ lineTokens line)
    (hrow : Emission.record row ∈
      ((MinerCluster.new config tenantOverrides ids).after env earlier
        |>.ingest env record).emitted)
    (hkind : row.bodyKind = .string) (hlossy : row.lossyFlag = false)
    (hoverflow : row.anyOverflow = false) :
    ∃ raw tokens, record.body = some (.string raw) ∧
      deriveTemplateRegistry (tenantEvents row.tenantId (auditEvents
          ((MinerCluster.new config tenantOverrides ids).emissions env
            (earlier ++ record :: later))))
        (row.templateId, row.templateVersion) = some tokens ∧
      render row tokens = (raw, .faithful) := by
  let start := MinerCluster.new config tenantOverrides ids
  have hinvariant : ∀ {records}, (∀ line ∈ records, wildcardText ∉ lineTokens line) →
      ∀ tenant, Registered ((start.after env records).tenantOrNew tenant)
          (tenantEvents tenant (auditEvents (start.emissions env records))) ∧
        ReadableLeaves ((start.after env records).tenantOrNew tenant) := by
    intro records hrecords tenant
    refine MinerCluster.forall_tenant_after
      (fun state events => Registered state events ∧ ReadableLeaves state)
      (fun line => wildcardText ∉ lineTokens line) ?_ ?_ config tenantOverrides ids hrecords tenant
    · intro config
      exact ⟨registered_new config, by simp [ReadableLeaves, TenantState.new]⟩
    · intro record fresh before changes after earlier new hgood hmove hwf hfresh hnew hbefore
      exact ⟨hbefore.1.move hwf hmove hfresh hnew,
        readableLeaves_move hbefore.2 hmove hwf hgood⟩
  -- The row is bound by the events up to its own ingest; the later ones bind
  -- nothing else to its version.
  have hsplit : earlier ++ record :: later = (earlier ++ [record]) ++ later := by simp
  rw [hsplit] at hspells ⊢
  have hfirst := (List.forall_mem_append.mp hspells).1
  have hstate : start.after env (earlier ++ [record]) =
      ((start.after env earlier).ingest env record).cluster := by
    rw [MinerCluster.after_append]
    rfl
  have hwf : (start.after env earlier).WellFormed :=
    MinerCluster.wellFormed_after (MinerCluster.wellFormed_new config tenantOverrides ids) earlier
  obtain ⟨events, last, hemitted, -, henvelope, hlast⟩ :=
    (start.after env earlier).ingest_spec env hwf record
  obtain rfl : row = last := by
    rw [hemitted] at hrow
    simpa using hrow
  have htenant : row.tenantId = record.tenantId := congrArg Envelope.tenantId henvelope
  have hfunctional := (hinvariant hspells record.tenantId).1.functional
  obtain ⟨hregistered, hreadable⟩ := hinvariant hfirst record.tenantId
  rw [hstate] at hregistered hreadable
  rw [MinerCluster.emissions_append, auditEvents_append, tenantEvents_append] at hfunctional ⊢
  rw [htenant]
  cases hlast with
  | absent habsent => simp [habsent] at hkind
  | structured hstructured => simp [hstructured] at hkind
  | @string raw hbody _ hstring =>
    refine ⟨raw, ?_⟩
    suffices hrender : ∃ template, Readable template ∧ BoundRow raw template row ∧
        Binds (tenantEvents record.tenantId
          (auditEvents (start.emissions env (earlier ++ [record]))))
          (row.templateId, row.templateVersion) (formatTemplate template) by
      obtain ⟨template, htemplate, hbound, hbinds⟩ := hrender
      obtain ⟨tokens, hderived, hrendered⟩ := render_of_binds hfunctional
        (hbinds.append_left _) htemplate hbound hkind hoverflow
      exact ⟨tokens, hbody, hderived, hrendered⟩
    cases hstring with
    | retained hid hretained => simp [hretained] at hlossy
    | mined hadopted hleaf hbound =>
      obtain ⟨state, leaf, hlookup, hmem, hid, hversion, rfl⟩ := hleaf
      rw [MinerCluster.tenantOrNew_of_lookup hlookup] at hregistered hreadable
      obtain ⟨entry, hentry, rfl⟩ := List.mem_map.mp hmem
      rw [← hid, ← hversion]
      exact ⟨_, hreadable entry hentry, hbound, hregistered.leaf _ hmem⟩
    | adopted hparsed hadopted hentry hbound =>
      obtain ⟨state, entry, hlookup, hadopted, hid, hversion⟩ := hentry
      rw [MinerCluster.tenantOrNew_of_lookup hlookup] at hregistered
      rw [← hid, ← hversion]
      exact ⟨_, parseUpstream_ok hparsed, hbound, hregistered.entry _ _ hadopted⟩

/-- A line whose leaf another line minted, read after both. -/
theorem clean_row_renders_faithfully_user_line :
    ∃ row tokens, Emission.record row ∈
        ((MinerCluster.new { } ∅ IdRange.new).after standInEnvironment
            [plainRecord ['t'] "user 17 logged in".toList]
          |>.ingest standInEnvironment (plainRecord ['t'] "user 18 logged in".toList)).emitted ∧
      row.bodyKind = .string ∧ row.lossyFlag = false ∧ row.anyOverflow = false ∧
      deriveTemplateRegistry (tenantEvents row.tenantId (auditEvents
          ((MinerCluster.new { } ∅ IdRange.new).emissions standInEnvironment
            [plainRecord ['t'] "user 17 logged in".toList,
              plainRecord ['t'] "user 18 logged in".toList])))
        (row.templateId, row.templateVersion) = some tokens ∧
      render row tokens = ("user 18 logged in".toList, .faithful) := by
  obtain ⟨row, hmem, hkind, hlossy, hoverflow⟩ := exists_user_row
  obtain ⟨raw, tokens, hbody, hderived, hrendered⟩ := clean_row_renders_faithfully
    standInEnvironment { } ∅ IdRange.new [plainRecord ['t'] "user 17 logged in".toList] []
    (plainRecord ['t'] "user 18 logged in".toList) row
    (by decide +kernel) hmem hkind hlossy hoverflow
  cases hbody
  exact ⟨row, tokens, hmem, hkind, hlossy, hoverflow, hderived, hrendered⟩

/-- A line with a token spelled `<*>` mints a fixed token that the reader parses as
a wildcard: the row has one parameter too few, and renders as nothing. -/
theorem literal_wildcard_renders_empty :
    ∃ row tokens, Emission.record row ∈
        ((MinerCluster.new { } ∅ IdRange.new).ingest standInEnvironment
          (plainRecord ['t'] "foo <*> bar".toList)).emitted ∧
      row.bodyKind = .string ∧ row.lossyFlag = false ∧ row.anyOverflow = false ∧
      deriveTemplateRegistry (tenantEvents row.tenantId (auditEvents
          ((MinerCluster.new { } ∅ IdRange.new).emissions standInEnvironment
            [plainRecord ['t'] "foo <*> bar".toList])))
        (row.templateId, row.templateVersion) = some tokens ∧
      render row tokens = ([], .retainedVerbatim) := by
  obtain ⟨row, hmem, hrow⟩ := exists_row ((MinerCluster.new { } ∅ IdRange.new).ingest
    standInEnvironment (plainRecord ['t'] "foo <*> bar".toList)).emitted (fun row =>
      row.bodyKind == .string && !row.lossyFlag && !row.anyOverflow &&
        ((deriveTemplateRegistry (tenantEvents row.tenantId (auditEvents
          ((MinerCluster.new { } ∅ IdRange.new).emissions standInEnvironment
            [plainRecord ['t'] "foo <*> bar".toList])))
          (row.templateId, row.templateVersion)).any fun tokens =>
            render row tokens == ([], .retainedVerbatim))) (by decide +kernel)
  simp only [Bool.and_eq_true, beq_iff_eq, Bool.not_eq_true', Option.any_eq_true_iff_get] at hrow
  obtain ⟨⟨⟨hkind, hlossy⟩, hoverflow⟩, hsome, hrendered⟩ := hrow
  exact ⟨row, _, hmem, hkind, hlossy, hoverflow, (Option.some_get hsome).symm, hrendered⟩

end Ourios.Querier
