/-
# Placing groups on nodes

A group's voters are the candidates of highest score, ties going to the smaller id. The
ranked pairs are sorted, their adjacent repeats are dropped and the first are taken; what
that gives depends on the set of candidates alone. A candidate that joins takes a place
from at most one other, and one that holds no place can leave unnoticed.
-/

import Ourios.Core.Text
import Ourios.Foundation.Aggregate
import Ourios.Foundation.Ranking

namespace Ourios.Replicated

open Ourios.Foundation

abbrev Hash := Fin (2 ^ 64)

/-- A candidate behind its score, the highest first and then the smallest id. -/
abbrev Ranked := Hashᵒᵈ ×ₗ Text

/-- The score of a candidate for a group, as ranked. -/
def ranked (score : ℕ → Text → Hash) (group : ℕ) (node : Text) : Ranked :=
  toLex (OrderDual.toDual (score group node), node)

def Ranked.node (entry : Ranked) : Text := (ofLex entry).2

/-- The candidates a group is placed on, the highest score first. -/
def place (sorter : UnstableSort Ranked) (score : ℕ → Text → Hash) (group : ℕ)
    (candidates : List Text) (n : ℕ) : List Text :=
  let entries := sorter.sort (candidates.map (ranked score group))
  ((dedupByKey Ranked.node entries).take n).map Ranked.node

/-- The group a tenant belongs to. -/
def groupOf (hash : Text → Hash) (tenant : Text) (groups : ℕ) : ℕ := hash tenant % groups

/-! ## The ranking behind a placement -/

section Ranking

variable (sorter : UnstableSort Ranked) (score : ℕ → Text → Hash) (group : ℕ)
  {candidates others : List Text} {x : Text}

@[simp] theorem node_ranked (node : Text) : (ranked score group node).node = node := rfl

theorem ranked_injective : Function.Injective (ranked score group) :=
  Function.LeftInverse.injective (node_ranked score group)

/-- Every distinct candidate, ranked. -/
def ranking (candidates : List Text) : List Ranked :=
  dedupByKey Ranked.node (sorter.sort (candidates.map (ranked score group)))

theorem place_eq (candidates : List Text) (n : ℕ) :
    place sorter score group candidates n =
      ((ranking sorter score group candidates).take n).map Ranked.node :=
  rfl

theorem ranking_ascending (candidates : List Text) :
    (ranking sorter score group candidates).Pairwise (· < ·) ∧
      ∀ entry, entry ∈ ranking sorter score group candidates ↔
        ∃ node ∈ candidates, ranked score group node = entry := by
  have hmem : ∀ entry, entry ∈ sorter.sort (candidates.map (ranked score group)) ↔
      ∃ node ∈ candidates, ranked score group node = entry := by
    intro entry
    rw [(sorter.perm _).mem_iff, List.mem_map]
  -- a score is a function of the id, so the ids tell the entries apart
  have hkey : ∀ a ∈ sorter.sort (candidates.map (ranked score group)),
      ∀ b ∈ sorter.sort (candidates.map (ranked score group)), a.node = b.node → a = b := by
    intro a ha b hb hnode
    obtain ⟨first, -, rfl⟩ := (hmem a).mp ha
    obtain ⟨second, -, rfl⟩ := (hmem b).mp hb
    rw [node_ranked, node_ranked] at hnode
    rw [hnode]
  obtain ⟨hascending, hsame⟩ := dedupByKey_ascending hkey (sorter.ascending _)
  exact ⟨hascending, fun entry => (hsame entry).trans (hmem entry)⟩

theorem ranked_mem_ranking {node : Text} :
    ranked score group node ∈ ranking sorter score group candidates ↔ node ∈ candidates := by
  rw [(ranking_ascending sorter score group candidates).2]
  constructor
  · rintro ⟨other, hother, heq⟩
    rwa [← ranked_injective score group heq]
  · intro hnode
    exact ⟨node, hnode, rfl⟩

/-- The ids of the ranking, each once. -/
theorem nodes_ranking (candidates : List Text) :
    ((ranking sorter score group candidates).map Ranked.node).Nodup ∧
      ∀ node, node ∈ (ranking sorter score group candidates).map Ranked.node ↔
        node ∈ candidates := by
  obtain ⟨hascending, hmem⟩ := ranking_ascending sorter score group candidates
  constructor
  · refine List.Nodup.map_on ?_ hascending.nodup
    intro a ha b hb hnode
    obtain ⟨first, -, rfl⟩ := (hmem a).mp ha
    obtain ⟨second, -, rfl⟩ := (hmem b).mp hb
    rw [node_ranked, node_ranked] at hnode
    rw [hnode]
  · intro node
    rw [List.mem_map]
    constructor
    · rintro ⟨entry, hentry, rfl⟩
      obtain ⟨node, hnode, rfl⟩ := (hmem entry).mp hentry
      exact hnode
    · intro hnode
      exact ⟨_, (ranked_mem_ranking sorter score group).mpr hnode, rfl⟩

/-- Neither the order of the candidates nor the sort matters. -/
theorem ranking_congr (other : UnstableSort Ranked)
    (hsame : ∀ node, node ∈ candidates ↔ node ∈ others) :
    ranking sorter score group candidates = ranking other score group others := by
  obtain ⟨hascending, hmem⟩ := ranking_ascending sorter score group candidates
  obtain ⟨hascending', hmem'⟩ := ranking_ascending other score group others
  refine hascending.eq_of_mem_iff hascending' ?_
  intro entry
  rw [hmem, hmem']
  simp only [hsame]

/-- A candidate that joins stands somewhere in the ranking, which is otherwise unchanged. -/
theorem ranking_join (hfresh : x ∉ candidates)
    (hjoin : ∀ node, node ∈ others ↔ node ∈ candidates ∨ node = x) :
    ∃ front back, ranking sorter score group candidates = front ++ back ∧
      ranking sorter score group others = front ++ ranked score group x :: back := by
  obtain ⟨hascending, hmem⟩ := ranking_ascending sorter score group candidates
  obtain ⟨hascending', hmem'⟩ := ranking_ascending sorter score group others
  refine exists_split_of_join hascending hascending' ?_ ?_
  · rwa [ranked_mem_ranking]
  · intro entry
    rw [hmem, hmem']
    constructor
    · rintro ⟨node, hnode, rfl⟩
      rcases (hjoin node).mp hnode with hold | rfl
      · exact .inl ⟨node, hold, rfl⟩
      · exact .inr rfl
    · rintro (⟨node, hnode, rfl⟩ | rfl)
      · exact ⟨node, (hjoin node).mpr (.inl hnode), rfl⟩
      · exact ⟨x, (hjoin x).mpr (.inr rfl), rfl⟩

/-- A candidate that joins is let in, or nothing changes. -/
theorem place_join (hfresh : x ∉ candidates)
    (hjoin : ∀ node, node ∈ others ↔ node ∈ candidates ∨ node = x) (n : ℕ) :
    LetsIn x (place sorter score group candidates n) (place sorter score group others n) := by
  obtain ⟨front, back, hold, hgrown⟩ := ranking_join sorter score group hfresh hjoin
  rw [place_eq, place_eq, hold, hgrown]
  exact (letsIn_take front back (ranked score group x) n).map Ranked.node

theorem nodup_place (n : ℕ) : (place sorter score group candidates n).Nodup := by
  rw [place_eq, List.map_take]
  exact (nodes_ranking sorter score group candidates).1.sublist (List.take_sublist _ _)

theorem mem_of_mem_place {node : Text} {n : ℕ}
    (h : node ∈ place sorter score group candidates n) : node ∈ candidates := by
  rw [place_eq, List.map_take] at h
  exact ((nodes_ranking sorter score group candidates).2 node).mp (List.mem_of_mem_take h)

theorem length_place (n : ℕ) :
    (place sorter score group candidates n).length = min n candidates.toFinset.card := by
  obtain ⟨hnodup, hmem⟩ := nodes_ranking sorter score group candidates
  have hset : ((ranking sorter score group candidates).map Ranked.node).toFinset =
      candidates.toFinset := by
    ext node
    rw [List.mem_toFinset, List.mem_toFinset]
    exact hmem node
  rw [place_eq, List.map_take, List.length_take, ← hset, List.toFinset_card_of_nodup hnodup]

end Ranking

/-- Placement, whatever the scores and the sort: it gives the group as many distinct
candidates as it may and can, and depends on their set alone; a candidate that joins is the
only new member, costs at most one its place and leaves the others in their order; and
one that was not placed can leave. -/
theorem place_stable (sorter : UnstableSort Ranked) (score : ℕ → Text → Hash) (group : ℕ)
    (candidates : List Text) (n : ℕ) :
    let members := place sorter score group candidates n
    (members.Nodup ∧ (∀ node ∈ members, node ∈ candidates) ∧
      members.length = min n candidates.toFinset.card) ∧
    (∀ others, (∀ node, node ∈ candidates ↔ node ∈ others) →
      place sorter score group others n = members) ∧
    (∀ x others, x ∉ candidates → (∀ node, node ∈ others ↔ node ∈ candidates ∨ node = x) →
      let grown := place sorter score group others n
      (∀ node ∈ grown, node ∈ members ∨ node = x) ∧
        (members.filter (· ∉ grown)).length ≤ 1 ∧
        members.filter (· ∈ grown) = grown.filter (· ∈ members)) ∧
    ∀ x others, x ∉ members → (∀ node, node ∈ others ↔ node ∈ candidates ∧ node ≠ x) →
      place sorter score group others n = members := by
  intro members
  have hset : ∀ others, (∀ node, node ∈ candidates ↔ node ∈ others) →
      place sorter score group others n = members := by
    intro others hsame
    change place _ _ _ _ _ = place _ _ _ _ _
    rw [place_eq, place_eq, ranking_congr sorter score group sorter hsame]
  have hnodup : members.Nodup := nodup_place sorter score group n
  have hsubset : ∀ node ∈ members, node ∈ candidates :=
    fun _ => mem_of_mem_place sorter score group
  refine ⟨⟨hnodup, hsubset, length_place sorter score group n⟩, hset, ?_, ?_⟩
  · intro x others hfresh hjoin grown
    have hlets : LetsIn x members grown := place_join sorter score group hfresh hjoin n
    refine ⟨fun _ => hlets.mem, hlets.dropped, hlets.filter_eq ?_ hnodup⟩
    exact fun hx => hfresh (hsubset x hx)
  · intro x others hunplaced hleave
    by_cases hx : x ∈ candidates
    · -- the candidates are the others with one more
      have hjoin : ∀ node, node ∈ candidates ↔ node ∈ others ∨ node = x := by
        intro node
        rw [hleave]
        by_cases hnode : node = x
        · rw [hnode]
          simp [hx]
        · simp [hnode]
      obtain ⟨front, back, hold, hgrown⟩ := ranking_join sorter score group
        (fun hmem => ((hleave x).mp hmem).2 rfl) hjoin
      change place _ _ _ _ _ = place _ _ _ _ _
      change x ∉ place _ _ _ _ _ at hunplaced
      rw [place_eq, hgrown] at hunplaced
      rw [place_eq, place_eq, hold, hgrown]
      rw [take_eq_of_not_mem fun hmem => hunplaced (List.mem_map.mpr ⟨_, hmem, rfl⟩)]
    · refine hset others ?_
      intro node
      rw [hleave]
      refine ⟨fun hnode => ⟨hnode, ?_⟩, fun hnode => hnode.1⟩
      rintro rfl
      exact hx hnode

/-! ## The layout of the voters -/

/-- Who votes where. -/
structure VotingLayout where
  peers : Finset Text
  groups : ℕ
  groups_pos : 0 < groups
  replicationFactor : ℕ

namespace VotingLayout

variable (sorter : UnstableSort Ranked) (score : ℕ → Text → Hash) (layout : VotingLayout)

/-- The voters of a group, in placement order. -/
def voters (group : ℕ) : List Text :=
  place sorter score group (ascending layout.peers) layout.replicationFactor

/-- The groups a node votes in, ascending. -/
def groupsOf (node : Text) : List ℕ :=
  (List.range layout.groups).filter fun group => node ∈ layout.voters sorter score group

def groupOf (hash : Text → Hash) (tenant : Text) : ℕ := Replicated.groupOf hash tenant layout.groups

/-- A peer that joins takes groups away from the others and gives them none. -/
theorem groupsOf_join {x node : Text} (hfresh : x ∉ layout.peers) (hnode : node ≠ x) :
    (groupsOf sorter score { layout with peers := insert x layout.peers } node).Sublist
      (layout.groupsOf sorter score node) := by
  refine List.monotone_filter_right _ ?_
  intro group hvotes
  have hlets : LetsIn x (layout.voters sorter score group)
      (voters sorter score { layout with peers := insert x layout.peers } group) := by
    refine place_join sorter score group (by simpa using hfresh) ?_ _
    intro other
    simp [or_comm]
  refine decide_eq_true ?_
  rcases hlets.mem (of_decide_eq_true hvotes) with hold | hx
  · exact hold
  · exact absurd hx hnode

/-- The second peer takes the second of two groups. -/
theorem groupsOf_join_second_peer :
    let layout : VotingLayout := ⟨{['a']}, 2, two_pos, 1⟩
    let score : ℕ → Text → Hash :=
      fun group node => if node = ['b'] then Fin.ofNat _ (2 * group) else 1
    let joined := { layout with peers := insert ['b'] layout.peers }
    layout.groupsOf (.insertion _) score ['a'] = [0, 1] ∧
      joined.groupsOf (.insertion _) score ['a'] = [0] ∧
      joined.groupsOf (.insertion _) score ['b'] = [1] ∧
      (joined.groupsOf (.insertion _) score ['a']).Sublist
        (layout.groupsOf (.insertion _) score ['a']) :=
  ⟨by decide +kernel, by decide +kernel, by decide +kernel,
    groupsOf_join _ _ _ (by decide) (by decide)⟩

end VotingLayout

end Ourios.Replicated
