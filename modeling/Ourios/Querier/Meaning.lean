/-
# What a lowered predicate means

The lowering folds constants and stops at a term that decides its connective, so
some leaves are never lowered at all. Its verdict on a row is nevertheless the
three-valued reading of the predicate over any valuation that gives each leaf
that does lower its own verdict. Comparing two lowerings, or one lowering on two
rows, then comes down to comparing leaves.
-/

import Ourios.Querier.Predicate

namespace Ourios.Querier

open Ourios.Foundation

/-- A predicate without connectives. -/
inductive PredicateLeaf
  | comparison (field : Field) (op : CmpOp) (value : Value)
  | severity (op : OrdOp) (value : SeverityValue)
  | call (call : Call)
  deriving DecidableEq, Repr

def compileLeaf (lowering : Lowering) : PredicateLeaf → Except QueryError PredExpr
  | .comparison field op value => compileComparison lowering field op value
  | .severity op value => .ok (compileSeverity op value)
  | .call call => compileCall lowering call

mutual

/-- The three-valued reading of a predicate, from the verdicts of its leaves. -/
def Predicate.meaning (leaf : PredicateLeaf → Truth) : Predicate → Truth
  | .bool value => some value
  | .not inner => (inner.meaning leaf).not
  | .and terms => Truth.fold true (some true) (meanings leaf terms)
  | .or terms => Truth.fold false (some false) (meanings leaf terms)
  | .comparison field op value => leaf (.comparison field op value)
  | .severity op value => leaf (.severity op value)
  | .call call => leaf (.call call)

/-- The readings of the terms of a connective. -/
def meanings (leaf : PredicateLeaf → Truth) : List Predicate → List Truth
  | [] => []
  | term :: terms => term.meaning leaf :: meanings leaf terms

end

mutual

/-- The leaves of a predicate, each with the polarity it occurs at: an odd number
of negations above it turns the polarity around. -/
def Predicate.leaves (polarity : Bool) : Predicate → List (Bool × PredicateLeaf)
  | .bool _ => []
  | .not inner => inner.leaves (!polarity)
  | .and terms => leavesOf polarity terms
  | .or terms => leavesOf polarity terms
  | .comparison field op value => [(polarity, .comparison field op value)]
  | .severity op value => [(polarity, .severity op value)]
  | .call call => [(polarity, .call call)]

/-- The leaves of the terms of a connective. -/
def leavesOf (polarity : Bool) : List Predicate → List (Bool × PredicateLeaf)
  | [] => []
  | term :: terms => term.leaves polarity ++ leavesOf polarity terms

end

/-- A valuation gives every leaf that lowers its own verdict. -/
def Lowering.Values (lowering : Lowering) (row : Row) (leaf : PredicateLeaf → Truth) : Prop :=
  ∀ term expr, compileLeaf lowering term = .ok expr → leaf term = expr.verdict lowering.engine row

/-- The verdict of the expression a connective has built so far. -/
def accVerdict (engine : Engine) (row : Row) (isAnd : Bool) : Option Filter → Truth
  | some expr => expr.eval engine row
  | none => some isAnd

section Verdict

variable {lowering : Lowering} {row : Row} {leaf : PredicateLeaf → Truth}

/-- Joining a term to the expression built so far. -/
theorem accVerdict_joinTerm (engine : Engine) (row : Row) (isAnd : Bool) (acc : Option Filter)
    (expr : Filter) :
    accVerdict engine row isAnd (some (joinTerm isAnd acc expr)) =
      Truth.lattice isAnd (accVerdict engine row isAnd acc) (expr.eval engine row) := by
  cases acc with
  | none => exact (Truth.unit_lattice isAnd _).symm
  | some acc => cases isAnd <;> rfl

mutual

theorem compilePredicate_verdict (hleaf : lowering.Values row leaf) :
    ∀ (predicate : Predicate) {expr : PredExpr}, compilePredicate lowering predicate = .ok expr →
      expr.verdict lowering.engine row = predicate.meaning leaf
  | .bool true, expr, h => by cases h; rfl
  | .bool false, expr, h => by cases h; rfl
  | .not inner, expr, h => by
    rw [compilePredicate] at h
    cases hinner : compilePredicate lowering inner with
    | error error => simp [hinner, bind, Except.bind] at h
    | ok lowered =>
      have hverdict := compilePredicate_verdict hleaf inner hinner
      rw [Predicate.meaning, ← hverdict]
      cases lowered <;> simp only [hinner, bind, Except.bind, pure, Except.pure] at h <;>
        cases h <;> rfl
  | .and terms, expr, h => by
    exact combine_verdict hleaf true terms h
  | .or terms, expr, h => by
    exact combine_verdict hleaf false terms h
  | .comparison field op value, expr, h => by
    exact (hleaf (.comparison field op value) _ h).symm
  | .severity op value, expr, h => by
    exact (hleaf (.severity op value) _ h).symm
  | .call call, expr, h => by
    exact (hleaf (.call call) _ h).symm

theorem combine_verdict (hleaf : lowering.Values row leaf) (isAnd : Bool) :
    ∀ (terms : List Predicate) {acc : Option Filter} {expr : PredExpr},
      combine lowering isAnd acc terms = .ok expr →
      expr.verdict lowering.engine row =
        Truth.fold isAnd (accVerdict lowering.engine row isAnd acc) (meanings leaf terms)
  | [], acc, expr, h => by
    cases acc with
    | none => cases isAnd <;> cases h <;> rfl
    | some acc => cases h; rfl
  | term :: terms, acc, expr, h => by
    rw [combine] at h
    rw [meanings, Truth.fold, List.foldl_cons, ← Truth.fold]
    cases hterm : compilePredicate lowering term with
    | error error => simp [hterm, bind, Except.bind] at h
    | ok lowered =>
      rw [← compilePredicate_verdict hleaf term hterm]
      simp only [hterm, bind, Except.bind] at h
      split at h
      · -- `true` under a conjunction is dropped.
        rw [combine_verdict hleaf true terms h]
        exact congrArg (Truth.fold true · _) (Truth.lattice_unit true _).symm
      · rw [combine_verdict hleaf false terms h]
        exact congrArg (Truth.fold false · _) (Truth.lattice_unit false _).symm
      · -- `false` decides a conjunction whatever the later terms read.
        cases h
        change _ = Truth.fold true (Truth.lattice true _ (some false)) _
        rw [show some false = some !true from rfl, Truth.lattice_absorb, Truth.fold_absorb]
        rfl
      · cases h
        change _ = Truth.fold false (Truth.lattice false _ (some true)) _
        rw [show some true = some !false from rfl, Truth.lattice_absorb, Truth.fold_absorb]
        rfl
      · rw [combine_verdict hleaf isAnd terms h, accVerdict_joinTerm]
        rfl

end

end Verdict

/-! ## Comparing two readings -/

section Compare

variable {leaf leaf' : PredicateLeaf → Truth}

mutual

/-- The leaves determine the reading. -/
theorem Predicate.meaning_congr : ∀ (polarity : Bool) (predicate : Predicate),
    (∀ term ∈ predicate.leaves polarity, leaf term.2 = leaf' term.2) →
      predicate.meaning leaf = predicate.meaning leaf'
  | _, .bool _, _ => rfl
  | polarity, .not inner, h => congrArg Truth.not (Predicate.meaning_congr (!polarity) inner h)
  | polarity, .and terms, h => congrArg (Truth.fold true _) (meanings_congr polarity terms h)
  | polarity, .or terms, h => congrArg (Truth.fold false _) (meanings_congr polarity terms h)
  | _, .comparison _ _ _, h | _, .severity _ _, h | _, .call _, h => by
    exact h _ (by rw [Predicate.leaves]; exact List.mem_singleton_self _)

theorem meanings_congr (polarity : Bool) : ∀ (terms : List Predicate),
    (∀ term ∈ leavesOf polarity terms, leaf term.2 = leaf' term.2) →
      meanings leaf terms = meanings leaf' terms
  | [], _ => rfl
  | term :: terms, h => by
    rw [leavesOf, List.forall_mem_append] at h
    rw [meanings, meanings, Predicate.meaning_congr polarity term h.1,
      meanings_congr polarity terms h.2]

end

end Compare

/-! ## What settles a reading -/

mutual

/-- A predicate has a truth value by its leaves, of which `holds` says which value they
count as having. A conjunction is true by all of its terms and false by one of them, a
disjunction the other way round. -/
def Predicate.Settled (holds : Bool → PredicateLeaf → Prop) : Bool → Predicate → Prop
  | value, .bool given => given = value
  | value, .not inner => inner.Settled holds !value
  | value, .and terms => termsSettled holds true value terms
  | value, .or terms => termsSettled holds false value terms
  | value, .comparison field op given => holds value (.comparison field op given)
  | value, .severity op given => holds value (.severity op given)
  | value, .call call => holds value (.call call)

/-- The value of a connective, from its terms. -/
def termsSettled (holds : Bool → PredicateLeaf → Prop) (isAnd value : Bool) :
    List Predicate → Prop
  | [] => isAnd = value
  | term :: terms =>
    if value = isAnd then term.Settled holds value ∧ termsSettled holds isAnd value terms
    else term.Settled holds value ∨ termsSettled holds isAnd value terms

end

section Settled

variable {leaf : PredicateLeaf → Truth} {holds holds' : Bool → PredicateLeaf → Prop}

mutual

/-- The reading of a predicate is known where its leaves settle it. -/
theorem Predicate.meaning_eq_some_iff
    (hleaf : ∀ value term, leaf term = some value ↔ holds value term) :
    ∀ (value : Bool) (predicate : Predicate),
      predicate.meaning leaf = some value ↔ predicate.Settled holds value
  | value, .bool given => by rw [Predicate.meaning, Predicate.Settled, Option.some.injEq]
  | value, .not inner => by
    rw [Predicate.meaning, Truth.not_eq_some_iff, Predicate.meaning_eq_some_iff hleaf,
      Predicate.Settled]
  | value, .and terms => by exact meanings_eq_some_iff hleaf true value terms
  | value, .or terms => by exact meanings_eq_some_iff hleaf false value terms
  | value, .comparison _ _ _ | value, .severity _ _ | value, .call _ => by exact hleaf value _

theorem meanings_eq_some_iff
    (hleaf : ∀ value term, leaf term = some value ↔ holds value term) (isAnd value : Bool) :
    ∀ terms : List Predicate, Truth.fold isAnd (some isAnd) (meanings leaf terms) = some value ↔
      termsSettled holds isAnd value terms
  | [] => by exact Option.some_inj
  | term :: terms => by
    rw [meanings, Truth.fold_cons, Truth.lattice_eq_some_iff,
      Predicate.meaning_eq_some_iff hleaf value term,
      meanings_eq_some_iff hleaf isAnd value terms, termsSettled]

end

mutual

/-- Only the value a leaf is asked for matters, which is the polarity it occurs at. -/
theorem Predicate.Settled.mono : ∀ {value : Bool} {predicate : Predicate},
    (∀ term ∈ predicate.leaves value, holds term.1 term.2 → holds' term.1 term.2) →
      predicate.Settled holds value → predicate.Settled holds' value
  | _, .bool _, _, h => h
  | value, .not inner, hmono, h => @Predicate.Settled.mono (!value) inner hmono h
  | _, .and _, hmono, h => termsSettled_mono hmono h
  | _, .or _, hmono, h => termsSettled_mono hmono h
  | _, .comparison _ _ _, hmono, h | _, .severity _ _, hmono, h | _, .call _, hmono, h =>
    hmono (_, _) (List.mem_singleton_self _) h

theorem termsSettled_mono {isAnd value : Bool} : ∀ {terms : List Predicate},
    (∀ term ∈ leavesOf value terms, holds term.1 term.2 → holds' term.1 term.2) →
      termsSettled holds isAnd value terms → termsSettled holds' isAnd value terms
  | [], _, h => h
  | term :: terms, hmono, h => by
    rw [leavesOf, List.forall_mem_append] at hmono
    rw [termsSettled] at h ⊢
    by_cases hunit : value = isAnd
    · rw [if_pos hunit] at h ⊢
      exact h.imp (Predicate.Settled.mono hmono.1) (termsSettled_mono hmono.2)
    · rw [if_neg hunit] at h ⊢
      exact h.imp (Predicate.Settled.mono hmono.1) (termsSettled_mono hmono.2)

end

end Settled

end Ourios.Querier
