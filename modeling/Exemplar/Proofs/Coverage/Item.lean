import Exemplar.Proofs.Coverage.Balance
import Mathlib.Data.List.Basic

/-!
# Lists are covered item by item

The check of node types looks at its list as a whole first: whether all of it is taken for granted, and whether there
is anything to look at. None of this shows in the verdict. It is the same as if each item were checked on
its own, and so are those on attributes and operators. What is taken for granted may thus be listed or not.
-/

namespace Exemplar.Coverage

/-- A verdict on lists that comes to the verdicts on their items. The order of the items and their number do not
matter then. -/
structure Itemwise (verdict : List String → Bool) : Prop where
  each : ∀ items, verdict items = true ↔ ∀ item ∈ items, verdict [item] = true
  same : ∀ items others, (∀ item, item ∈ items ↔ item ∈ others) → verdict items = verdict others
  append : ∀ items others, verdict (items ++ others) = (verdict items && verdict others)

namespace Itemwise

variable {verdict : List String → Bool}

theorem of_all {covered : String → Bool} (h : ∀ items, verdict items = items.all covered) : Itemwise verdict := by
  obtain rfl : verdict = fun items => items.all covered := funext h
  constructor
  · intro items
    simp
  · intro items others hsame
    rw [Bool.eq_iff_iff, List.all_eq_true, List.all_eq_true]
    exact forall_congr' fun item => imp_congr_left (hsame item)
  · intro items others
    exact List.all_append

/-- An item that is covered by itself may be put in anywhere. -/
theorem insert (h : Itemwise verdict) {item : String} (covered : verdict [item] = true) (front back : List String) :
    verdict (front ++ item :: back) = verdict (front ++ back) := by
  rw [← List.singleton_append, h.append, h.append, h.append, covered, Bool.true_and]

end Itemwise

variable (ctx : Context)

/-! ### The three lists -/

/-- Whether a node type is covered, whatever else is in its list. -/
def coversNodeType (nodeType : String) : Bool :=
  nodeType == Code.implicitType || ctx.hasContent && isFound ctx nodeType

theorem success_checkNodeTypes_eq_all (nodeTypes : List String) :
    (checkNodeTypes nodeTypes ctx).success = nodeTypes.all (coversNodeType ctx) := by
  have hgranted : (nodeTypes.count Code.implicitType == nodeTypes.length) =
      nodeTypes.all (· == Code.implicitType) := by
    rw [Bool.eq_iff_iff, beq_iff_eq, List.count_eq_length, List.all_eq_true]
    exact forall₂_congr fun nodeType _ => by rw [beq_iff_eq, eq_comm]
  rw [success_checkNodeTypes, hgranted]
  cases hcontent : ctx.hasContent with
  | false =>
    -- Only what is taken for granted is covered.
    have hcovers (nodeType : String) : coversNodeType ctx nodeType = (nodeType == Code.implicitType) := by
      rw [coversNodeType, hcontent, Bool.false_and, Bool.or_false]
    rw [funext hcovers, Bool.false_and, Bool.or_false]
  | true =>
    -- What is taken for granted is found as well, so that it need not be told apart.
    have hcovers (nodeType : String) : coversNodeType ctx nodeType = isFound ctx nodeType := by
      rw [coversNodeType, hcontent, Bool.true_and]
      cases hnodeType : nodeType == Code.implicitType with
      | false => rfl
      | true => rw [eq_of_beq hnodeType, isFound_implicitType, Bool.true_or]
    have himplied : nodeTypes.all (· == Code.implicitType) = true → nodeTypes.all (isFound ctx) = true := by
      simp only [List.all_eq_true, beq_iff_eq]
      intro hall nodeType hnodeType
      rw [hall nodeType hnodeType]
      exact isFound_implicitType ctx
    rw [funext hcovers, Bool.true_and]
    cases hall : nodeTypes.all (· == Code.implicitType) with
    | false => exact Bool.false_or _
    | true => rw [himplied hall, Bool.true_or]

theorem itemwise_checkNodeTypes : Itemwise fun nodeTypes => (checkNodeTypes nodeTypes ctx).success :=
  .of_all (success_checkNodeTypes_eq_all ctx)

/-- Whether an attribute or an operator is covered, whatever else is in its list. -/
def Membership.covers (m : Membership) (item : String) : Bool :=
  ctx.hasContent && m.isEvidenced ctx item

theorem Membership.success_check_eq_all (m : Membership) (items : List String) :
    (m.check items ctx).success = items.all (m.covers ctx) := by
  have hcovers : m.covers ctx = fun item => ctx.hasContent && m.isEvidenced ctx item := rfl
  rw [m.success_check, hcovers]
  cases ctx.hasContent with
  | false => cases items <;> rfl
  | true => cases items <;> rfl

theorem Membership.itemwise_check (m : Membership) : Itemwise fun items => (m.check items ctx).success :=
  .of_all (m.success_check_eq_all ctx)

/-- Whether the node types, the attributes or the operators of a query are covered depends on nothing but whether
each of them is by itself, with and without content, and whatever the examples are read as. It does not depend
on whether the node type that is taken for granted is in the list. -/
theorem success_itemwise :
    Itemwise (fun nodeTypes => (checkNodeTypes nodeTypes ctx).success) ∧
    Itemwise (fun names => (checkAttributes names ctx).success) ∧
    Itemwise (fun values => (checkOperators values ctx).success) ∧
    ∀ front back, (checkNodeTypes (front ++ Code.implicitType :: back) ctx).success =
      (checkNodeTypes (front ++ back) ctx).success := by
  have hgranted : (checkNodeTypes [Code.implicitType] ctx).success = true := by
    simp [success_checkNodeTypes_eq_all, coversNodeType]
  exact ⟨itemwise_checkNodeTypes ctx, Membership.itemwise_check ctx .ofAttributes,
    Membership.itemwise_check ctx .ofOperators, (itemwise_checkNodeTypes ctx).insert hgranted⟩

end Exemplar.Coverage
