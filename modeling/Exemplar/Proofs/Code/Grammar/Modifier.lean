import Exemplar.Code.Grammar.Modifier
import Exemplar.Proofs.Code.Reading

/-!
# What is read as modifiers

The node of the modifiers is there even where none are. It stands on the line of the first token behind the
place where it was looked for, which then belongs to what the modifiers stand in front of.
-/

namespace Exemplar.Code

/-- The node of the modifiers that were read, in front of the tokens left. -/
structure ReadsModifiers (mods : Node) (read left : List Token) : Prop where
  kind : mods.kind = .modifierNode
  shaped : mods.IsShaped
  reading : Reading read mods.children
  starts : read ++ left ≠ [] → Starts mods.line (read ++ left)

/-- What the modifiers belong to is there. -/
theorem ReadsModifiers.starts_append {mods : Node} {front tokens left : List Token}
    (h : ReadsModifiers mods front (tokens ++ left)) (htokens : tokens ≠ []) :
    Starts mods.line (front ++ tokens) := by
  have hne : front ++ tokens ≠ [] := List.append_ne_nil_of_right_ne_nil _ htokens
  exact .of_noted (List.append_assoc front tokens left ▸ h.starts) hne

namespace Grammar

open Parse

variable {depth : Nat} {tokens : List Token}

theorem meets_parameterName : Meets depth parameterName tokens fun _ read _ => Reading read [] := by
  refine .ifPair ?_ (.pure .nil)
  rintro name assign rest rfl hname hassign
  refine (meets_skip [name, assign]).mono ?_
  rintro _ _ _ - ⟨rfl, -⟩
  exact (Reading.ofIdent hname).append (.ofSymbol hassign rfl)

theorem meets_annotationParameter : Meets depth annotationParameter tokens fun node? read _ =>
    read ≠ [] ∧ Yields (.many [.annotationParameter]) node?.toList read := by
  refine .ifEat ?_ (.lineRead fun line => ?_)
  · rintro comma rest rfl hcomma
    exact .pure ⟨by simp, .silent (.ofSymbol hcomma rfl)⟩
  · refine .bind meets_parameterName fun _ name _ _ hname => ?_
    refine .expectIf rfl fun value _ hvalue => .pure fun hstarts => ?_
    have hread : name ++ [value] ≠ [] := by simp
    have hplain : value.isBracket = false := by
      rw [Token.isBracket, Option.isNone_iff_eq_none.mp hvalue, Option.any_none]
    have hnode : Yields (.one [.annotationParameter]) [.leaf .annotationParameter line]
        (name ++ [value]) :=
      (Fills.nil (hname.after (.token hplain))).node (.head _) (hstarts hread) trivial (.head _) (by decide)
    exact ⟨hread, hnode.many (List.Subset.refl _)⟩

theorem meets_annotationUse : Meets depth annotationUse tokens fun node read _ =>
    Yields (.one [.annotationUse]) [node] read := by
  refine .lineRead fun line => .expect fun mark _ hmark => ?_
  refine .expectIdent fun name _ hname => ?_
  have hfront : Reading ([mark] ++ [name]) [] := (Reading.ofSymbol hmark rfl).after (.ofIdent hname)
  refine .ifEat ?_ (.pure ?_)
  · rintro opening rest rfl hopening
    refine .map ((meets_collectTo _ Option.toList fun _ => meets_annotationParameter).mono ?_)
    rintro parameters read _ rfl hread hstarts
    rw [List.filterMap_eq_flatMap_toList]
    exact ((Fills.last (hread.bracketed hopening rfl)).after hfront).node (.head _) (hstarts (by simp))
      trivial (.head _) (by decide)
  · intro hstarts
    exact (Fills.last (.silent hfront)).node (.head _) (hstarts (by simp)) trivial (.head _) (by decide)

theorem meets_modifier? : Meets depth modifier? tokens fun found read _ => found.elim (Reading read [])
    fun annotation? => read ≠ [] ∧ Yields (.many [.annotationUse]) annotation?.toList read := by
  refine .ifAhead ?_ (.ifEat ?_ (.ifPair ?_ (.pure .nil)))
  · rintro mark rest rfl -
    refine .map (meets_annotationUse.mono fun node read _ _ hnode => ?_)
    exact hnode.item
  · rintro word rest rfl hword
    exact .pure ⟨by simp, .silent (.ofIdent (Token.isIdent_of_any hword))⟩
  · rintro word sharing rest rfl hword hsharing
    refine .skip [word, sharing] (.pure ?_)
    exact ⟨by simp, .silent ((Reading.ofIdent (Token.isIdent_of_any hword)).append (.ofWord hsharing))⟩

theorem meets_modifiers : Meets depth modifiers tokens ReadsModifiers := by
  refine .line fun line hline => ?_
  refine .map ((meets_many _ Option.toList fun _ => meets_modifier?).mono ?_)
  rintro annotations read left rfl hread
  rw [List.filterMap_eq_flatMap_toList]
  exact ⟨rfl, ⟨_, .head _, .last hread.holds⟩, hread.reading, hline⟩

end Grammar

end Exemplar.Code
