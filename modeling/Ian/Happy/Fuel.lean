import Ian.Happy.Parser

/-!
# More fuel changes nothing

The fuel of the grammar functions only cuts off runs: `parseDocument_extends`
says that a run of `parse_document` that finishes does the same with more fuel,
over any lexer.
-/

namespace Ian.Happy

open Ian.Lib Run

namespace FuelLemmas

variable {σ : Type} (lx : Lexer σ) {fuel fuel' : Nat}

theorem parseQualifiedIdentifier_extends (h : fuel ≤ fuel') :
    Extends (parseQualifiedIdentifier lx fuel) (parseQualifiedIdentifier lx fuel') := by
  refine Extends.bind (Extends.refl _) fun tmp => ?_
  exact Extends.loop (fun _ => Extends.refl _) h _

theorem parseType_extends (h : fuel ≤ fuel') :
    Extends (parseType lx fuel) (parseType lx fuel') :=
  Extends.bind (parseQualifiedIdentifier_extends lx h) fun _ => Extends.refl _

theorem parseFields_extends {α : Type} {item item' : Run σ Exception α} (h : fuel ≤ fuel')
    (hitem : Extends item item') :
    Extends (parseFields lx fuel item) (parseFields lx fuel' item') := by
  refine Extends.loop (fun fields => ?_) h _
  refine Extends.bind (Extends.refl _) fun symbol => Extends.ite ?_ (Extends.refl _)
  exact Extends.bind hitem fun _ => Extends.refl _

theorem parseStructField_extends (h : fuel ≤ fuel') :
    Extends (parseStructField lx fuel) (parseStructField lx fuel') := by
  refine Extends.bind (Extends.refl _) fun origin => ?_
  refine Extends.bind (Extends.refl _) fun identifier => ?_
  refine Extends.bind (Extends.refl _) fun _ => ?_
  exact Extends.bind (parseType_extends lx h) fun _ => Extends.refl _

theorem parseStruct_extends (h : fuel ≤ fuel') :
    Extends (parseStruct lx fuel) (parseStruct lx fuel') := by
  refine Extends.bind (Extends.refl _) fun origin => ?_
  refine Extends.bind (Extends.refl _) fun _ => ?_
  refine Extends.bind (Extends.refl _) fun identifier => ?_
  refine Extends.bind (Extends.refl _) fun _ => ?_
  exact Extends.bind (parseFields_extends lx h (parseStructField_extends lx h)) fun _ =>
    Extends.refl _

theorem parseMapping_extends (h : fuel ≤ fuel') :
    Extends (parseMapping lx fuel) (parseMapping lx fuel') := by
  refine Extends.bind (Extends.refl _) fun origin => ?_
  refine Extends.bind (Extends.refl _) fun _ => ?_
  refine Extends.bind (Extends.refl _) fun structId => ?_
  refine Extends.bind (Extends.refl _) fun _ => ?_
  refine Extends.bind (parseQualifiedIdentifier_extends lx h) fun mapCategory => ?_
  refine Extends.bind (Extends.refl _) fun _ => ?_
  exact Extends.bind (parseFields_extends lx h (Extends.refl _)) fun _ => Extends.refl _

theorem parseEncodingNode_extends {depth depth' : Nat} (h : fuel ≤ fuel') (hd : depth ≤ depth') :
    Extends (parseEncodingNode lx fuel depth) (parseEncodingNode lx fuel' depth') := by
  induction depth generalizing depth' with
  | zero => exact fun s hs => absurd rfl hs
  | succ depth ih =>
    obtain ⟨more, rfl⟩ : ∃ more, depth' = more + 1 := ⟨depth' - 1, by omega⟩
    have hnode := ih (Nat.le_of_succ_le_succ hd)
    refine Extends.bind (Extends.refl _) fun symbol => ?_
    split
    · refine Extends.bind (Extends.refl _) fun origin => ?_
      refine Extends.bind (Extends.refl _) fun _ => ?_
      refine Extends.bind (Extends.refl _) fun symbol => ?_
      split
      · exact Extends.bind hnode fun _ => Extends.refl _
      · refine Extends.bind (Extends.refl _) fun _ => ?_
        exact Extends.bind (parseFields_extends lx h hnode) fun _ => Extends.refl _
      · exact Extends.refl _
    · exact Extends.refl _
    · exact Extends.refl _

theorem parseEncoding_extends (h : fuel ≤ fuel') :
    Extends (parseEncoding lx fuel) (parseEncoding lx fuel') := by
  refine Extends.bind (Extends.refl _) fun origin => ?_
  refine Extends.bind (Extends.refl _) fun _ => ?_
  refine Extends.bind (Extends.refl _) fun structId => ?_
  refine Extends.bind (Extends.refl _) fun encoId => ?_
  refine Extends.bind (Extends.refl _) fun _ => ?_
  exact Extends.bind (parseFields_extends lx h (parseEncodingNode_extends lx h h)) fun _ =>
    Extends.refl _

theorem parseDeclStep_extends (h : fuel ≤ fuel') (root : AstRoot) :
    Extends (parseDeclStep lx fuel root) (parseDeclStep lx fuel' root) := by
  refine Extends.bind (Extends.refl _) fun symbol => ?_
  split
  · exact Extends.bind (parseStruct_extends lx h) fun _ => Extends.refl _
  · exact Extends.bind (parseMapping_extends lx h) fun _ => Extends.refl _
  · exact Extends.bind (parseEncoding_extends lx h) fun _ => Extends.refl _
  · exact Extends.refl _
  · exact Extends.refl _

end FuelLemmas

open FuelLemmas

theorem parseDocument_extends {σ : Type} (lx : Lexer σ) (fuel fuel' : Nat) (h : fuel ≤ fuel') :
    Extends (parseDocument lx fuel) (parseDocument lx fuel') := by
  refine Extends.bind (Extends.refl _) fun origin => ?_
  refine Extends.bind (Extends.loop (fun _ => Extends.refl _) h _) fun includes => ?_
  refine Extends.bind ?_ fun space => ?_
  · refine Extends.bind (Extends.refl _) fun symbol => Extends.ite ?_ (Extends.refl _)
    exact Extends.bind (Extends.refl _) fun _ => parseQualifiedIdentifier_extends lx h
  · exact Extends.loop (fun root => parseDeclStep_extends lx h root) h _

end Ian.Happy
