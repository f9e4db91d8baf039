import Frontend.Proofs.Grammar.TreeSpans
import Frontend.Proofs.Tree.Alike

/-!
# The spans of all nodes

Wherever the tokens come from that a tree was derived from, as long as they are in order, each of
its nodes goes from the start of one of them to the end of another one.  Nothing else is needed for
that than the order: neither the text, nor what the tokens are.
-/

namespace Frontend

theorem InOrder.tail {token : Token} {tokens : List Token} (horder : InOrder (token :: tokens)) :
    InOrder tokens :=
  (InOrder.cons_iff.mp horder).2.2

namespace Grammar

/-- The tokens are passed over by the span over them. -/
theorem spanOver_bounded {tokens : List Token} (horder : InOrder tokens) (hsome : tokens ≠ []) :
    (spanOver tokens).Bounded tokens := by
  obtain ⟨first, rest, rfl⟩ := List.exists_cons_of_ne_nil hsome
  have hfirst := horder.nonempty first List.mem_cons_self
  have hinside := inside_spanOver horder List.mem_cons_self
  refine ⟨?_, ⟨first, List.mem_cons_self, rfl⟩, ⟨_, List.getLast_mem hsome, rfl⟩⟩
  exact Nat.lt_of_lt_of_le hfirst hinside.2

/-- All nodes of the outlines go from one of the tokens to another one, at whatever depth they
are. -/
def Spanned (tokens : List Token) (outlines : List Outline) : Prop :=
  ∀ span ∈ spansOfOutlines outlines, span.Bounded tokens

namespace Spanned

variable {token : Token} {tokens more front back : List Token} {outlines left right : List Outline}

theorem nil : Spanned tokens [] := nofun

theorem mono (hspanned : Spanned tokens outlines) (hsubset : tokens ⊆ more) :
    Spanned more outlines :=
  fun span hmember => (hspanned span hmember).mono hsubset

theorem cons (token : Token) (hspanned : Spanned tokens outlines) :
    Spanned (token :: tokens) outlines :=
  hspanned.mono (List.subset_cons_self token tokens)

theorem concat (token : Token) (hspanned : Spanned tokens outlines) :
    Spanned (tokens ++ [token]) outlines :=
  hspanned.mono (List.subset_append_left tokens [token])

theorem append (hleft : Spanned front left) (hright : Spanned back right) :
    Spanned (front ++ back) (left ++ right) := by
  rw [Spanned, spansOfOutlines_append]
  exact List.forall_mem_append.mpr ⟨hleft.mono (List.subset_append_left front back),
    hright.mono (List.subset_append_right front back)⟩

/-- A node over the tokens, above those of what was read from them. -/
theorem node {mark : Mark} (hspanned : Spanned tokens outlines) (horder : InOrder tokens)
    (hsome : tokens ≠ []) : Spanned tokens [.node (spanOver tokens) mark outlines] := by
  rw [Spanned, spansOfOutlines, spansOfOutlines, List.append_nil, Outline.spans]
  exact List.forall_mem_cons.mpr ⟨spanOver_bounded horder hsome, hspanned⟩

/-- The node of a token that is a name. -/
theorem name (horder : InOrder [token]) : Spanned [token] [(nameOf token).outline] :=
  nil.node horder (List.cons_ne_nil _ _)

/-- A name before what was read from the other tokens. -/
theorem nameCons (horder : InOrder (token :: tokens)) (hspanned : Spanned tokens outlines) :
    Spanned (token :: tokens) ((nameOf token).outline :: outlines) := by
  have hsplit : InOrder ([token] ++ tokens) := horder
  exact (name hsplit.left).append hspanned

end Spanned

namespace Derives

variable {part : Part} {tokens : List Token} {next : Token} {diagnostics : List Diagnostic}

/-- What is derived from tokens in order has nodes that go from one token to another.  Nothing is
asked of the text itself. -/
theorem spanned (hderives : Derives part tokens next diagnostics) (horder : InOrder tokens) :
    Spanned tokens part.outlines := by
  -- The tokens that belong to no inner part only widen what the inner parts were read from.
  induction hderives with
  | name hkind => exact (Spanned.name horder).node horder (List.cons_ne_nil _ _)
  | integer | string | boolean => exact Spanned.nil.node horder (List.cons_ne_nil _ _)
  | @unary _ _ _ _ sign _ _ _ _ _ ih =>
      exact ((ih horder.tail).cons sign).node horder (List.cons_ne_nil _ _)
  | @array _ _ _ opener _ closer _ _ _ _ _ ih | @object _ _ _ opener _ closer _ _ _ _ _ ih
  | @block _ _ opener _ closer _ _ _ _ _ ih =>
      have hinner := ((ih horder.left.tail).cons opener).concat closer
      exact hinner.node horder (List.cons_ne_nil _ _)
  | @conditional _ _ _ _ keyword opener _ closer _ _ _ _ _ _ _ _ _ ihcondition ihbody =>
      have hcondition := ((ihcondition horder.left.tail.tail).cons opener).cons keyword
      have hbody := (ihbody horder.right.tail).cons closer
      exact (hcondition.append hbody).node horder (List.cons_ne_nil _ _)
  | @alternative _ _ _ _ _ keyword opener _ closer _ separator _ _ _ _ _ _ _ _ _ _ _ _
      ihcondition ihbody ihother =>
      have hcondition := ((ihcondition horder.left.left.tail.tail).cons opener).cons keyword
      have hbody := (ihbody horder.left.right.tail).cons closer
      have hother := (ihother horder.right.tail).cons separator
      exact ((hcondition.append hbody).append hother).node horder (List.cons_ne_nil _ _)
  | @function _ _ _ _ keyword opener _ closer _ _ _ _ _ _ _ _ ihnames ihbody =>
      have hnames := ((ihnames horder.left.tail.tail).cons opener).cons keyword
      have hbody := (ihbody horder.right.tail).cons closer
      exact (hnames.append hbody).node horder (List.cons_ne_nil _ _)
  | @call _ _ _ _ _ opener _ closer _ _ _ _ _ _ _ _ ihcallee iharguments =>
      have harguments := (iharguments horder.left.right.tail).cons opener
      exact (((ihcallee horder.left.left).append harguments).concat closer).node horder (by simp)
  | @binary _ _ _ _ _ _ sign _ _ _ _ _ _ _ _ ihleft ihright =>
      have hright := (ihright horder.right.tail).cons sign
      exact ((ihleft horder.left).append hright).node horder (by simp)
  | expression _ _ ih | lastItem _ ih | lastProperty _ ih => exact ih horder
  | noItems | noProperties | noParameters | noStatements => exact .nil
  | @moreItems _ _ _ _ _ separator _ _ _ _ _ _ _ ihfirst ihitems =>
      exact (ihfirst horder.left).append ((ihitems horder.right.tail).cons separator)
  | @shorthand _ key _ hkey =>
      have hname := Spanned.name horder
      have hvalue : Spanned [key] [(Expression.identifier key.span (nameOf key)).outline] :=
        hname.node horder (List.cons_ne_nil _ _)
      have hsame : [key] ++ [key] ⊆ [key] :=
        List.append_subset.mpr ⟨List.Subset.refl _, List.Subset.refl _⟩
      have hboth := (hname.append hvalue).mono hsame
      rw [Part.outlines, Property.outline_of_isShorthand (isShorthand_nameOf key)]
      exact hboth.node horder (List.cons_ne_nil _ _)
  | @written _ value key colon _ _ _ _ _ hvalue ih =>
      have hparts := ((ih horder.tail.tail).cons colon).nameCons horder
      rw [Part.outlines, Property.outline_of_written (hvalue.isShorthand_eq_false horder _),
        hvalue.cover_eq_spanOver horder]
      exact hparts.node horder (List.cons_ne_nil _ _)
  | @moreProperties _ _ _ _ separator _ _ _ _ _ _ _ ihentry ihentries =>
      exact (ihentry horder.left).append ((ihentries horder.right.tail).cons separator)
  | lastParameter hkind => exact .name horder
  | @moreParameters _ _ separator _ _ _ _ _ ih =>
      exact ((ih horder.tail.tail).cons separator).nameCons horder
  | @letWithoutValue _ keyword _ _ _ _ _ _ =>
      have hname := (Spanned.nil.nameCons horder.tail).cons keyword
      exact hname.node horder (List.cons_ne_nil _ _)
  | @binding _ _ _ keyword _ sign _ closer _ _ _ _ _ _ _ ih =>
      have hvalue := (ih horder.left.tail.tail.tail).cons sign
      have hparts := ((hvalue.nameCons horder.left.tail).cons keyword).concat closer
      exact hparts.node horder (List.cons_ne_nil _ _)
  | @namedFunction _ _ _ keyword _ opener _ closer _ _ _ _ _ _ _ _ _ ihnames ihbody =>
      have hnames := (ihnames horder.left.tail.tail.tail).cons opener
      have hfront := (hnames.nameCons horder.left.tail).cons keyword
      have hbody := (ihbody horder.right.tail).cons closer
      exact (hfront.append hbody).node horder (List.cons_ne_nil _ _)
  | @returned _ _ keyword _ closer _ _ _ _ _ ih =>
      have hvalue := ((ih horder.left.tail).cons keyword).concat closer
      exact hvalue.node horder (List.cons_ne_nil _ _)
  | @closed _ _ _ closer _ _ _ _ _ ih =>
      exact ((ih horder.left).concat closer).node horder (by simp)
  | unclosed hstart hvalue hnext ih => exact (ih horder).node horder hvalue.expression_span.1
  | read hfirst hstatements ihfirst ihstatements =>
      exact (ihfirst horder.left).append (ihstatements horder.right)
  | skipped hlost hstatements ih =>
      exact (ih horder.right).mono (List.subset_append_right _ _)

end Derives

end Grammar

end Frontend
