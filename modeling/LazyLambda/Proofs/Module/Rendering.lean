/-
# LazyLambda.Proofs.Module.Rendering — the tree of a module tells its statements.

Every function and application stands in parentheses, and `λ` is no character of names. So the text of an
expression shows by its first two characters what the expression is, and where it ends: no tree is written as
the beginning of another, unless both are names and one runs on into the other. What follows a name never
does (`Text.Apart`), and so each part can be taken off the front of a text
(`Expr.render_append_inj`, `Statement.render_append_inj`).
-/
import LazyLambda.Proofs.Term.RoundTrip

namespace LazyLambda

open Text (Apart apart_cons)

/-! ## Names -/

namespace Text

theorem ofString_inj {x y : String} : ofString x = ofString y ↔ x = y := by
  constructor
  · intro h
    rw [← toString_ofString x, h, toString_ofString]
  · rintro rfl
    rfl

/-- A name can be taken off the front of a text that does not go on with it. -/
theorem name_append_inj {x y : String} (hx : IsName x) (hy : IsName y) {t u : Text} (ht : Apart t)
    (hu : Apart u) (h : ofString x ++ t = ofString y ++ u) : x = y ∧ t = u := by
  have hlexeme : some (Kind.ident, ofString x) = some (Kind.ident, ofString y) := by
    rw [← lexeme?_name hx ht, ← lexeme?_name hy hu, h]
  obtain rfl : x = y := by simpa [ofString_inj] using hlexeme
  exact ⟨rfl, List.append_cancel_left h⟩

/-- A name starts with no sign. -/
theorem name_append_ne_cons {x : String} (hx : IsName x) {s : Symbol} (hs : s.isNameChar = false)
    (t u : Text) : ofString x ++ t ≠ s :: u := by
  obtain ⟨s', r, hr⟩ := exists_cons_of_isName hx
  have hs' : s'.isNameChar = true := isNameChar_of_mem hx s' (by simp [hr])
  rw [hr, List.cons_append]
  intro h
  exact Symbol.ne_of_isNameChar hs' hs (List.cons.inj h).1

end Text

/-! ## Expressions -/

namespace Expr

theorem ofString_render_lambda (x : String) (body : Expr) (t : Text) :
    Text.ofString (lambda x body).render ++ t =
      .char '(' :: .char 'λ' :: (Text.ofString x ++
        .char ' ' :: (Text.ofString body.render ++ .char ')' :: t)) := by
  simp [render, Text.ofString]

theorem ofString_render_apply (f a : Expr) (t : Text) :
    Text.ofString (apply f a).render ++ t =
      .char '(' :: (Text.ofString f.render ++
        .char ' ' :: .char '@' :: .char ' ' :: (Text.ofString a.render ++ .char ')' :: t)) := by
  simp [render, Text.ofString]

/-- The tree of an expression starts with a parenthesis or with a character of names, and so with no `λ`. -/
theorem render_append_ne_lambda {e : Expr} (he : ∀ x ∈ e.names, IsName x) (t u : Text) :
    Text.ofString e.render ++ t ≠ .char 'λ' :: u := by
  cases e with
  | name x => exact Text.name_append_ne_cons (he x (List.mem_singleton_self x)) (by decide) t u
  | lambda x body =>
      rw [ofString_render_lambda]
      intro h
      exact absurd (List.cons.inj h).1 (by decide)
  | apply f a =>
      rw [ofString_render_apply]
      intro h
      exact absurd (List.cons.inj h).1 (by decide)

/-- **The tree of an expression can be taken off the front of a text** that does not go on with a name. -/
theorem render_append_inj {e e' : Expr} (he : ∀ x ∈ e.names, IsName x)
    (he' : ∀ x ∈ e'.names, IsName x) {t u : Text} (ht : Apart t) (hu : Apart u)
    (h : Text.ofString e.render ++ t = Text.ofString e'.render ++ u) : e = e' ∧ t = u := by
  have hparen (t : Text) : Apart (.char ')' :: t) := apart_cons (by decide) t
  have hblank (t : Text) : Apart (.char ' ' :: t) := apart_cons (by decide) t
  induction e generalizing e' t u with
  | name x =>
      have hx : IsName x := he x (List.mem_singleton_self x)
      cases e' with
      | name y =>
          obtain ⟨rfl, htu⟩ := Text.name_append_inj hx (he' y (List.mem_singleton_self y)) ht hu h
          exact ⟨rfl, htu⟩
      | lambda y body' =>
          rw [ofString_render_lambda] at h
          exact (Text.name_append_ne_cons hx (by decide) _ _ h).elim
      | apply f' a' =>
          rw [ofString_render_apply] at h
          exact (Text.name_append_ne_cons hx (by decide) _ _ h).elim
  | lambda x body ih =>
      rw [names, List.forall_mem_cons] at he
      rw [ofString_render_lambda] at h
      cases e' with
      | name y =>
          have hy : IsName y := he' y (List.mem_singleton_self y)
          exact (Text.name_append_ne_cons hy (by decide) _ _ h.symm).elim
      | lambda y body' =>
          rw [names, List.forall_mem_cons] at he'
          rw [ofString_render_lambda] at h
          obtain ⟨-, h⟩ := List.cons.inj h
          obtain ⟨-, h⟩ := List.cons.inj h
          obtain ⟨rfl, hbody⟩ := Text.name_append_inj he.1 he'.1 (hblank _) (hblank _) h
          obtain ⟨rfl, hrest⟩ := ih he.2 he'.2 (hparen t) (hparen u) (List.cons.inj hbody).2
          exact ⟨rfl, (List.cons.inj hrest).2⟩
      | apply f' a' =>
          rw [names, List.forall_mem_append] at he'
          rw [ofString_render_apply] at h
          obtain ⟨-, h⟩ := List.cons.inj h
          exact (render_append_ne_lambda he'.1 _ _ h.symm).elim
  | apply f a ihf iha =>
      rw [names, List.forall_mem_append] at he
      rw [ofString_render_apply] at h
      cases e' with
      | name y =>
          have hy : IsName y := he' y (List.mem_singleton_self y)
          exact (Text.name_append_ne_cons hy (by decide) _ _ h.symm).elim
      | lambda y body' =>
          rw [ofString_render_lambda] at h
          obtain ⟨-, h⟩ := List.cons.inj h
          exact (render_append_ne_lambda he.1 _ _ h).elim
      | apply f' a' =>
          rw [names, List.forall_mem_append] at he'
          rw [ofString_render_apply] at h
          obtain ⟨-, h⟩ := List.cons.inj h
          obtain ⟨rfl, hargument⟩ := ihf he.1 he'.1 (hblank _) (hblank _) h
          simp only [List.cons.injEq, true_and] at hargument
          obtain ⟨rfl, hrest⟩ := iha he.2 he'.2 (hparen t) (hparen u) hargument
          exact ⟨rfl, (List.cons.inj hrest).2⟩

end Expr

/-! ## Statements -/

namespace Statement

/-- The names in a statement: its target, and those in its expression. -/
def names : Statement → List String
  | .define target expr => target :: expr.names
  | .bare expr => expr.names

theorem ofString_render_define (x : String) (e : Expr) (t : Text) :
    Text.ofString (define x e).render ++ t = Text.ofString (Expr.name x).render ++
      .char ' ' :: .char '=' :: .char ' ' :: (Text.ofString e.render ++ t) := by
  simp [render, Expr.render, Text.ofString]

/-- A line that starts with the target of a definition is no line of an expression. -/
theorem define_ne_bare {x : String} (hx : IsName x) {e : Expr} (he : ∀ y ∈ e.names, IsName y)
    (t u : Text) :
    Text.ofString (Expr.name x).render ++ .char ' ' :: t ≠ Text.ofString e.render ++ .char '\n' :: u := by
  intro h
  have hname : ∀ y ∈ (Expr.name x).names, IsName y := List.forall_mem_singleton.2 hx
  obtain ⟨-, h⟩ :=
    Expr.render_append_inj hname he (apart_cons (by decide) _) (apart_cons (by decide) _) h
  exact absurd (List.cons.inj h).1 (by decide)

/-- The line of a statement can be taken off the front of a text. -/
theorem render_append_inj {st st' : Statement} (hst : ∀ x ∈ st.names, IsName x)
    (hst' : ∀ x ∈ st'.names, IsName x) {t u : Text}
    (h : Text.ofString st.render ++ .char '\n' :: t = Text.ofString st'.render ++ .char '\n' :: u) :
    st = st' ∧ t = u := by
  have hline (t : Text) : Apart (.char '\n' :: t) := apart_cons (by decide) t
  have hblank (t : Text) : Apart (.char ' ' :: t) := apart_cons (by decide) t
  cases st with
  | define x e =>
      rw [names, List.forall_mem_cons] at hst
      rw [ofString_render_define] at h
      cases st' with
      | define y e' =>
          rw [names, List.forall_mem_cons] at hst'
          rw [ofString_render_define] at h
          obtain ⟨rfl, hexpr⟩ := Text.name_append_inj hst.1 hst'.1 (hblank _) (hblank _) h
          simp only [List.cons.injEq, true_and] at hexpr
          obtain ⟨rfl, hrest⟩ := Expr.render_append_inj hst.2 hst'.2 (hline t) (hline u) hexpr
          exact ⟨rfl, (List.cons.inj hrest).2⟩
      | bare e' => exact (define_ne_bare hst.1 hst' _ _ h).elim
  | bare e =>
      cases st' with
      | define y e' =>
          rw [names, List.forall_mem_cons] at hst'
          rw [ofString_render_define] at h
          exact (define_ne_bare hst'.1 hst _ _ h.symm).elim
      | bare e' =>
          obtain ⟨rfl, hrest⟩ := Expr.render_append_inj hst hst' (hline t) (hline u) h
          exact ⟨rfl, (List.cons.inj hrest).2⟩

end Statement

/-! ## Modules -/

namespace Module

theorem ofString_renderAll_cons (st : Statement) (ss : List Statement) :
    Text.ofString (renderAll (st :: ss)) =
      Text.ofString st.render ++ .char '\n' :: Text.ofString (renderAll ss) := by
  simp [renderAll, Text.ofString]

theorem ofString_renderAll_ne_nil (st : Statement) (ss : List Statement) :
    Text.ofString (renderAll (st :: ss)) ≠ [] := by
  rw [ofString_renderAll_cons]
  simp

/-- Lines tell the statements that they are the trees of. -/
theorem renderAll_inj {ss ss' : List Statement} (hss : ∀ st ∈ ss, ∀ x ∈ st.names, IsName x)
    (hss' : ∀ st ∈ ss', ∀ x ∈ st.names, IsName x)
    (h : Text.ofString (renderAll ss) = Text.ofString (renderAll ss')) : ss = ss' := by
  induction ss generalizing ss' with
  | nil =>
      cases ss' with
      | nil => rfl
      | cons st' ss' => exact (ofString_renderAll_ne_nil st' ss' h.symm).elim
  | cons st ss ih =>
      cases ss' with
      | nil => exact (ofString_renderAll_ne_nil st ss h).elim
      | cons st' ss' =>
          rw [List.forall_mem_cons] at hss hss'
          rw [ofString_renderAll_cons, ofString_renderAll_cons] at h
          obtain ⟨rfl, hrest⟩ := Statement.render_append_inj hss.1 hss'.1 h
          rw [ih hss.2 hss'.2 hrest]

/-- **The tree of a module is unambiguous.** If the targets, parameters and names in two modules can be
written, the modules have the same tree only if they have the same statements. -/
theorem render_eq_iff_statements_eq (m m' : Module) (hm : ∀ st ∈ m.statements, ∀ x ∈ st.names, IsName x)
    (hm' : ∀ st ∈ m'.statements, ∀ x ∈ st.names, IsName x) :
    m.render = m'.render ↔ m.statements = m'.statements := by
  constructor
  · intro h
    exact renderAll_inj hm hm' (Text.ofString_inj.2 h)
  · intro h
    rw [render, render, h]

/-- The two modules differ in what belongs to what, and not in the order of their names. -/
theorem render_eq_iff_statements_eq_regrouped :
    let x := Expr.name "x"
    let y := Expr.name "y_1"
    let m : Module := ⟨"left", [.define "f" (.lambda "x" (.apply (.apply x y) x)), .bare (.name "f")]⟩
    let m' : Module := ⟨"right", [.define "f" (.lambda "x" (.apply x (.apply y x))), .bare (.name "f")]⟩
    (∀ st ∈ m.statements, ∀ x ∈ st.names, IsName x) ∧ (∀ st ∈ m'.statements, ∀ x ∈ st.names, IsName x) ∧
      m.render ≠ m'.render ∧ m.render = (⟨"other", m.statements⟩ : Module).render := by
  intro x y m m'
  have hm : ∀ st ∈ m.statements, ∀ x ∈ st.names, IsName x := by decide
  have hm' : ∀ st ∈ m'.statements, ∀ x ∈ st.names, IsName x := by decide
  refine ⟨hm, hm', fun h => ?_, (render_eq_iff_statements_eq m ⟨"other", m.statements⟩ hm hm).2 rfl⟩
  exact absurd ((render_eq_iff_statements_eq m m' hm hm').1 h) (by decide)

end Module

end LazyLambda
