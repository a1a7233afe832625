/-
# LazyLambda.Proofs.Module.Json — the JSON text of a module determines the module.

A module is a value, and its text in either layout stands for that value, so the reader gets the value
back from both. The tags and the number of fields then tell the kinds of nodes apart.
-/
import LazyLambda.Proofs.Module.JsonReader

namespace LazyLambda.Json

/-! ## Modules as values -/

namespace Value

/-- The tag of a node stands first and tells its kind. -/
def ofExpr : Expr → Value
  | .name x => .object [("type", .text "identifier"), ("name", .text x)]
  | .lambda x body =>
    .object [("type", .text "definition"), ("parameter", .text x), ("body", ofExpr body)]
  | .apply f a =>
    .object [("type", .text "application"), ("target", ofExpr f), ("argument", ofExpr a)]

def ofStatement : Statement → Value
  | .define target e =>
    .object [("type", .text "assignment"), ("target", .text target), ("expr", ofExpr e)]
  | .bare e => .object [("type", .text "expression"), ("expr", ofExpr e)]

/-- No statements at all are no list. -/
def ofStatements : List Statement → Value
  | [] => .null
  | ss => .list (ss.map ofStatement)

/-- An empty name is no field. -/
def ofModule (m : Module) : Value :=
  let body := [("statements", ofStatements m.statements)]
  .object (if m.name = "" then body else ("name", .text m.name) :: body)

/-! ## Values as modules -/

/-- The expression that a value is, if its fields are those of one in their order. -/
def toExpr? : Value → Option Expr
  | .object [("type", .text "identifier"), ("name", .text x)] => some (.name x)
  | .object [("type", .text "definition"), ("parameter", .text x), ("body", body)] =>
    (toExpr? body).map (.lambda x)
  | .object [("type", .text "application"), ("target", f), ("argument", a)] => do
    return .apply (← toExpr? f) (← toExpr? a)
  | _ => none

def toStatement? : Value → Option Statement
  | .object [("type", .text "assignment"), ("target", .text target), ("expr", e)] =>
    e.toExpr?.map (.define target)
  | .object [("type", .text "expression"), ("expr", e)] => e.toExpr?.map .bare
  | _ => none

def toStatements? : Value → Option (List Statement)
  | .null => some []
  | .list vs => vs.mapM toStatement?
  | _ => none

def toModule? : Value → Option Module
  | .object [("statements", ss)] => ss.toStatements?.map (Module.mk "")
  | .object [("name", .text name), ("statements", ss)] => ss.toStatements?.map (Module.mk name)
  | _ => none

theorem toExpr?_ofExpr (e : Expr) : (ofExpr e).toExpr? = some e := by
  induction e with
  | name x => simp [ofExpr, toExpr?]
  | lambda x body ih => simp [ofExpr, toExpr?, ih]
  | apply f a ihf iha => simp [ofExpr, toExpr?, ihf, iha]

theorem toStatement?_ofStatement (st : Statement) : (ofStatement st).toStatement? = some st := by
  cases st with
  | define target e => simp [ofStatement, toStatement?, toExpr?_ofExpr]
  | bare e => simp [ofStatement, toStatement?, toExpr?_ofExpr]

theorem toStatements?_ofStatements (ss : List Statement) :
    (ofStatements ss).toStatements? = some ss := by
  have hall : ∀ ts : List Statement, (ts.map ofStatement).mapM toStatement? = some ts := by
    intro ts
    induction ts with
    | nil => rfl
    | cons st ts ih => simp [toStatement?_ofStatement, ih]
  cases ss with
  | nil => rfl
  | cons st ss => exact hall (st :: ss)

theorem toModule?_ofModule (m : Module) : (ofModule m).toModule? = some m := by
  obtain ⟨name, ss⟩ := m
  by_cases hname : name = ""
  · simp [ofModule, toModule?, hname, toStatements?_ofStatements]
  · simp [ofModule, toModule?, hname, toStatements?_ofStatements]

end Value

/-! ## Texts of modules -/

theorem writes_ofExpr (l : Layout) (depth : Nat) (e : Expr) :
    Writes (ofExpr l depth e) (Value.ofExpr e) := by
  induction e generalizing depth with
  | name x =>
      exact writes_object l depth
        [("type", ofString "identifier", .text "identifier"), ("name", ofString x, .text x)]
        (by simp [writes_ofString])
  | lambda x body ih =>
      exact writes_object l depth
        [("type", ofString "definition", .text "definition"), ("parameter", ofString x, .text x),
          ("body", ofExpr l (depth + 1) body, Value.ofExpr body)]
        (by simp [writes_ofString, ih])
  | apply f a ihf iha =>
      exact writes_object l depth
        [("type", ofString "application", .text "application"),
          ("target", ofExpr l (depth + 1) f, Value.ofExpr f),
          ("argument", ofExpr l (depth + 1) a, Value.ofExpr a)]
        (by simp [writes_ofString, ihf, iha])

theorem writes_ofStatement (l : Layout) (depth : Nat) (st : Statement) :
    Writes (ofStatement l depth st) (Value.ofStatement st) := by
  cases st with
  | define target e =>
      exact writes_object l depth
        [("type", ofString "assignment", .text "assignment"), ("target", ofString target, .text target),
          ("expr", ofExpr l (depth + 1) e, Value.ofExpr e)]
        (by simp [writes_ofString, writes_ofExpr])
  | bare e =>
      exact writes_object l depth
        [("type", ofString "expression", .text "expression"),
          ("expr", ofExpr l (depth + 1) e, Value.ofExpr e)]
        (by simp [writes_ofString, writes_ofExpr])

theorem writes_ofStatements (l : Layout) (depth : Nat) (ss : List Statement) :
    Writes (ofStatements l depth ss) (Value.ofStatements ss) := by
  cases ss with
  | nil => exact writes_null
  | cons st ss =>
      have hlist := writes_list l depth
        ((st :: ss).map fun t => (ofStatement l (depth + 1) t, Value.ofStatement t))
        (by simp [writes_ofStatement])
      simpa [ofStatements, Value.ofStatements, Function.comp_def] using hlist

theorem writes_ofModule (l : Layout) (m : Module) : Writes (ofModule l m) (Value.ofModule m) := by
  have hbody := writes_ofStatements l 1 m.statements
  by_cases hname : m.name = ""
  · simp only [ofModule, Value.ofModule, if_pos hname]
    exact writes_object l 0
      [("statements", ofStatements l 1 m.statements, Value.ofStatements m.statements)] (by simp [hbody])
  · simp only [ofModule, Value.ofModule, if_neg hname]
    exact writes_object l 0
      [("name", ofString m.name, .text m.name),
        ("statements", ofStatements l 1 m.statements, Value.ofStatements m.statements)]
      (by simp [writes_ofString, hbody])

/-- The module that a text stands for. -/
def toModule? (s : String) : Option Module := (read? s).bind Value.toModule?

theorem toModule?_ofModule (l : Layout) (m : Module) : toModule? (ofModule l m) = some m := by
  rw [toModule?, (writes_ofModule l m).read?_eq]
  exact Value.toModule?_ofModule m

/-- **Nothing of a module is lost in its text**, whatever characters its names have. One reader gets every
module back from its text in either layout, and modules with the same text are the same module. -/
theorem ofModule_loses_nothing :
    (∀ (l : Layout) (m : Module), toModule? (ofModule l m) = some m) ∧
      (∀ m₁ m₂ : Module, ofModule .compact m₁ = ofModule .compact m₂ ↔ m₁ = m₂) ∧
      (∀ m₁ m₂ : Module, ofModule .indented m₁ = ofModule .indented m₂ ↔ m₁ = m₂) := by
  have hinj : ∀ (l : Layout) (m₁ m₂ : Module), ofModule l m₁ = ofModule l m₂ ↔ m₁ = m₂ := by
    intro l m₁ m₂
    constructor
    · intro h
      have hread : toModule? (ofModule l m₁) = toModule? (ofModule l m₂) := congrArg toModule? h
      rw [toModule?_ofModule, toModule?_ofModule] at hread
      exact Option.some.inj hread
    · rintro rfl
      rfl
  exact ⟨toModule?_ofModule, hinj .compact, hinj .indented⟩

end LazyLambda.Json
